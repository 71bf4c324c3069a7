import DeadCast.Text.Quoted

/-!
# JSON strings

A string is written with ASCII characters only: the quote and the backslash behind a backslash, the
five common control characters by a letter, and everything else outside the visible ASCII range by
the code units of its UTF-16 form, so a character above `U+FFFF` takes two.
-/

namespace DeadCast

namespace Text

/-- A code unit as a backslash, the letter `u` and four hexadecimal digits. -/
def unitEscape (u : Nat) : List Char := '\\' :: 'u' :: hexadecimal 4 u

/-- How one character is written inside a JSON string. -/
def jsonChar (c : Char) : List Char :=
  if c = '"' then ['\\', '"']
  else if c = '\\' then ['\\', '\\']
  else if c = '\n' then ['\\', 'n']
  else if c = '\r' then ['\\', 'r']
  else if c = '\t' then ['\\', 't']
  else if c = '\x0c' then ['\\', 'f']
  else if c = '\x08' then ['\\', 'b']
  else if 0x20 ≤ c.toNat ∧ c.toNat ≤ 0x7e then [c]
  else if c.toNat < 0x10000 then unitEscape c.toNat
  else
    let offset := c.toNat - 0x10000
    unitEscape (0xd800 + offset / 0x400) ++ unitEscape (0xdc00 + offset % 0x400)

/-- The text as a JSON string, quotes included. -/
def jsonString (s : String) : String :=
  String.ofList ('"' :: (s.toList.flatMap jsonChar ++ ['"']))

end Text

end DeadCast

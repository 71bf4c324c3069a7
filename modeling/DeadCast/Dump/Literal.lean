import DeadCast.Text.Numeral

/-!
# Integer literals of C

A literal is read without its suffix.  A zero in front of further digits means octal, and `0x` and
`0b` mean hexadecimal and binary.
-/

namespace DeadCast

namespace Literal

/-- The letters of a suffix. -/
def isSuffix (c : Char) : Bool := c == 'u' || c == 'U' || c == 'l' || c == 'L'

/-- The literal without its suffix. -/
def body (cs : List Char) : List Char := (cs.reverse.dropWhile isSuffix).reverse

/-- Does the literal say by a letter that it is binary or hexadecimal? -/
def choosesBase : List Char → Bool
  | '0' :: letter :: _ => letter == 'b' || letter == 'B' || letter == 'x' || letter == 'X'
  | _ => false

/-- The literal in the notation that always chooses the base by a letter. -/
def explicit (cs : List Char) : List Char :=
  if choosesBase cs then cs
  else
    match cs with
    | '0' :: c :: rest => if (c :: rest).all Text.isDigit then '0' :: 'o' :: c :: rest else cs
    | _ => cs

/-- The value of an integer literal, if the text is one. -/
def value? (text : String) : Option Int :=
  (Text.prefixedNumeral (String.ofList (explicit (body text.toList)))).toOption

end Literal

end DeadCast

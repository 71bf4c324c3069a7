import Mathlib.Tactic

/-!
# Reading JSON

A reader of JSON texts, against which the writer of JSON is held.  It knows the whole grammar, and
nothing about what the writer prefers: blanks may stand anywhere between lexemes, strings may use
any escape or none, and numbers may have a fraction and an exponent.

The reader is a machine that takes one character at a time (`Reader.step`), so what it makes of a
text that is put together of parts is told part by part.  `Json.Place` is what it knows of the
arrays and objects around, and `Json.Mode` is where it stands inside a lexeme.
-/

namespace DeadCast

/-- A JSON value.  A number is `mantissa * 10 ^ exponent`, and an object has its members in the
order of the text. -/
inductive Json where
  | null
  | bool (b : Bool)
  | number (mantissa exponent : Int)
  | string (s : String)
  | array (items : List Json)
  | object (members : List (String × Json))

namespace Json

/-! ## Code units -/

/-- The UTF-16 code units of a character. -/
def units (c : Char) : List Nat :=
  if c.toNat < 0x10000 then [c.toNat]
  else [0xd800 + (c.toNat - 0x10000) / 0x400, 0xdc00 + (c.toNat - 0x10000) % 0x400]

/-- Is the code unit one half of a pair? -/
def isSurrogate (u : Nat) : Bool := 0xd800 ≤ u && u < 0xe000

/-- The characters of UTF-16 code units, unless half a pair stands alone. -/
def characters? : List Nat → Option (List Char)
  | [] => some []
  | [u] => if isSurrogate u then none else some [Char.ofNat u]
  | u :: v :: rest =>
    if isSurrogate u then
      if u < 0xdc00 ∧ 0xdc00 ≤ v ∧ v < 0xe000 then
        (characters? rest).map (Char.ofNat (0x10000 + 0x400 * (u - 0xd800) + (v - 0xdc00)) :: ·)
      else
        none
    else
      (characters? (v :: rest)).map (Char.ofNat u :: ·)

/-! ## Numbers and words -/

/-- The number that some digits mean. -/
def digits? (ds : List Char) : Option Int :=
  if ds ≠ [] ∧ ds.all Char.isDigit then some (Nat.ofDigitChars 10 ds 0) else none

/-- The digits after a point, if there is one, and what follows. -/
def fraction? : List Char → Option (List Char × List Char)
  | '.' :: rest =>
    let ds := rest.takeWhile Char.isDigit
    if ds = [] then none else some (ds, rest.dropWhile Char.isDigit)
  | rest => some ([], rest)

/-- The exponent at the end of a number. -/
def exponent? : List Char → Option Int
  | [] => some 0
  | c :: rest =>
    if c = 'e' ∨ c = 'E' then
      match rest with
      | '-' :: ds => (digits? ds).map (- ·)
      | '+' :: ds => digits? ds
      | ds => digits? ds
    else
      none

/-- Mantissa and exponent of a number without a sign.  Its first digit is no zero, unless nothing
else stands before the point. -/
def unsigned? (run : List Char) : Option (Int × Int) := do
  let whole := run.takeWhile Char.isDigit
  if whole = [] ∨ (whole.head? = some '0' ∧ whole ≠ ['0']) then none
  else
    let (ds, rest) ← fraction? (run.dropWhile Char.isDigit)
    let e ← exponent? rest
    return (Nat.ofDigitChars 10 (whole ++ ds) 0, e - ds.length)

/-- The number that a run of characters means. -/
def number? : List Char → Option Json
  | '-' :: run => (unsigned? run).map fun (m, e) => .number (-m) e
  | run => (unsigned? run).map fun (m, e) => .number m e

/-- The value that a word means. -/
def word? (run : List Char) : Option Json :=
  if run = ['n', 'u', 'l', 'l'] then some .null
  else if run = ['t', 'r', 'u', 'e'] then some (.bool true)
  else if run = ['f', 'a', 'l', 's', 'e'] then some (.bool false)
  else none

/-! ## Lexemes -/

/-- The parts of a JSON text. -/
inductive Lexeme where
  | openObject
  | closeObject
  | openArray
  | closeArray
  | colon
  | comma
  | text (s : String)
  /-- A number or a word. -/
  | bare (run : List Char)

/-- The lexemes of one character. -/
def mark? (c : Char) : Option Lexeme :=
  if c = '\x7b' then some .openObject
  else if c = '\x7d' then some .closeObject
  else if c = '[' then some .openArray
  else if c = ']' then some .closeArray
  else if c = ':' then some .colon
  else if c = ',' then some .comma
  else none

/-- May the character stand between lexemes? -/
def isBlank (c : Char) : Bool := c == ' ' || c == '\t' || c == '\n' || c == '\r'

/-- May the character be part of a number or a word? -/
def isBare (c : Char) : Bool := c.isAlphanum || c == '+' || c == '-' || c == '.'

/-- The code unit that a letter behind a backslash means. -/
def escape? (c : Char) : Option Nat :=
  if c = '"' ∨ c = '\\' ∨ c = '/' then some c.toNat
  else if c = 'b' then some 0x08
  else if c = 'f' then some 0x0c
  else if c = 'n' then some 0x0a
  else if c = 'r' then some 0x0d
  else if c = 't' then some 0x09
  else none

/-- The value of a hexadecimal digit. -/
def hexDigit? (c : Char) : Option Nat :=
  if c.isDigit then some (c.toNat - 48)
  else if 'a' ≤ c ∧ c ≤ 'f' then some (c.toNat - 87)
  else if 'A' ≤ c ∧ c ≤ 'F' then some (c.toNat - 55)
  else none

/-! ## The machine -/

/-- An array or object that is not complete, around the value that is read. -/
inductive Frame where
  | array (items : List Json)
  | object (members : List (String × Json)) (key : String)

/-- What was read so far, and so what may come next.  The frames are from inside out. -/
inductive Place where
  /-- A value comes next. -/
  | value (outer : List Frame)
  /-- An array was opened. -/
  | array (outer : List Frame)
  /-- An object was opened. -/
  | object (outer : List Frame)
  /-- The key of one more member comes next. -/
  | key (outer : List Frame) (members : List (String × Json))
  /-- The colon behind a key comes next. -/
  | colon (outer : List Frame) (members : List (String × Json)) (key : String)
  /-- A value is complete. -/
  | after (outer : List Frame) (v : Json)

namespace Place

/-- Takes a lexeme where a value comes next. -/
def start (outer : List Frame) : Lexeme → Option Place
  | .openObject => some (.object outer)
  | .openArray => some (.array outer)
  | .text s => some (.after outer (.string s))
  | .bare run => (number? run <|> word? run).map (.after outer)
  | _ => none

/-- Takes a lexeme. -/
def take : Place → Lexeme → Option Place
  | .value outer, l => start outer l
  | .array outer, .closeArray => some (.after outer (.array []))
  | .array outer, l => start (.array [] :: outer) l
  | .object outer, .closeObject => some (.after outer (.object []))
  | .object outer, .text name => some (.colon outer [] name)
  | .key outer members, .text name => some (.colon outer members name)
  | .colon outer members name, .colon => some (.value (.object members name :: outer))
  | .after (.array items :: outer) v, .comma => some (.value (.array (items ++ [v]) :: outer))
  | .after (.array items :: outer) v, .closeArray => some (.after outer (.array (items ++ [v])))
  | .after (.object members name :: outer) v, .comma => some (.key outer (members ++ [(name, v)]))
  | .after (.object members name :: outer) v, .closeObject =>
    some (.after outer (.object (members ++ [(name, v)])))
  | _, _ => none

end Place

/-- Where the reader stands inside a lexeme. -/
inductive Mode where
  | between
  /-- In a number or a word. -/
  | bare (run : List Char)
  /-- In a string, after some code units. -/
  | quoted (units : List Nat)
  /-- Behind a backslash in a string. -/
  | escape (units : List Nat)
  /-- In a code unit that is written in hexadecimal, with digits left to read after the next. -/
  | code (units : List Nat) (left value : Nat)

/-- The state of the reader. -/
structure Reader where
  place : Place
  mode : Mode := .between

namespace Reader

/-- Takes a character between two lexemes. -/
def outside (p : Place) (c : Char) : Option Reader :=
  if isBlank c then some ⟨p, .between⟩
  else if c = '"' then some ⟨p, .quoted []⟩
  else if isBare c then some ⟨p, .bare [c]⟩
  else ((mark? c).bind p.take).map (⟨·, .between⟩)

/-- Takes a character. -/
def step (r : Reader) (c : Char) : Option Reader :=
  match r.mode with
  | .between => outside r.place c
  | .bare run =>
    if isBare c then some ⟨r.place, .bare (run ++ [c])⟩
    else (r.place.take (.bare run)).bind (outside · c)
  | .quoted us =>
    if c = '"' then
      (characters? us).bind fun cs =>
        (r.place.take (.text (String.ofList cs))).map (⟨·, .between⟩)
    else if c = '\\' then some ⟨r.place, .escape us⟩
    else if c.toNat < 0x20 then none
    else some ⟨r.place, .quoted (us ++ units c)⟩
  | .escape us =>
    if c = 'u' then some ⟨r.place, .code us 3 0⟩
    else (escape? c).map fun u => ⟨r.place, .quoted (us ++ [u])⟩
  | .code us left value =>
    (hexDigit? c).map fun d =>
      match left with
      | 0 => ⟨r.place, .quoted (us ++ [16 * value + d])⟩
      | left + 1 => ⟨r.place, .code us left (16 * value + d)⟩

/-- Takes the characters of a text, one after the other. -/
def run (r : Reader) (cs : List Char) : Option Reader := cs.foldlM step r

/-- The place that is reached at the end of a text. -/
def finish (r : Reader) : Option Place :=
  match r.mode with
  | .between => some r.place
  | .bare cs => r.place.take (.bare cs)
  | _ => none

end Reader

/-- The value that a text means, if it is a JSON text. -/
def read (s : String) : Option Json :=
  match (Reader.run ⟨.value [], .between⟩ s.toList).bind Reader.finish with
  | some (.after [] v) => some v
  | _ => none

example : read " [-2.50e3, \x7b\"a\" : [true]\x7d]" =
    some (.array [.number (-250) 1, .object [("a", .array [.bool true])]]) := by
  rfl

-- a comma at the end, a zero in front, half a pair
example : read "[1, ]" = none ∧ read "01" = none ∧ read "\"\\ud83d\"" = none :=
  ⟨rfl, rfl, rfl⟩

end Json

end DeadCast

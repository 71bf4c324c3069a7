import DeadCast.Number.Binary64

/-!
# Reading decimal texts of binary numbers

The notation read here is the one that `Binary64.text` writes: digits with an optional point and an
optional exponent, a sign in front, and words for the infinities and for what is not a number.  The
number nearest to the written decimal is taken.
-/

namespace DeadCast

namespace Binary64

/-- The value of a list of decimal digits. -/
def digitsValue (ds : List Char) : Nat := ds.foldl (fun n d => n * 10 + (d.toNat - 48)) 0

/-- Digits with an optional sign, as an exponent. -/
def readExponent? : List Char → Option Int
  | '+' :: ds => if ds.isEmpty || !ds.all Char.isDigit then none else some (digitsValue ds)
  | '-' :: ds => if ds.isEmpty || !ds.all Char.isDigit then none else some (-(digitsValue ds : Int))
  | ds => if ds.isEmpty || !ds.all Char.isDigit then none else some (digitsValue ds)

/-- A decimal without a sign, as an exact rational. -/
def readDecimal? (cs : List Char) : Option Rat := do
  let whole := cs.takeWhile Char.isDigit
  let rest := cs.dropWhile Char.isDigit
  let (part, rest) := match rest with
    | '.' :: more => (more.takeWhile Char.isDigit, more.dropWhile Char.isDigit)
    | other => ([], other)
  let exponent ← match rest with
    | [] => some 0
    | 'e' :: more => readExponent? more
    | _ => none
  if whole.isEmpty && part.isEmpty then none
  else some ((digitsValue (whole ++ part) : Rat) * powTen (exponent - part.length))

/-- Reads a number without its sign. -/
def readMagnitude? (negative : Bool) (cs : List Char) : Option Binary64 :=
  if cs = ['i', 'n', 'f'] then some (.infinite negative)
  else if cs = ['n', 'a', 'n'] then some (.undefined 0)
  else (readDecimal? cs).map fun q => nearest (if negative then -q else q) negative

/-- Reads the text of a number. -/
def read? (text : String) : Option Binary64 :=
  match text.toList with
  | '-' :: cs => readMagnitude? true cs
  | cs => readMagnitude? false cs

end Binary64

end DeadCast

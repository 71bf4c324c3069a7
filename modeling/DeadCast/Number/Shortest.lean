import DeadCast.Number.Binary64
import DeadCast.Number.Decimal

/-!
# The shortest decimal text of a binary number

A number is printed with the fewest digits that still read back as the same number.  The reals that
round to a given number form an interval around it (`Binary64.Basin`); for one, two, … digits the
two decimals next to the number are tried, and the first that lies in the interval wins, of two the
nearer one, at equal distance the even one.

The digits are written out with a point if the first of them stands between four places behind the
point and sixteen before it; all other numbers get an exponent of at least two digits.
-/

namespace DeadCast

namespace Binary64

/-! ## Digits -/

/-- The reals that round to one number: an interval that has its ends if `closed`. -/
structure Basin where
  low : Rat
  high : Rat
  closed : Bool

/-- The reals that round to the representable number `v`, which is positive.  The neighbour below
is half as far away as the one above if `v` is the first number of its size. -/
def basin (v : Rat) : Basin :=
  let last := lastExponent v
  let step := powTwo last
  let significand := nearestWhole (v / step)
  let stepBelow := if significand = Nat.pow 2 52 ∧ -1074 < last then step / 2 else step
  { low := v - stepBelow / 2, high := v + step / 2, closed := significand % 2 == 0 }

/-- Does a decimal read back as the number of this interval? -/
def Basin.holds (b : Basin) (d : Rat) : Bool :=
  if b.closed then decide (b.low ≤ d) && decide (d ≤ b.high)
  else decide (b.low < d) && decide (d < b.high)

/-- How many decimal digits a natural number has. -/
def digitCount (n : Nat) : Nat := (Nat.toDigits 10 n).length

/-- The `k` with `10 ^ (k - 1) ≤ v < 10 ^ k`, for a positive `v`. -/
def decimalPoint (v : Rat) : Int :=
  if 1 ≤ v then (digitCount v.floor.natAbs : Int)
  else 1 - (digitCount ((1 / v).ceil.natAbs - 1) : Int)

/-- The decimal with at most `n` digits that reads back as `v`, if there is one, as a multiple of
`10 ^ (point - n)`. -/
def decimalOfLength? (v : Rat) (b : Basin) (point : Int) (n : Nat) : Option Nat :=
  let grid := powTen (point - n)
  let below := (v / grid).floor.natAbs
  let above := below + 1
  let hitBelow := b.holds (below * grid)
  let hitAbove := b.holds (above * grid)
  if hitBelow && hitAbove then some (nearestWhole (v / grid))
  else if hitBelow then some below
  else if hitAbove then some above
  else none

/-- The shortest decimal from `n` digits on, as a whole number and its power of ten. -/
def shortestFrom (v : Rat) (b : Basin) (point : Int) : Nat → Nat → Nat × Int
  | 0, n => (nearestWhole (v / powTen (point - n)), point - n)
  | tries + 1, n =>
    match decimalOfLength? v b point n with
    | some digits => (digits, point - n)
    | none => shortestFrom v b point tries (n + 1)

/-- The shortest decimal that reads back as the positive number `v`: its digits as a whole number,
and the power of ten of the last digit.  Seventeen digits are always enough. -/
def shortest (v : Rat) : Nat × Int := shortestFrom v (basin v) (decimalPoint v) 16 1

/-! ## Layout -/

/-- Trailing zeros of a digit list, dropped. -/
def dropTrailingZeros (ds : List Char) : List Char := (ds.reverse.dropWhile (· == '0')).reverse

/-- An exponent with its sign and at least two digits. -/
def exponentText (e : Int) : String :=
  let digits := Nat.repr e.natAbs
  (if e < 0 then "e-" else "e+") ++ (if digits.length < 2 then "0" ++ digits else digits)

/-- Digits with a point after the first `point` of them, or an exponent if the point is too far
away.  The digits have no trailing zero. -/
def layOut (ds : List Char) (point : Int) : String :=
  if point ≤ -4 ∨ 16 < point then
    match ds with
    | [] => "0.0"
    | [d] => String.ofList [d] ++ exponentText (point - 1)
    | d :: rest => String.ofList (d :: '.' :: rest) ++ exponentText (point - 1)
  else if point ≤ 0 then
    "0." ++ String.ofList (List.replicate (-point).toNat '0' ++ ds)
  else
    let whole := point.toNat
    let front := ds.take whole
    let back := ds.drop whole
    String.ofList (front ++ List.replicate (whole - front.length) '0') ++ "." ++
      (if back.isEmpty then "0" else String.ofList back)

/-- The text of a positive finite number. -/
def positiveText (v : Rat) : String :=
  let (digits, exponent) := shortest v
  let ds := Nat.toDigits 10 digits
  layOut (dropTrailingZeros ds) ((ds.length : Int) + exponent)

/-- The shortest decimal text of a number. -/
def text : Binary64 → String
  | .finite q =>
    if q = 0 then "0.0" else if q < 0 then "-" ++ positiveText (-q) else positiveText q
  | .negativeZero => "-0.0"
  | .infinite negative => if negative then "-inf" else "inf"
  | .undefined _ => "nan"

end Binary64

end DeadCast

import DeadCast.Number.Rounding

/-!
# Binary floating-point numbers of 64 bits

Times and a few attribute values are binary floating-point numbers.  A finite one is held as the
rational that it is, so that comparing it with an integer, cutting it to an integer and printing it
are exact.  Arithmetic computes the exact result and brings it to the nearest representable number
(`Binary64.nearest`): 53 significant bits, no bit below `2 ^ (-1074)`, infinity from `2 ^ 1024` on.

`Numeric` is what a number of any kind is worth; equality and order go through it.
-/

namespace DeadCast

/-- The worth of a number: a rational, an infinity, or not a number. -/
inductive Numeric where
  | exact (q : Rat)
  | infinite (negative : Bool)
  | undefined
  deriving DecidableEq, Repr

namespace Numeric

/-- Equal worth; what is not a number equals nothing. -/
def same : Numeric → Numeric → Bool
  | .exact p, .exact q => p == q
  | .infinite a, .infinite b => a == b
  | _, _ => false

/-- Less worth; what is not a number is neither less nor greater. -/
def lt : Numeric → Numeric → Bool
  | .exact p, .exact q => p < q
  | .exact _, .infinite negative => !negative
  | .infinite negative, .exact _ => negative
  | .infinite a, .infinite b => a && !b
  | _, _ => false

end Numeric

/-- A binary floating-point number of 64 bits.  `finite 0` is the positive zero. -/
inductive Binary64 where
  | finite (q : Rat)
  | negativeZero
  | infinite (negative : Bool)
  /-- Not a number.  Such a value equals nothing, yet it can be told from others of its kind by its
  mark. -/
  | undefined (mark : Nat)
  deriving DecidableEq, Repr

namespace Binary64

/-- What the number is worth. -/
def numeric : Binary64 → Numeric
  | .finite q => .exact q
  | .negativeZero => .exact 0
  | .infinite negative => .infinite negative
  | .undefined _ => .undefined

/-- Is the sign bit set? -/
def isNegative : Binary64 → Bool
  | .finite q => q < 0
  | .negativeZero => true
  | .infinite negative => negative
  | .undefined _ => false

/-- The zero of a sign. -/
def zero (negative : Bool) : Binary64 := if negative then .negativeZero else .finite 0

/-- The exponent of the leading bit of a positive rational. -/
def leadingExponent (q : Rat) : Int :=
  let guess : Int := (q.num.natAbs.log2 : Int) - (q.den.log2 : Int)
  if powTwo guess ≤ q then guess else guess - 1

/-- The exponent of the last bit that is kept of a positive rational. -/
def lastExponent (q : Rat) : Int := max (leadingExponent q - 52) (-1074)

/-- The representable number nearest to a rational; `negative` is the sign of a result that is
zero.  Halfway between two the one with the even last bit is taken. -/
def nearest (q : Rat) (negative : Bool) : Binary64 :=
  let magnitude := if q < 0 then -q else q
  if magnitude = 0 then zero negative
  else
    let last := lastExponent magnitude
    let rounded := (nearestWhole (magnitude / powTwo last) : Rat) * powTwo last
    if powTwo 1024 ≤ rounded then .infinite (q < 0)
    else if rounded = 0 then zero (q < 0)
    else .finite (if q < 0 then -rounded else rounded)

/-- The number nearest to an integer. -/
def ofInt (n : Int) : Binary64 := nearest n false

/-- The product. -/
def mul (x y : Binary64) : Binary64 :=
  let negative := x.isNegative != y.isNegative
  match x.numeric, y.numeric with
  | .exact p, .exact q => nearest (p * q) negative
  | .exact p, .infinite _ => if p = 0 then .undefined 0 else .infinite negative
  | .infinite _, .exact q => if q = 0 then .undefined 0 else .infinite negative
  | .infinite _, .infinite _ => .infinite negative
  | _, _ => .undefined 0

/-- The difference.  It is the negative zero only if a positive zero is taken from a negative
one. -/
def sub (x y : Binary64) : Binary64 :=
  match x.numeric, y.numeric with
  | .exact p, .exact q => nearest (p - q) (x == .negativeZero && y == .finite 0)
  | .exact _, .infinite negative => .infinite !negative
  | .infinite negative, .exact _ => .infinite negative
  | .infinite a, .infinite b => if a == b then .undefined 0 else .infinite a
  | _, _ => .undefined 0

end Binary64

end DeadCast

/-!
# Decimal text of integers

Every number the checker prints without a point is written here: the decimal digits of its
magnitude, after a minus sign if it is negative.

Integers have no limit, but their decimal numerals do: one with more than `digitLimit` digits is
neither written nor read.  `decimal` gives the digits of any integer; `isWritable` says whether they
may be used.
-/

namespace DeadCast

/-- The decimal text of an integer. -/
def decimal (n : Int) : String :=
  if n < 0 then "-" ++ Nat.repr n.natAbs else Nat.repr n.natAbs

/-- The greatest number of digits of a decimal numeral. -/
def digitLimit : Nat := 4300

/-- Does a number have at most `k` decimal digits? -/
def fitsDigits : Nat → Nat → Bool
  | _, 0 => true
  | 0, _ => false
  | k + 1, n => fitsDigits k (n / 10)

/-- May the integer be written as a decimal numeral? -/
def isWritable (n : Int) : Bool := fitsDigits digitLimit n.natAbs

end DeadCast

/-!
# Rounding to the nearest

Both the binary numbers of the clock and their decimal texts come from one rule: the exact quotient
goes to the nearest whole number, and a quotient halfway between two goes to the even one.
-/

namespace DeadCast

/-- The whole number nearest to `num / den`; halfway between two, the even one. -/
def roundHalfEven (num den : Nat) : Nat :=
  let q := num / den
  let r := num % den
  if 2 * r < den then q
  else if den < 2 * r then q + 1
  else if q % 2 = 0 then q
  else q + 1

/-- `base ^ e` for any integer `e`. -/
def ratPow (base : Nat) (e : Int) : Rat :=
  if 0 ≤ e then (Nat.pow base e.toNat : Nat) else 1 / (Nat.pow base (-e).toNat : Nat)

/-- `2 ^ e` for any integer `e`. -/
def powTwo (e : Int) : Rat := ratPow 2 e

/-- `10 ^ e` for any integer `e`. -/
def powTen (e : Int) : Rat := ratPow 10 e

/-- The whole number nearest to a non-negative rational; halfway between two, the even one. -/
def nearestWhole (q : Rat) : Nat := roundHalfEven q.num.natAbs q.den

end DeadCast

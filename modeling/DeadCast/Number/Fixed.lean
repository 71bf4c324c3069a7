import DeadCast.Number.Binary64

/-!
# Numbers with one decimal place

Durations are shown in the summary with one place behind the point.  The exact value is rounded,
and a value halfway between two tenths goes to the even one; a minus sign stays even if only zeros
are left behind it.
-/

namespace DeadCast

namespace Binary64

/-- A whole number of tenths, with its point. -/
def tenthsText (tenths : Nat) : String := Nat.repr (tenths / 10) ++ "." ++ Nat.repr (tenths % 10)

/-- The number with one place behind the point. -/
def oneDecimal : Binary64 → String
  | .finite q =>
    if q < 0 then "-" ++ tenthsText (nearestWhole (-q * 10)) else tenthsText (nearestWhole (q * 10))
  | .negativeZero => "-0.0"
  | .infinite negative => if negative then "-inf" else "inf"
  | .undefined _ => "nan"

end Binary64

end DeadCast

import DeadCast.Number.Decimal
import Mathlib.Tactic

/-!
# Which integers can be written

Digits are counted by taking them off one by one.  That comes to a comparison with a power of ten:
an integer can be written exactly if its magnitude is less than `10 ^ digitLimit`.
-/

namespace DeadCast

theorem fitsDigits_iff (k n : Nat) : fitsDigits k n = true ↔ n < 10 ^ k := by
  induction k generalizing n with
  | zero =>
    cases n with
    | zero => simp [fitsDigits]
    | succ m => simp [fitsDigits]
  | succ k ih =>
    cases n with
    | zero => simp [fitsDigits]
    | succ m =>
      rw [fitsDigits, ih, Nat.div_lt_iff_lt_mul (by decide), pow_succ]
      simp

theorem isWritable_iff (n : Int) : isWritable n = true ↔ n.natAbs < 10 ^ digitLimit :=
  fitsDigits_iff digitLimit n.natAbs

end DeadCast

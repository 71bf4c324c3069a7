import DeadCast.IntervalSet.Basic
import DeadCast.Number.Ascending

/-!
# Taking single integers out of a set

`IntervalSet.exclude` removes finitely many integers.  Each interval is carved from left to right:
a hole inside it closes the piece before it and opens the next piece behind it.  If nothing is left
at all the answer is the flaw `empty`.
-/

namespace DeadCast

/-- The interval from `lo` to `hi` as a list: none if the edges are inverted. -/
def pieceBetween (lo : Lower) (hi : Upper) : List Interval :=
  if h : lo.Below hi then [⟨lo, hi, h⟩] else []

/-- What is left of the interval from `lo` to `hi` without the given holes, which are ascending. -/
def carve (hi : Upper) (lo : Lower) : List Int → List Interval
  | [] => pieceBetween lo hi
  | p :: holes =>
    if lo.Admits p ∧ hi.Admits p then
      pieceBetween lo (.limit (p - 1)) ++ carve hi (.limit (p + 1)) holes
    else
      carve hi lo holes

/-- What is left of an interval without the given holes, which are ascending. -/
def Interval.without (i : Interval) (holes : List Int) : List Interval := carve i.hi i.lo holes

/-- The set without the given integers, or the flaw `empty` if none is left. -/
def IntervalSet.exclude (r : IntervalSet) (points : List Int) :
    Except IntervalSet.Flaw IntervalSet :=
  IntervalSet.ofParts (r.parts.flatMap (·.without (ascending points)))

end DeadCast

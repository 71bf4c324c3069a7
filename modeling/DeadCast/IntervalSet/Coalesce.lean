import DeadCast.IntervalSet.Basic

/-!
# The canonical union of a list of intervals

`IntervalSet.normalize` takes intervals in any order, overlapping or not, and gives the one
interval set that covers the same integers and leaves a gap between neighbours.  It sorts by lower
edge and then joins from left to right.

The joining is written for any kind of piece that covers an interval, because a collaborator may
hand over whole sets among the intervals: such a piece joins its neighbours by its hull.
-/

namespace DeadCast

section Coalesce

variable {α : Type}

/-- Joins the pieces that follow `current`, a list sorted by lower edge, as long as they touch it;
the first that does not starts the next group.  `hull` is the interval that a piece covers, and a
joined group is made a piece again by `ofHull`. -/
def coalesceFrom (hull : α → Interval) (ofHull : Interval → α) (current : α) : List α → List α
  | [] => [current]
  | next :: rest =>
    if (hull current).touches (hull next) then
      coalesceFrom hull ofHull (ofHull ((hull current).join (hull next))) rest
    else
      current :: coalesceFrom hull ofHull next rest

/-- Joins all pieces that touch, in a list sorted by lower edge. -/
def coalesce (hull : α → Interval) (ofHull : Interval → α) : List α → List α
  | [] => []
  | first :: rest => coalesceFrom hull ofHull first rest

/-- Sorts pieces by the lower edge of their hull; equal ones keep their order. -/
def sortByLower (hull : α → Interval) (pieces : List α) : List α :=
  pieces.mergeSort fun a b => (hull a).lo.le (hull b).lo

end Coalesce

/-- The canonical set that covers exactly the integers of the given intervals. -/
def IntervalSet.normalize (parts : List Interval) : Except IntervalSet.Flaw IntervalSet :=
  IntervalSet.ofParts (coalesce id id (sortByLower id parts))

end DeadCast

import DeadCast.Datum.Use
import DeadCast.IntervalSet.Coalesce
import DeadCast.IntervalSet.Exclude

/-!
# Range information given as values

A collaborator hands over edges, intervals and sets as values of any kind.  The functions of this
module admit what is well formed and report everything else: a breach of the contract is a
`RangeFault`, while asking an order of values that have none is a fault of its own.

For integers all of them agree with the operations on intervals and sets.
-/

namespace DeadCast

/-! ## Intervals -/

namespace Interval

/-- Admits a value as a lower edge. -/
def lowerOf : Datum → Except RangeFault Lower
  | .int n => .ok (.limit n)
  | .belowAll => .ok .unbounded
  | d => .error (.lowerEdge d)

/-- Admits a value as an upper edge. -/
def upperOf : Datum → Except RangeFault Upper
  | .int n => .ok (.limit n)
  | .aboveAll => .ok .unbounded
  | d => .error (.upperEdge d)

/-- The interval between two edges, or the fault that they are inverted. -/
def between : Lower → Upper → Except RangeFault Interval
  | .limit a, .limit b =>
    if h : a ≤ b then .ok ⟨.limit a, .limit b, h⟩ else .error (.inverted a b)
  | .unbounded, hi => .ok ⟨.unbounded, hi, by cases hi <;> exact trivial⟩
  | .limit a, .unbounded => .ok ⟨.limit a, .unbounded, trivial⟩

/-- Admits two values as the edges of an interval. -/
def ofData (lo hi : Datum) : Except RangeFault Interval := do
  between (← lowerOf lo) (← upperOf hi)

/-- Does the interval hold a value?  The upper edge is compared only if the lower edge admits
it. -/
def holds (i : Interval) (d : Datum) : Except Fault Bool := do
  if ← Datum.compare .atMost (.ofLower i.lo) d then
    Datum.compare .atMost d (.ofUpper i.hi)
  else
    return false

end Interval

/-! ## Sets -/

namespace IntervalSet

/-- A flaw of a list of intervals, reported. -/
def reported (r : Except Flaw IntervalSet) : Except Fault IntervalSet :=
  r.mapError fun flaw => (RangeFault.ofFlaw flaw).raised

/-- Admits a value as an interval of a set. -/
def memberOf : Datum → Except Fault Interval
  | .interval i => .ok i
  | d => .error (RangeFault.notInterval d).raised

/-- Admits a list of values as the intervals of a set. -/
def ofMembers (members : List Datum) : Except Fault IntervalSet := do
  if members.isEmpty then throw RangeFault.empty.raised
  reported (ofParts (← members.mapM memberOf))

/-- Admits the items of a value as the intervals of a set. -/
def ofData (d : Datum) : Except Fault IntervalSet := do ofMembers (← d.items)

/-- Admits two values as the edges of a set that is one interval. -/
def betweenData (lo hi : Datum) : Except Fault IntervalSet :=
  ((Interval.ofData lo hi).map ofInterval).mapError RangeFault.raised

/-- A value that covers an interval, and the interval that it covers. -/
abbrev Piece := Datum × Interval

/-- What an interval or a set covers. -/
def pieceOf : Datum → Except Fault Piece
  | .interval i => .ok (.interval i, i)
  | .ranges r => .ok (.ranges r, r.hull)
  | d => .error (.noAttribute d.kind "lo")

/-- The canonical union of the items of a value.  A set among them joins its neighbours by its
hull, but cannot stand alone. -/
def normalizeData (d : Datum) : Except Fault IntervalSet := do
  let pieces ← (← d.items).mapM pieceOf
  let joined := coalesce Prod.snd (fun i => (.interval i, i)) (sortByLower Prod.snd pieces)
  ofMembers (joined.map Prod.fst)

/-- Does the set hold a value? -/
def holds (r : IntervalSet) (d : Datum) : Except Fault Bool := r.parts.anyM (·.holds d)

/-! ## Holes of any kind -/

/-- Carves holes that need not be integers out of the interval `i`, from the edge `lo` on. -/
def carveData (i : Interval) (lo : Datum) : List Datum → Except Fault (List Interval)
  | [] => do
    let isOpen := i.hi == .unbounded
    if isOpen || (← Datum.compare .atMost lo (.ofUpper i.hi)) then
      return [← (Interval.ofData lo (.ofUpper i.hi)).mapError RangeFault.raised]
    else
      return []
  | p :: holes => do
    if !(← i.holds p) || (← Datum.compare .less p lo) then
      carveData i lo holes
    else
      let before ← p.predecessor
      let fits ← match lo with
        | .belowAll => pure true
        | _ => Datum.compare .atMost lo before
      let piece ← if fits then
          (Interval.ofData lo before).mapError RangeFault.raised |>.map fun part => [part]
        else
          pure []
      return piece ++ (← carveData i (← p.successor) holes)

/-- The set without the items of a value, which are sorted first and taken once each. -/
def excludeData (r : IntervalSet) (points : Datum) : Except Fault IntervalSet := do
  let holes ← Datum.sort (← Datum.distinct (← points.items))
  let parts ← r.parts.mapM fun i => carveData i (.ofLower i.lo) holes
  reported (ofParts parts.flatten)

end IntervalSet

end DeadCast

import DeadCast.Datum.Ranges

/-!
# The verdict on one cast

A cast is dead if no value that its operand may still take is the value of an enumerator.
`Verdict.decide` answers that for an ascending list of enumerator values and a set of operand
values.  Each interval costs one binary search: the first enumerator value that is not below the
interval is looked up, and the interval is hit if that value is not above it.

The same search also runs over values of any kind (`Verdict.decideData`), where a comparison may be
a fault; it is written once, for any monad.
-/

namespace DeadCast

/-- Can the cast name an enumerator? -/
inductive Verdict where
  /-- It can, or nothing is known against it. -/
  | safe
  /-- It cannot. -/
  | warn
  deriving DecidableEq, Repr

/-- The first position from `lo` on, below `hi`, whose value is not below the limit, found by
halving; `isBelow` tells on which side of the limit a position is. -/
def searchFrom {m : Type → Type} [Monad m] (isBelow : Nat → m Bool) (lo hi : Nat) : m Nat :=
  if lo < hi then do
    let mid := (lo + hi) / 2
    if ← isBelow mid then
      searchFrom isBelow (mid + 1) hi
    else
      searchFrom isBelow lo mid
  else
    pure lo
termination_by hi - lo

namespace Verdict

/-- The word for a verdict. -/
def word : Verdict → String
  | .safe => "safe"
  | .warn => "warn"

/-! ## Integers -/

/-- The first position whose value an interval's lower edge admits. -/
def firstAdmitted (values : Array Int) (lo : Lower) : Nat :=
  match lo with
  | .unbounded => 0
  | .limit a => Id.run (searchFrom (fun k => pure (values[k]?.any (· < a))) 0 values.size)

/-- Is one of the ascending values in the interval? -/
def hits (values : Array Int) (i : Interval) : Bool :=
  match values[firstAdmitted values i.lo]? with
  | some v => decide (i.hi.Admits v)
  | none => false

/-- The verdict on a cast into an enumeration with these ascending values. -/
def decide (values : List Int) (r : IntervalSet) : Verdict :=
  if r.parts.any (hits values.toArray) then .safe else .warn

/-! ## Values of any kind -/

/-- The items of a value that has a length and positions.  A set has a length only; the fault
depends on whether the first item is searched for, from `lo` on, or taken at once. -/
def positions (d : Datum) (lo : Lower) : Except Fault (Array Datum) :=
  match d with
  | .list ds => .ok ds.toArray
  | .tuple ds => .ok ds.toArray
  | .text s => .ok (Datum.characters s).toArray
  | .ranges _ =>
    .error (match lo with
      | .unbounded => .unsubscriptable d.kind
      | .limit _ => .unindexed d.kind)
  | _ => .error (.unsized d.kind)

/-- Is one of the values in the interval? -/
def hitsData (values : Array Datum) (i : Interval) : Except Fault Bool := do
  let k ← match i.lo with
    | .unbounded => pure 0
    | .limit a =>
      searchFrom (fun k => match values[k]? with
        | some v => Datum.compare .less v (.int a)
        | none => pure false) 0 values.size
  match values[k]? with
  | some v => Datum.compare .atMost v (.ofUpper i.hi)
  | none => return false

/-- The verdict for values and ranges of any kind.  Values that count as false are no enumerators
at all. -/
def decideData (values ranges : Datum) : Except Fault Verdict := do
  match ranges with
  | .ranges r =>
    if values.isTrue then
      let items ← positions values r.lo
      if ← r.parts.anyM (hitsData items) then return .safe else return .warn
    else
      return .warn
  | d => throw (RangeFault.notRanges d).raised

end Verdict

end DeadCast

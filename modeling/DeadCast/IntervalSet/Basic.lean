import DeadCast.Interval.Basic

/-!
# Sets of integers as unions of intervals

An `IntervalSet` is a non-empty list of intervals, each of which ends below the start of the next.
It is never empty: an empty set of values would mean that the path it describes cannot be taken,
and that is a fault of whoever reported it, not a value.

* `IntervalSet.misordered` finds the first two neighbours that break the order; the type keeps the
  proof that there are none.
* `IntervalSet.ofParts` admits a list of intervals or names its `Flaw`.
* `n ∈ r` is membership in one of the intervals; `IntervalSet.contains` is its boolean form.
-/

namespace DeadCast

/-- The first two neighbours of a list of which the left one does not end below the right one. -/
def misordered : List Interval → Option (Interval × Interval)
  | a :: b :: rest => if a.Before b then misordered (b :: rest) else some (a, b)
  | _ => none

/-- A non-empty union of intervals that are disjoint and in ascending order. -/
structure IntervalSet where
  parts : List Interval
  nonempty : parts ≠ []
  ordered : misordered parts = none
  deriving DecidableEq, Repr

namespace IntervalSet

/-- Why a list of intervals is not an interval set. -/
inductive Flaw where
  /-- There is no interval at all. -/
  | empty
  /-- Two neighbours overlap or stand in the wrong order. -/
  | misordered (a b : Interval)
  deriving DecidableEq, Repr

/-- Admits a list of intervals as a set, or says what is wrong with it. -/
def ofParts (parts : List Interval) : Except Flaw IntervalSet :=
  match parts with
  | [] => .error .empty
  | a :: rest =>
    match h : DeadCast.misordered (a :: rest) with
    | some (b, c) => .error (.misordered b c)
    | none => .ok ⟨a :: rest, List.cons_ne_nil a rest, h⟩

/-- The set that is a single interval. -/
def ofInterval (i : Interval) : IntervalSet := ⟨[i], List.cons_ne_nil i [], rfl⟩

/-- The set of one integer. -/
def point (n : Int) : IntervalSet := ofInterval (.point n)

/-- The set of all integers. -/
def full : IntervalSet := ofInterval .full

instance : Membership Int IntervalSet where
  mem r n := ∃ i ∈ r.parts, n ∈ i

instance (n : Int) (r : IntervalSet) : Decidable (n ∈ r) :=
  inferInstanceAs (Decidable (∃ i ∈ r.parts, n ∈ i))

/-- Membership as a boolean. -/
def contains (r : IntervalSet) (n : Int) : Bool := r.parts.any (·.contains n)

/-- The lower edge of the first interval. -/
def lo (r : IntervalSet) : Lower := (r.parts.head r.nonempty).lo

/-- The upper edge of the last interval. -/
def hi (r : IntervalSet) : Upper := (r.parts.getLast r.nonempty).hi

/-- An edge left of an interval is left of every edge that the interval after it is left of. -/
theorem below_of_before {a b : Interval} {u : Upper} (hab : a.Before b) (hb : b.lo.Below u) :
    a.lo.Below u := by
  obtain ⟨alo, ahi, ha⟩ := a
  obtain ⟨blo, bhi, _⟩ := b
  cases alo with
  | unbounded => cases u <;> exact trivial
  | limit x =>
    cases ahi with
    | unbounded => exact hab.elim
    | limit h =>
      cases blo with
      | unbounded => exact hab.elim
      | limit l =>
        cases u with
        | unbounded => exact trivial
        | limit v =>
          have hx : x ≤ h := ha
          have hl : h < l := hab
          have hv : l ≤ v := hb
          exact Int.le_trans hx (Int.le_trans (Int.le_of_lt hl) hv)

/-- In an ordered list the first lower edge does not pass the last upper edge. -/
theorem head_below_last (a : Interval) (rest : List Interval)
    (h : DeadCast.misordered (a :: rest) = none) :
    a.lo.Below ((a :: rest).getLast (List.cons_ne_nil a rest)).hi := by
  induction rest generalizing a with
  | nil => exact a.ordered
  | cons b rest ih =>
    unfold DeadCast.misordered at h
    split at h
    · rename_i hab
      rw [List.getLast_cons (List.cons_ne_nil b rest)]
      exact below_of_before hab (ih b h)
    · cases h

/-- The least interval that covers the set. -/
def hull (r : IntervalSet) : Interval where
  lo := r.lo
  hi := r.hi
  ordered := by
    obtain ⟨parts, hne, hord⟩ := r
    cases parts with
    | nil => exact absurd rfl hne
    | cons a rest => exact head_below_last a rest hord

/-- Is the set the single interval of all integers? -/
def isFull (r : IntervalSet) : Bool :=
  match r.parts with
  | [i] => i.isFull
  | _ => false

/-- May all edges be written? -/
def isWritable (r : IntervalSet) : Bool := r.parts.all Interval.isWritable

/-- The union in mathematical notation, such as `[0, 1] ∪ [3, +∞]`. -/
def text (r : IntervalSet) : String := " ∪ ".intercalate (r.parts.map Interval.text)

end IntervalSet

end DeadCast

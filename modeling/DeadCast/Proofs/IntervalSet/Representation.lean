import DeadCast.Dump.Ranges
import DeadCast.Proofs.IntervalSet.Coalesce
import DeadCast.Proofs.IntervalSet.Difference
import Mathlib.Tactic

/-!
# What a set of intervals looks like

A list of intervals is admitted as a set after its neighbours were compared, the end of each with
the start of the next.  That is enough to know the order of *all* pairs, because every interval
between two others holds an integer (`IntervalSet.ofData_eq_ok_iff`).

A set keeps what was checked, so whatever its origin (`IntervalSet.Obtained`) it is `Sound`: it has a
member, only its ends may be open, its edges are its least and greatest member where they are
integers, and no member is in two intervals.
-/

namespace DeadCast

namespace IntervalSet

/-! ## Which lists are sets -/

/-- All integers of an interval are less than all integers of every later one. -/
def InOrder (parts : List Interval) : Prop :=
  ∀ (j k : Nat) (a b : Interval), j < k → parts[j]? = some a → parts[k]? = some b →
    ∀ m n, a.contains m = true → b.contains n = true → m < n

theorem inOrder_iff_pairwise {parts : List Interval} :
    InOrder parts ↔ parts.Pairwise Interval.Before := by
  rw [List.pairwise_iff_getElem]
  constructor
  · intro h j k hj hk hjk
    apply Interval.before_iff.2
    intro m hm n hn
    exact h j k _ _ hjk (List.getElem?_eq_getElem hj) (List.getElem?_eq_getElem hk) m n
      (Interval.contains_iff.2 hm) (Interval.contains_iff.2 hn)
  · intro h j k a b hjk ha hb m n hm hn
    obtain ⟨hj, rfl⟩ := List.getElem?_eq_some_iff.1 ha
    obtain ⟨hk, rfl⟩ := List.getElem?_eq_some_iff.1 hb
    exact Interval.before_iff.1 (h j k hj hk hjk) m (Interval.contains_iff.1 hm) n
      (Interval.contains_iff.1 hn)

/-- A set that is admitted consists of the intervals that were handed over. -/
theorem parts_of_ofParts {parts : List Interval} {r : IntervalSet} (h : ofParts parts = .ok r) :
    r.parts = parts := by
  unfold ofParts at h
  split at h
  · cases h
  · split at h
    · cases h
    · cases h
      rfl

/-- **Which lists are sets.**  A list of intervals is admitted exactly if it is not empty and every
pair of its intervals is in order, neighbours or not. -/
theorem ofData_eq_ok_iff {parts : List Interval} {r : IntervalSet} :
    ofData (.list (parts.map .interval)) = .ok r ↔
      parts ≠ [] ∧ InOrder parts ∧ r.parts = parts := by
  have hmembers : ofData (.list (parts.map .interval)) = reported (ofParts parts) :=
    ofMembers_intervals parts
  rw [hmembers, inOrder_iff_pairwise]
  constructor
  · intro h
    have hok : ofParts parts = .ok r := by
      cases hparts : ofParts parts with
      | error flaw =>
        rw [hparts] at h
        cases h
      | ok s =>
        rw [hparts] at h
        cases h
        rfl
    have hsame := parts_of_ofParts hok
    rw [← hsame]
    exact ⟨r.nonempty, r.pairwise_parts, rfl⟩
  · rintro ⟨hne, hordered, hparts⟩
    obtain ⟨s, hs, hsame⟩ := ofParts_of_pairwise hne hordered
    rw [hs, eq_of_parts (hparts.trans hsame.symm)]
    rfl

/-! ## What every set is like -/

/-- The shape of a set: it has a member, an interval without lower edge comes first and one without
upper edge last, its members lie between its edges, edges that are integers are members, and each
member is in one interval only. -/
structure Sound (r : IntervalSet) : Prop where
  inhabited : ∃ n, r.contains n = true
  open_below : ∀ (k : Nat) (i : Interval), r.parts[k]? = some i → i.lo = .unbounded → k = 0
  open_above : ∀ (k : Nat) (i : Interval), r.parts[k]? = some i → i.hi = .unbounded →
    k + 1 = r.parts.length
  bounded : ∀ n, r.contains n = true → r.lo.Admits n ∧ r.hi.Admits n
  lo_contained : ∀ a, r.lo = .limit a → r.contains a = true
  hi_contained : ∀ b, r.hi = .limit b → r.contains b = true
  in_one : ∀ n, r.contains n = true →
    ∃! k : Nat, ∃ i : Interval, r.parts[k]? = some i ∧ i.contains n = true

section Shape

variable (r : IntervalSet)

theorem getElem?_zero : r.parts[0]? = some (r.parts.head r.nonempty) := by
  rw [← List.head?_eq_getElem?, List.head?_eq_some_head]

theorem getElem?_last :
    r.parts[r.parts.length - 1]? = some (r.parts.getLast r.nonempty) := by
  rw [← List.getLast?_eq_getElem?, List.getLast?_eq_some_getLast]

/-- Two intervals of a set at different positions are in order. -/
theorem before_of_lt {j k : Nat} (hjk : j < k) {a b : Interval} (ha : r.parts[j]? = some a)
    (hb : r.parts[k]? = some b) : a.Before b := by
  obtain ⟨hj, rfl⟩ := List.getElem?_eq_some_iff.1 ha
  obtain ⟨hk, rfl⟩ := List.getElem?_eq_some_iff.1 hb
  exact List.pairwise_iff_getElem.1 r.pairwise_parts j k hj hk hjk

/-- A member is not left of the lower edge: the first interval starts at or before every other. -/
theorem lo_admits {n : Int} (h : n ∈ r) : r.lo.Admits n := by
  obtain ⟨i, hi, hn⟩ := h
  obtain ⟨k, hk⟩ := List.mem_iff_getElem?.1 hi
  cases k with
  | zero =>
    rw [getElem?_zero, Option.some.injEq] at hk
    rw [lo, hk]
    exact hn.1
  | succ k =>
    obtain ⟨m, hm⟩ := (r.parts.head r.nonempty).exists_mem
    have hbefore := before_of_lt r (Nat.succ_pos k) (getElem?_zero r) hk
    exact hm.1.mono (Interval.before_iff.1 hbefore m hm n hn).le

/-- A member is not right of the upper edge: the last interval ends at or after every other. -/
theorem hi_admits {n : Int} (h : n ∈ r) : r.hi.Admits n := by
  obtain ⟨i, hi, hn⟩ := h
  obtain ⟨k, hk⟩ := List.mem_iff_getElem?.1 hi
  have hlt := (List.getElem?_eq_some_iff.1 hk).1
  by_cases hlast : k = r.parts.length - 1
  · rw [hlast, getElem?_last, Option.some.injEq] at hk
    rw [IntervalSet.hi, hk]
    exact hn.2
  · obtain ⟨m, hm⟩ := (r.parts.getLast r.nonempty).exists_mem
    have hbefore := before_of_lt r (by omega) hk (getElem?_last r)
    exact hm.2.mono (Interval.before_iff.1 hbefore n hn m hm).le

/-- No member is in two intervals. -/
theorem existsUnique_position {n : Int} (h : n ∈ r) :
    ∃! k : Nat, ∃ i : Interval, r.parts[k]? = some i ∧ n ∈ i := by
  obtain ⟨i, hi, hn⟩ := h
  obtain ⟨k, hk⟩ := List.mem_iff_getElem?.1 hi
  refine ⟨k, ⟨i, hk, hn⟩, ?_⟩
  rintro j ⟨a, hj, hna⟩
  rcases lt_trichotomy j k with hlt | heq | hlt
  · exact absurd (Interval.before_iff.1 (before_of_lt r hlt hj hk) n hna n hn) (lt_irrefl n)
  · exact heq
  · exact absurd (Interval.before_iff.1 (before_of_lt r hlt hk hj) n hn n hna) (lt_irrefl n)

end Shape

/-- **Every set is sound.**  Nothing is used but the order of its intervals. -/
theorem sound (r : IntervalSet) : r.Sound where
  inhabited := by
    obtain ⟨n, hn⟩ := r.exists_mem
    exact ⟨n, contains_iff.2 hn⟩
  open_below := by
    intro k i hi hopen
    by_contra hk
    -- the first interval would end below an edge that is missing
    have hbefore := before_of_lt r (Nat.pos_of_ne_zero hk) (getElem?_zero r) hi
    simp [Interval.Before, hopen] at hbefore
  open_above := by
    intro k i hi hopen
    by_contra hk
    have hlt := (List.getElem?_eq_some_iff.1 hi).1
    have hbefore := before_of_lt r (by omega) hi (getElem?_last r)
    simp [Interval.Before, hopen] at hbefore
  bounded := by
    intro n hn
    rw [contains_iff] at hn
    exact ⟨lo_admits r hn, hi_admits r hn⟩
  lo_contained := by
    intro a ha
    exact contains_iff.2 ⟨_, List.head_mem r.nonempty, Interval.lo_mem ha⟩
  hi_contained := by
    intro b hb
    exact contains_iff.2 ⟨_, List.getLast_mem r.nonempty, Interval.hi_mem hb⟩
  in_one := by
    intro n hn
    simpa only [Interval.contains_iff] using existsUnique_position r (contains_iff.1 hn)

/-! ## Where sets come from -/

/-- The sets that the constructors, the operations on sets and the query for the range of an operand
give, one after another in any order.  What they are given is any value: a list of intervals, or the
intervals of a set that was made before. -/
inductive Obtained : IntervalSet → Prop
  | new {members : Datum} {r : IntervalSet} (h : ofData members = .ok r) : Obtained r
  | normalized {members : Datum} {r : IntervalSet} (h : normalizeData members = .ok r) : Obtained r
  | full : Obtained full
  | point (n : Int) : Obtained (point n)
  | between {lo hi : Datum} {r : IntervalSet} (h : betweenData lo hi = .ok r) : Obtained r
  | excluding {r s : IntervalSet} {points : Datum} (given : Obtained r)
      (h : r.excludeData points = .ok s) : Obtained s
  | rangeOf {operand : Option Token} {path : Datum} {r : IntervalSet}
      (h : Token.rangeOf operand path = .ok (.ranges r)) : Obtained r

/-- **The representation of a set.**  A list of intervals is admitted as a set, unchanged, exactly if
it is not empty and all integers of each interval are less than all integers of every later one, not
only of the next.  And a set is sound in whatever way it was obtained: each way ends in the check of
a list or in a single interval, and a set keeps what was checked. -/
theorem representation_sound :
    (∀ parts : List Interval, (∃ r, ofData (.list (parts.map .interval)) = .ok r) ↔
      parts ≠ [] ∧ InOrder parts) ∧
    (∀ (parts : List Interval) (r : IntervalSet), ofData (.list (parts.map .interval)) = .ok r →
      r.parts = parts) ∧
    ∀ r, Obtained r → r.Sound := by
  refine ⟨fun parts => ⟨?_, ?_⟩, ?_, fun r _ => sound r⟩
  · rintro ⟨r, hr⟩
    obtain ⟨hne, hordered, -⟩ := ofData_eq_ok_iff.1 hr
    exact ⟨hne, hordered⟩
  · rintro ⟨hne, hordered⟩
    obtain ⟨r, -, hparts⟩ := ofParts_of_pairwise hne (inOrder_iff_pairwise.1 hordered)
    exact ⟨r, ofData_eq_ok_iff.2 ⟨hne, hordered, hparts⟩⟩
  · intro parts r hr
    exact (ofData_eq_ok_iff.1 hr).2.2

/-- Two holes in the full set leave three intervals, of which the outer ones are open; and intervals of
which the last overlaps the first are no set. -/
theorem representation_sound_twoHoles :
    let r : IntervalSet :=
      ⟨[⟨.unbounded, .limit (-1), by decide⟩, ⟨.limit 1, .limit 4, by decide⟩,
        ⟨.limit 6, .unbounded, by decide⟩], by decide, by decide⟩
    let mixed : List Interval :=
      [⟨.limit 0, .limit 9, by decide⟩, ⟨.limit 12, .limit 15, by decide⟩, .point 9]
    full.excludeData (.list [.int 5, .int 0]) = .ok r ∧ Obtained r ∧ r.Sound ∧
      ofData (.list (r.parts.map .interval)) = .ok r ∧
      ¬ ∃ s, ofData (.list (mixed.map .interval)) = .ok s := by
  intro r mixed
  have hholes : full.excludeData (.list [.int 5, .int 0]) = .ok r := by
    have hitems : (Datum.list [.int 5, .int 0]).items = .ok (([5, 0] : List Int).map .int) := rfl
    rw [excludeData_integers full hitems]
    rfl
  have hobtained : Obtained r := .excluding .full hholes
  have hagain : ofData (.list (r.parts.map .interval)) = .ok r := rfl
  obtain ⟨hset, -, hsound⟩ := representation_sound
  refine ⟨hholes, hobtained, hsound r hobtained, hagain, ?_⟩
  rw [hset]
  rintro ⟨-, hordered⟩
  have hless := hordered 0 2 _ _ (by decide) rfl rfl 9 9 (by decide) (by decide)
  exact absurd hless (by decide)

end IntervalSet

end DeadCast

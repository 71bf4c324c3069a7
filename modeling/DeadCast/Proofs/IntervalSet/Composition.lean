import DeadCast.Proofs.IntervalSet.Difference
import Mathlib.Tactic

/-!
# Taking integers out in several steps

Integers may be taken out of a set all at once, in batches or one at a time.  The answers are equal
interval by interval, and not only as sets of integers, although neighbours of the given set may
touch (`IntervalSet.exclude_batches`).

Touching neighbours are no obstacle because each interval is carved by itself.  The pieces of one
interval have a gap between them, however often it is carved, and a list with gaps is known by what
it covers (`Interval.eq_without`).  So no two runs of the loop over the holes have to be compared.
Pieces of different intervals are never joined, and that is the same on both sides.
-/

namespace DeadCast

/-! ## One interval -/

namespace Interval

/-- What is left of an interval has gaps. -/
theorem without_pairwise (i : Interval) (points : List Int) :
    (i.without (ascending points)).Pairwise Apart :=
  carve_pairwise (ascending_pairwise points) i.lo

theorem covers_without {i : Interval} {points : List Int} {n : Int} :
    Covers (i.without (ascending points)) n ↔ n ∈ i ∧ n ∉ points := by
  rw [Covers, mem_without (ascending_pairwise points), mem_ascending]

/-- A list with gaps that covers what is left of an interval consists of the pieces of it. -/
theorem eq_without {i : Interval} {points : List Int} {parts : List Interval}
    (hgaps : parts.Pairwise Apart) (h : ∀ n, Covers parts n ↔ n ∈ i ∧ n ∉ points) :
    parts = i.without (ascending points) := by
  apply eq_of_covers_iff hgaps (i.without_pairwise points)
  intro n
  rw [h, covers_without]

theorem without_nil (i : Interval) : i.without (ascending []) = [i] := by
  symm
  apply eq_without (List.pairwise_singleton Apart i)
  intro n
  simp [Covers]

/-- **Holes in one interval compose.**  Some of the pieces may vanish in the second round only. -/
theorem flatMap_without_without (i : Interval) (as bs : List Int) :
    (i.without (ascending as)).flatMap (·.without (ascending bs)) =
      i.without (ascending (as ++ bs)) := by
  apply eq_without
  · exact IntervalSet.flatMap_without_pairwise Apart.mono id (i.without_pairwise as) bs
  · intro n
    rw [Covers, IntervalSet.mem_flatMap_without, ← Covers, covers_without, List.mem_append]
    tauto

/-- The order of the holes does not count, nor how often one is named. -/
theorem without_congr (i : Interval) {as bs : List Int} (h : ∀ n, n ∈ as ↔ n ∈ bs) :
    i.without (ascending as) = i.without (ascending bs) := by
  apply eq_without (i.without_pairwise as)
  intro n
  rw [covers_without, h]

end Interval

/-- The value is a collection of these integers, in this order. -/
def Datum.Collects (d : Datum) (points : List Int) : Prop := d.items = .ok (points.map .int)

/-! ## A set -/

namespace IntervalSet

variable (r : IntervalSet)

theorem exclude_nil : r.exclude [] = .ok r := by
  obtain ⟨s, hs, hparts⟩ := ofParts_of_pairwise r.nonempty r.pairwise_parts
  have hsame : r.parts.flatMap (·.without (ascending [])) = r.parts := by
    simp only [Interval.without_nil, List.flatMap_singleton']
  rw [exclude, hsame, hs, eq_of_parts hparts]

theorem exclude_congr {as bs : List Int} (h : ∀ n, n ∈ as ↔ n ∈ bs) :
    r.exclude as = r.exclude bs := by
  simp only [exclude, Interval.without_congr _ h]

/-- **Taking out composes.**  If nothing is left after the first step, then nothing is left in the
end, and that is the same fault. -/
theorem exclude_append (as bs : List Int) :
    r.exclude (as ++ bs) = (r.exclude as).bind (·.exclude bs) := by
  have hparts : r.parts.flatMap (·.without (ascending (as ++ bs))) =
      (r.parts.flatMap (·.without (ascending as))).flatMap (·.without (ascending bs)) := by
    simp only [List.flatMap_assoc, Interval.flatMap_without_without]
  by_cases hne : r.parts.flatMap (·.without (ascending as)) = []
  · rw [exclude, hparts, exclude, hne]
    rfl
  · obtain ⟨s, hs, hsparts⟩ := ofParts_flatMap_without r hne
    rw [exclude, hparts, hs, ← hsparts]
    rfl

/-! ## Collections of values -/

/-- Takes out what is in the collections, one collection after the other. -/
def excludeEach (r : IntervalSet) (batches : List Datum) : Except Fault IntervalSet :=
  batches.foldlM excludeData r

theorem excludeEach_cons (d : Datum) (batches : List Datum) :
    r.excludeEach (d :: batches) = (r.excludeData d).bind (·.excludeEach batches) :=
  List.foldlM_cons

/-- **Batches.**  Taking them out one after the other is taking out all of their integers. -/
theorem excludeEach_eq {batches : List Datum} {points : List (List Int)}
    (h : List.Forall₂ Datum.Collects batches points) :
    r.excludeEach batches = reported (r.exclude points.flatten) := by
  induction h generalizing r with
  | nil =>
    rw [List.flatten_nil, exclude_nil]
    rfl
  | @cons d ps batches points hd hrest ih =>
    rw [excludeEach_cons, excludeData_integers r hd, List.flatten_cons, exclude_append]
    cases r.exclude ps with
    | error flaw => rfl
    | ok s => exact ih s

/-- All at once is one step after the other, whatever comes of it. -/
theorem excludeData_append {d e both : Datum} {as bs : List Int} (hd : d.Collects as)
    (he : e.Collects bs) (hboth : both.Collects (as ++ bs)) :
    r.excludeData both = (r.excludeData d).bind (·.excludeData e) := by
  rw [excludeData_integers r hboth, exclude_append, excludeData_integers r hd]
  cases r.exclude as with
  | error flaw => rfl
  | ok t => exact (excludeData_integers t he).symm

/-- **Taking out in steps.**  Two collections of integers, and one that has the integers of both, are
taken out of a set whose neighbours may touch.

If all can be taken out at once, then the first collection can be taken out, and the second out of the
rest, and the answer is the same set, interval by interval.  If all at once is a range fault, then one
of the two steps is.  Two sequences of collections, of one integer or of many, in any order and with
repetitions, give the same set or the same fault if the same integers are in them.  And without any
integer the set is unchanged. -/
theorem exclude_batches {d e both : Datum} {as bs : List Int} (hd : d.Collects as)
    (he : e.Collects bs) (hboth : both.Collects (as ++ bs)) :
    (∀ s, r.excludeData both = .ok s →
      ∃ t, r.excludeData d = .ok t ∧ t.excludeData e = .ok s) ∧
    (∀ f, r.excludeData both = .error (.range f) →
      r.excludeData d = .error (.range f) ∨
        ∃ t, r.excludeData d = .ok t ∧ t.excludeData e = .error (.range f)) ∧
    (∀ (xs ys : List Datum) (ps qs : List (List Int)), List.Forall₂ Datum.Collects xs ps →
      List.Forall₂ Datum.Collects ys qs → (∀ n, n ∈ ps.flatten ↔ n ∈ qs.flatten) →
        r.excludeEach xs = r.excludeEach ys) ∧
    ∀ empty : Datum, empty.Collects [] → r.excludeData empty = .ok r := by
  rw [excludeData_append r hd he hboth]
  refine ⟨?_, ?_, ?_, ?_⟩
  · intro s hs
    cases hfirst : r.excludeData d with
    | error f => rw [hfirst] at hs; cases hs
    | ok t =>
      rw [hfirst] at hs
      exact ⟨t, rfl, hs⟩
  · intro f hf
    cases hfirst : r.excludeData d with
    | error g =>
      rw [hfirst] at hf
      exact Or.inl hf
    | ok t =>
      rw [hfirst] at hf
      exact Or.inr ⟨t, rfl, hf⟩
  · intro xs ys ps qs hx hy hsame
    rw [excludeEach_eq r hx, excludeEach_eq r hy, exclude_congr r hsame]
  · intro empty hempty
    rw [excludeData_integers r hempty, exclude_nil]
    rfl

/-- Out of `[0, 3] ∪ [4, 9]`, whose intervals touch: two holes and then two more, of which one is there
already; all at once; or one at a time from the right.  The intervals `[3, 3]` and `[4, 4]` are not
joined.  And out of `[4, 5]` the second step takes what the first one left. -/
theorem exclude_batches_touching :
    let r : IntervalSet :=
      ⟨[⟨.limit 0, .limit 3, by decide⟩, ⟨.limit 4, .limit 9, by decide⟩], by decide, by decide⟩
    let pair : IntervalSet := .ofInterval ⟨.limit 4, .limit 5, by decide⟩
    let s : IntervalSet :=
      ⟨[⟨.limit 0, .limit 1, by decide⟩, .point 3, .point 4, .point 6, ⟨.limit 8, .limit 9, by decide⟩],
        by decide, by decide⟩
    let d : Datum := .tuple [.int 5, .int 2]
    let e : Datum := .list [.int 5, .int 7]
    let both : Datum := .list [.int 5, .int 2, .int 5, .int 7]
    d.Collects [5, 2] ∧ e.Collects [5, 7] ∧ both.Collects [5, 2, 5, 7] ∧
      (∃ t, r.excludeData d = .ok t ∧ t.excludeData e = .ok s) ∧
      r.excludeEach [.list [.int 7], .tuple [.int 5], .list [.int 2]] = r.excludeEach [both] ∧
      r.excludeData (.list []) = .ok r ∧
      ∃ t, pair.excludeData (.list [.int 4]) = .ok t ∧
        t.excludeData (.list [.int 5]) = .error (.range .empty) := by
  intro r pair s d e both
  have hd : d.Collects [5, 2] := rfl
  have he : e.Collects [5, 7] := rfl
  have hboth : both.Collects [5, 2, 5, 7] := rfl
  obtain ⟨hok, -, hbatches, hunchanged⟩ := exclude_batches r hd he hboth
  have hs : r.excludeData both = .ok s := by
    rw [excludeData_integers r hboth]
    rfl
  refine ⟨hd, he, hboth, hok s hs, ?_, hunchanged (.list []) rfl, ?_⟩
  · apply hbatches _ _ [[7], [5], [2]] [[5, 2, 5, 7]]
    · exact .cons rfl (.cons rfl (.cons rfl .nil))
    · exact .cons hboth .nil
    · intro n
      simp
      tauto
  · have hfour : (Datum.list [.int 4]).Collects [4] := rfl
    have hfive : (Datum.list [.int 5]).Collects [5] := rfl
    have hpair : (Datum.list [.int 4, .int 5]).Collects ([4] ++ [5]) := rfl
    have hempty : pair.excludeData (.list [.int 4, .int 5]) = .error (.range .empty) := by
      rw [excludeData_integers pair hpair]
      rfl
    rcases (exclude_batches pair hfour hfive hpair).2.1 .empty hempty with hfirst | hsecond
    · rw [excludeData_integers pair hfour] at hfirst
      cases hfirst
    · exact hsecond

end IntervalSet

end DeadCast

import DeadCast.IntervalSet.Exclude
import DeadCast.Proofs.Interval.Membership
import DeadCast.Proofs.Number.Ascending
import Mathlib.Tactic

/-!
# Taking integers out of a set is exact

Carving an interval leaves exactly its integers that are no holes (`mem_carve`), in pieces that
stand in order (`carve_pairwise`).  A set is carved interval by interval, so the same holds of it,
and `IntervalSet.exclude_spec` says all that its users need: either the answer holds exactly what
is left, or nothing is left and that is the fault.  In particular the pieces never come out
misordered.
-/

namespace DeadCast

/-! ## Carving one interval -/

theorem mem_pieceBetween {lo : Lower} {hi : Upper} {n : Int} :
    (∃ i ∈ pieceBetween lo hi, n ∈ i) ↔ lo.Admits n ∧ hi.Admits n := by
  unfold pieceBetween
  split
  · simp [Interval.mem_iff]
  · rename_i h
    simp only [List.not_mem_nil, false_and, exists_false, false_iff]
    intro hn
    exact h (Lower.below_iff.2 ⟨n, hn⟩)

theorem pieceBetween_pairwise (lo : Lower) (hi : Upper) :
    (pieceBetween lo hi).Pairwise Interval.Apart := by
  unfold pieceBetween
  split <;> simp

/-- **Carving is exact.**  The pieces hold the integers between the edges that are no holes. -/
theorem mem_carve {hi : Upper} {holes : List Int} (hasc : holes.Pairwise (· < ·)) {lo : Lower}
    {n : Int} : (∃ i ∈ carve hi lo holes, n ∈ i) ↔ lo.Admits n ∧ hi.Admits n ∧ n ∉ holes := by
  induction holes generalizing lo with
  | nil => simp [carve, mem_pieceBetween]
  | cons p rest ih =>
    obtain ⟨hp, hrest⟩ := List.pairwise_cons.1 hasc
    unfold carve
    split
    · rename_i hin
      simp only [List.mem_append, or_and_right, exists_or, mem_pieceBetween, ih hrest,
        Upper.admits_limit, Lower.admits_limit, List.mem_cons, not_or]
      constructor
      · rintro (⟨hlo, hn⟩ | ⟨hn, hhi, hnot⟩)
        · -- left of the hole: all further holes are to the right of `p`
          refine ⟨hlo, hin.2.mono (by omega), by omega, ?_⟩
          intro hmem
          have := hp n hmem
          omega
        · exact ⟨hin.1.mono (by omega), hhi, by omega, hnot⟩
      · rintro ⟨hlo, hhi, hne, hnot⟩
        by_cases hlt : n < p
        · exact Or.inl ⟨hlo, by omega⟩
        · exact Or.inr ⟨by omega, hhi, hnot⟩
    · rename_i hout
      rw [ih hrest, List.mem_cons, not_or]
      constructor
      · rintro ⟨hlo, hhi, hnot⟩
        refine ⟨hlo, hhi, ?_, hnot⟩
        rintro rfl
        exact hout ⟨hlo, hhi⟩
      · rintro ⟨hlo, hhi, -, hnot⟩
        exact ⟨hlo, hhi, hnot⟩

/-- The pieces come out from left to right, each a hole apart from the next. -/
theorem carve_pairwise {hi : Upper} {holes : List Int} (hasc : holes.Pairwise (· < ·))
    (lo : Lower) : (carve hi lo holes).Pairwise Interval.Apart := by
  induction holes generalizing lo with
  | nil => exact pieceBetween_pairwise lo hi
  | cons p rest ih =>
    have hrest := (List.pairwise_cons.1 hasc).2
    unfold carve
    split
    · refine List.pairwise_append.2 ⟨pieceBetween_pairwise _ _, ih hrest _, ?_⟩
      intro a ha b hb
      -- the hole `p` lies between the first piece and all others
      rw [Interval.apart_iff]
      intro m hm n hn
      have hmp := (mem_pieceBetween.1 ⟨a, ha, hm⟩).2
      have hpn := ((mem_carve hrest).1 ⟨b, hb, hn⟩).1
      rw [Upper.admits_limit] at hmp
      rw [Lower.admits_limit] at hpn
      omega
    · exact ih hrest lo

namespace Interval

theorem mem_without {i : Interval} {holes : List Int} (hasc : holes.Pairwise (· < ·)) {n : Int} :
    (∃ j ∈ i.without holes, n ∈ j) ↔ n ∈ i ∧ n ∉ holes := by
  rw [without, mem_carve hasc, mem_iff, and_assoc]

end Interval

/-! ## Carving a set -/

namespace IntervalSet

theorem mem_flatMap_without {parts : List Interval} {points : List Int} {n : Int} :
    (∃ j ∈ parts.flatMap (·.without (ascending points)), n ∈ j) ↔
      (∃ i ∈ parts, n ∈ i) ∧ n ∉ points := by
  have hasc := ascending_pairwise points
  constructor
  · rintro ⟨j, hj, hn⟩
    obtain ⟨i, hi, hji⟩ := List.mem_flatMap.1 hj
    obtain ⟨hni, hnot⟩ := (Interval.mem_without hasc).1 ⟨j, hji, hn⟩
    exact ⟨⟨i, hi, hni⟩, by simpa using hnot⟩
  · rintro ⟨⟨i, hi, hni⟩, hnot⟩
    obtain ⟨j, hji, hn⟩ := (Interval.mem_without hasc).2 ⟨hni, by simpa using hnot⟩
    exact ⟨j, List.mem_flatMap.2 ⟨i, hi, hji⟩, hn⟩

/-- Pieces of different intervals are in the order of the intervals they come from.  This holds of
any order that goes over to parts of intervals and that holds of intervals with a gap. -/
theorem flatMap_without_pairwise {R : Interval → Interval → Prop}
    (hpart : ∀ {a b x y : Interval}, R a b → (∀ n ∈ x, n ∈ a) → (∀ n ∈ y, n ∈ b) → R x y)
    (hgap : ∀ {a b : Interval}, a.Apart b → R a b) {parts : List Interval}
    (hparts : parts.Pairwise R) (points : List Int) :
    (parts.flatMap (·.without (ascending points))).Pairwise R := by
  have hasc := ascending_pairwise points
  have hsub : ∀ {i x : Interval}, x ∈ i.without (ascending points) → ∀ n ∈ x, n ∈ i :=
    fun hx n hn => ((Interval.mem_without hasc).1 ⟨_, hx, hn⟩).1
  refine List.pairwise_flatMap.2 ⟨fun i _ => (carve_pairwise hasc i.lo).imp hgap, ?_⟩
  refine hparts.imp ?_
  intro a b hab x hx y hy
  exact hpart hab (hsub hx) (hsub hy)

theorem ofParts_flatMap_without (r : IntervalSet) {points : List Int}
    (hne : r.parts.flatMap (·.without (ascending points)) ≠ []) :
    ∃ s, r.exclude points = .ok s ∧ s.parts = r.parts.flatMap (·.without (ascending points)) :=
  ofParts_of_pairwise hne
    (flatMap_without_pairwise Interval.Before.mono Interval.Apart.before r.pairwise_parts points)

/-- **Exclusion is exact.**  Either the answer holds what the set holds without the points, or the
points cover the whole set and the answer is the fault that nothing is left. -/
theorem exclude_spec (r : IntervalSet) (points : List Int) :
    (∃ s, r.exclude points = .ok s ∧ ∀ n, n ∈ s ↔ n ∈ r ∧ n ∉ points) ∨
      (r.exclude points = .error .empty ∧ ∀ n ∈ r, n ∈ points) := by
  by_cases hne : r.parts.flatMap (·.without (ascending points)) = []
  · refine Or.inr ⟨by rw [exclude, hne, ofParts_nil], ?_⟩
    intro n hn
    by_contra hnot
    obtain ⟨j, hj, -⟩ := mem_flatMap_without.2 ⟨hn, hnot⟩
    rw [hne] at hj
    exact List.not_mem_nil hj
  · obtain ⟨s, hs, hparts⟩ := ofParts_flatMap_without r hne
    refine Or.inl ⟨s, hs, ?_⟩
    intro n
    rw [mem_iff, hparts, mem_flatMap_without, mem_iff]

end IntervalSet

end DeadCast

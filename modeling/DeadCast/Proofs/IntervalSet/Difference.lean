import DeadCast.Proofs.Datum.Order
import DeadCast.Proofs.IntervalSet.Canonical
import DeadCast.Proofs.Traversal
import Mathlib.Tactic

/-!
# Taking a collection of integers out of a set

`IntervalSet.exclude_spec` is about a list of integers.  What a caller hands over is a collection of
values, in any order and with repetitions.  The values are sorted, and each interval is carved by a
loop that keeps the edge up to which it has come.  The loop admits every piece it cuts like any other
pair of edges, so a piece whose edges are inverted would be a range fault.

For integers this never happens (`IntervalSet.carveData_integers`): a piece is cut only where its
edges are not inverted, because the edge that is kept moves to the right only.  So the loop gives the
pieces of `Interval.without`, and what is left of the set is exactly the difference
(`IntervalSet.excludeData_exact`).
-/

namespace DeadCast

namespace Interval

theorem lowerOf_ofLower (l : Lower) : lowerOf (.ofLower l) = .ok l := by
  cases l <;> rfl

theorem upperOf_ofUpper (u : Upper) : upperOf (.ofUpper u) = .ok u := by
  cases u <;> rfl

/-- Edges that are not inverted are admitted. -/
theorem ofData_edges {l : Lower} {u : Upper} (h : l.Below u) :
    ofData (.ofLower l) (.ofUpper u) = .ok ⟨l, u, h⟩ := by
  rw [ofData, lowerOf_ofLower, upperOf_ofUpper]
  exact between_of_below h

theorem holds_int (i : Interval) (n : Int) : i.holds (.int n) = .ok (decide (n ∈ i)) := by
  rw [holds, Datum.compare_lower_atMost, Datum.compare_atMost_upper]
  by_cases hlo : i.lo.Admits n
  · simp [hlo, bind, Except.bind, mem_iff]
  · simp [hlo, bind, Except.bind, pure, Except.pure, mem_iff]

end Interval

namespace IntervalSet

/-- What is left behind the last hole is admitted, if there is anything. -/
theorem carveData_nil (i : Interval) (lo : Lower) :
    carveData i (.ofLower lo) [] = .ok (pieceBetween lo i.hi) := by
  have hopen : ((i.hi == .unbounded) || decide (lo.Below i.hi)) = decide (lo.Below i.hi) := by
    rw [Bool.or_eq_right_iff_imp, beq_iff_eq, decide_eq_true_eq]
    intro hhi
    rw [hhi]
    cases lo <;> trivial
  unfold carveData pieceBetween
  rw [Datum.compare_lower_upper]
  simp only [bind, Except.bind, hopen, decide_eq_true_eq]
  by_cases hbelow : lo.Below i.hi
  · rw [if_pos hbelow, dif_pos hbelow, Interval.ofData_edges hbelow]
    rfl
  · rw [if_neg hbelow, dif_neg hbelow]
    rfl

/-- One round: a hole that counts closes the piece before it, which is admitted if there is
anything. -/
theorem carveData_cons (i : Interval) (lo : Lower) (p : Int) (holes : List Datum) :
    carveData i (.ofLower lo) (.int p :: holes) =
      if p ∈ i ∧ lo.Admits p then
        (carveData i (.int (p + 1)) holes).map (pieceBetween lo (.limit (p - 1)) ++ ·)
      else carveData i (.ofLower lo) holes := by
  rw [carveData, Interval.holds_int, Datum.compare_less_lower]
  simp only [bind, Except.bind, ← decide_not, ← Bool.decide_or, decide_eq_true_eq]
  by_cases hin : p ∈ i ∧ lo.Admits p
  · have hcounts : ¬ (p ∉ i ∨ ¬ lo.Admits p) := by tauto
    rw [if_pos hin, if_neg hcounts]
    simp only [Datum.predecessor, Datum.successor, pieceBetween]
    have hfits : Datum.compare .atMost (.ofLower lo) (.int (p - 1)) = _ :=
      Datum.compare_lower_upper lo (.limit (p - 1))
    by_cases hbelow : lo.Below (.limit (p - 1))
    · have hpiece : Interval.ofData (.ofLower lo) (.int (p - 1)) = _ := Interval.ofData_edges hbelow
      rw [dif_pos hbelow, hfits, hpiece, decide_eq_true hbelow]
      cases lo <;> cases carveData i (.int (p + 1)) holes <;> rfl
    · rw [dif_neg hbelow, hfits, decide_eq_false hbelow]
      cases lo with
      | unbounded => exact absurd trivial hbelow
      | limit a => cases carveData i (.int (p + 1)) holes <;> rfl
  · have hskipped : p ∉ i ∨ ¬ lo.Admits p := by tauto
    rw [if_neg hin, if_pos hskipped]

/-- **The loop cuts no inverted piece.**  It may start at any edge in the interval. -/
theorem carveData_integers (i : Interval) {lo : Lower} (hlo : ∀ n, lo.Admits n → i.lo.Admits n)
    (holes : List Int) :
    carveData i (.ofLower lo) (holes.map .int) = .ok (carve i.hi lo holes) := by
  induction holes generalizing lo with
  | nil => exact carveData_nil i lo
  | cons p rest ih =>
    -- the edge that is kept lies in the interval, so it decides which holes count
    have hin : (p ∈ i ∧ lo.Admits p) ↔ (lo.Admits p ∧ i.hi.Admits p) := by
      rw [Interval.mem_iff]
      constructor
      · rintro ⟨⟨-, hhi⟩, hp⟩
        exact ⟨hp, hhi⟩
      · rintro ⟨hp, hhi⟩
        exact ⟨⟨hlo p hp, hhi⟩, hp⟩
    rw [List.map_cons, carveData_cons, carve]
    simp only [hin]
    split
    · rename_i hp
      have hnext : ∀ n, (Lower.limit (p + 1)).Admits n → i.lo.Admits n := by
        intro n hn
        rw [Lower.admits_limit] at hn
        exact (hlo p hp.1).mono (by omega)
      have hrest : carveData i (.int (p + 1)) (rest.map .int) = _ := ih hnext
      rw [hrest]
      rfl
    · exact ih hlo

/-- From the lower edge of the interval on, the loop gives the pieces without the holes. -/
theorem carveData_without (i : Interval) (holes : List Int) :
    carveData i (.ofLower i.lo) (holes.map .int) = .ok (i.without holes) :=
  carveData_integers i (fun _ hn => hn) holes

/-- Values that are integers are taken out as the integers are. -/
theorem excludeData_integers (r : IntervalSet) {d : Datum} {points : List Int}
    (h : d.items = .ok (points.map .int)) : r.excludeData d = reported (r.exclude points) := by
  have hparts : r.parts.mapM (fun i => carveData i (.ofLower i.lo) ((ascending points).map .int)) =
      .ok (r.parts.map (·.without (ascending points))) :=
    mapM_eq_ok fun i _ => carveData_without i (ascending points)
  obtain ⟨kept, hkept, hsort⟩ := Datum.sort_distinct_integers points
  unfold excludeData
  simp only [h, hkept, hsort, hparts, bind, Except.bind, exclude, List.flatMap_def]

/-- **Exclusion is set difference.**  A collection of integers, in any order and with repetitions, is
taken out of a set.

The answer is a range fault exactly if every integer of the set is in the collection.  Otherwise it
is a set that contains what the given set contains and the collection does not, and if neighbours of
the given set leave a gap, so do those of the answer.  The only fault is that nothing is left: the
loop over each interval cuts pieces that are all admitted. -/
theorem excludeData_exact (r : IntervalSet) {d : Datum} {points : List Int}
    (h : d.items = .ok (points.map .int)) :
    ((∃ f, r.excludeData d = .error (.range f)) ↔ ∀ n, r.contains n = true → n ∈ points) ∧
    ((∃ n, r.contains n = true ∧ n ∉ points) → ∃ s, r.excludeData d = .ok s ∧
      (∀ n, s.contains n = true ↔ r.contains n = true ∧ n ∉ points) ∧ (r.Gapped → s.Gapped)) ∧
    (∀ fault, r.excludeData d = .error fault → fault = .range .empty) ∧
    ∀ i ∈ r.parts, carveData i (.ofLower i.lo) ((ascending points).map .int) =
      .ok (i.without (ascending points)) := by
  have hloop : ∀ i ∈ r.parts, carveData i (.ofLower i.lo) ((ascending points).map .int) =
      .ok (i.without (ascending points)) :=
    fun i _ => carveData_without i (ascending points)
  simp only [contains_iff]
  rw [excludeData_integers r h]
  rcases r.exclude_spec points with ⟨s, hs, hmem⟩ | ⟨hs, hall⟩
  · -- a set has a member, and that one is not in the collection
    obtain ⟨m, hm⟩ := s.exists_mem
    have hleft := (hmem m).1 hm
    rw [hs]
    refine ⟨⟨?_, ?_⟩, fun _ => ⟨s, rfl, hmem, fun hgapped => hgapped.exclude hs⟩, ?_, hloop⟩
    · rintro ⟨f, hf⟩
      cases hf
    · intro hall
      exact absurd (hall m hleft.1) hleft.2
    · intro fault hfault
      cases hfault
  · rw [hs]
    refine ⟨iff_of_true ⟨.empty, rfl⟩ hall, ?_, ?_, hloop⟩
    · rintro ⟨n, hn, hnot⟩
      exact absurd (hall n hn) hnot
    · intro fault hfault
      exact (Except.error.inj hfault).symm

/-- Out of `[-∞, 3] ∪ [5, 5] ∪ [7, +∞]` two neighbours at an edge, a whole interval, an integer that
is not there and an inner one twice; and out of the middle interval alone everything. -/
theorem excludeData_exact_threeParts :
    let r : IntervalSet :=
      ⟨[⟨.unbounded, .limit 3, by decide⟩, .point 5, ⟨.limit 7, .unbounded, by decide⟩],
        by decide, by decide⟩
    let points : List Int := [3, 9, 5, 2, 4, 9]
    (Datum.list (points.map .int)).items = .ok (points.map .int) ∧ r.Gapped ∧
      (∃ s, r.excludeData (.list (points.map .int)) = .ok s ∧ s.Gapped ∧
        ∀ n, s.contains n = true ↔ n ≤ 1 ∨ n = 7 ∨ n = 8 ∨ 10 ≤ n) ∧
      (point 5).excludeData (.list (points.map .int)) = .error (.range .empty) := by
  intro r points
  have hitems : (Datum.list (points.map .int)).items = .ok (points.map .int) := rfl
  have hgapped : r.Gapped := by simp [Gapped, r, Interval.Apart, Interval.point]
  have hcontains : ∀ n, r.contains n = true ↔ n ≤ 3 ∨ n = 5 ∨ 7 ≤ n := by
    intro n
    simp [r, mem_iff, Interval.mem_iff, Interval.point]
    omega
  refine ⟨hitems, hgapped, ?_, ?_⟩
  · obtain ⟨-, hsome, -⟩ := excludeData_exact r hitems
    obtain ⟨s, hs, hmem, hkeeps⟩ := hsome ⟨7, by simp [hcontains, points]⟩
    refine ⟨s, hs, hkeeps hgapped, fun n => (hmem n).trans ?_⟩
    simp [hcontains, points]
    omega
  · obtain ⟨hfault, -, hempty, -⟩ := excludeData_exact (point 5) hitems
    obtain ⟨f, hf⟩ := hfault.2 (by simp [points])
    rw [hf, hempty _ hf]

end IntervalSet

end DeadCast

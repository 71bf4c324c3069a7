import DeadCast.Datum.Ranges
import DeadCast.Proofs.Datum.Equality
import DeadCast.Proofs.Interval.Membership
import DeadCast.Proofs.Number.Ascending
import Mathlib.Tactic

/-!
# The order of values that are integers

Values of any kind are compared, sorted and freed of repetitions, and any of these steps may be a
fault.  For integers none is.  A comparison with an edge of an interval asks whether the edge admits
the integer (`Datum.compare_lower_atMost`, `Datum.compare_atMost_upper`), and sorting integers
without their repetitions gives the list of them in ascending order (`Datum.sort_distinct_integers`).
-/

namespace DeadCast

/-- Edges that are not inverted make an interval. -/
theorem Interval.between_of_below {lo : Lower} {hi : Upper} (h : lo.Below hi) :
    Interval.between lo hi = .ok ⟨lo, hi, h⟩ := by
  cases lo with
  | unbounded => rfl
  | limit a =>
    cases hi with
    | unbounded => rfl
    | limit b => exact dif_pos h

namespace Datum

/-! ## Comparisons -/

theorem compare_less_int (a b : Int) : compare .less (.int a) (.int b) = .ok (decide (a < b)) := by
  simp [compare, isEdge, numeric?, Numeric.lt, Comparison.decideBy]

theorem compare_atMost_int (a b : Int) :
    compare .atMost (.int a) (.int b) = .ok (decide (a ≤ b)) := by
  have hle : a ≤ b ↔ a < b ∨ a = b := le_iff_lt_or_eq
  simp [compare, isEdge, numeric?, Numeric.lt, Numeric.same, Comparison.decideBy, hle,
    Bool.beq_eq_decide_eq]

/-- Is the integer at most the upper edge? -/
theorem compare_atMost_upper (a : Int) (u : Upper) :
    compare .atMost (.int a) (.ofUpper u) = .ok (decide (u.Admits a)) := by
  cases u with
  | unbounded =>
    simp [ofUpper, compare, isEdge, place?, comparePlaces, Place.lt, Comparison.decideBy]
  | limit b => exact compare_atMost_int a b

/-- Is the lower edge at most the integer? -/
theorem compare_lower_atMost (l : Lower) (n : Int) :
    compare .atMost (.ofLower l) (.int n) = .ok (decide (l.Admits n)) := by
  cases l with
  | unbounded =>
    simp [ofLower, compare, isEdge, place?, comparePlaces, Place.lt, Comparison.decideBy]
  | limit a => exact compare_atMost_int a n

/-- Is the integer left of the lower edge? -/
theorem compare_less_lower (l : Lower) (n : Int) :
    compare .less (.int n) (.ofLower l) = .ok (decide (¬ l.Admits n)) := by
  cases l with
  | unbounded =>
    simp [ofLower, compare, isEdge, place?, comparePlaces, Place.lt, Comparison.decideBy]
  | limit a =>
    rw [ofLower, compare_less_int]
    simp

/-- Is the lower edge at most the upper edge? -/
theorem compare_lower_upper (l : Lower) (u : Upper) :
    compare .atMost (.ofLower l) (.ofUpper u) = .ok (decide (l.Below u)) := by
  cases u with
  | unbounded =>
    have hbelow : l.Below .unbounded := by cases l <;> trivial
    rw [decide_eq_true hbelow]
    cases l <;>
      simp [ofLower, ofUpper, compare, isEdge, place?, comparePlaces, Place.lt, Comparison.decideBy]
  | limit b =>
    have hbelow : l.Below (.limit b) ↔ l.Admits b := by cases l <;> simp [Lower.Below]
    rw [decide_eq_decide.2 hbelow]
    exact compare_lower_atMost l b

/-! ## Sorting -/

theorem keepOnce_integer (kept : List Int) (n : Int) :
    keepOnce (kept.map .int) (.int n) = .ok ((if n ∈ kept then kept else kept ++ [n]).map .int) := by
  have hamong : (Datum.int n).isAmong (kept.map .int) = decide (n ∈ kept) := by
    rw [Bool.eq_iff_iff]
    simp [isAmong]
  unfold keepOnce
  rw [hamong]
  by_cases hn : n ∈ kept
  · simp [hn, asKey, isHashable, bind, Except.bind, pure, Except.pure]
  · simp [hn, asKey, isHashable, bind, Except.bind, pure, Except.pure]

/-- Of several integers each is kept once, behind those that are kept already. -/
theorem foldlM_keepOnce_integers (ns kept : List Int) (hkept : kept.Nodup) :
    ∃ ms : List Int, (ns.map Datum.int).foldlM keepOnce (kept.map .int) = .ok (ms.map .int) ∧
      ms.Nodup ∧ ∀ n, n ∈ ms ↔ n ∈ kept ∨ n ∈ ns := by
  induction ns generalizing kept with
  | nil => exact ⟨kept, rfl, hkept, by simp⟩
  | cons n rest ih =>
    rw [List.map_cons, List.foldlM_cons, keepOnce_integer]
    by_cases hn : n ∈ kept
    · rw [if_pos hn]
      obtain ⟨ms, hms, hnodup, hmem⟩ := ih kept hkept
      refine ⟨ms, hms, hnodup, fun m => ?_⟩
      rw [hmem, List.mem_cons]
      constructor
      · tauto
      · rintro (hm | rfl | hm)
        · exact Or.inl hm
        · exact Or.inl hn
        · exact Or.inr hm
    · rw [if_neg hn]
      have hnext : (kept ++ [n]).Nodup := by simpa using hkept.concat hn
      obtain ⟨ms, hms, hnodup, hmem⟩ := ih (kept ++ [n]) hnext
      refine ⟨ms, hms, hnodup, fun m => ?_⟩
      rw [hmem, List.mem_append, List.mem_singleton, List.mem_cons, or_assoc]

/-- An integer is put at its place among integers from the greatest to the least. -/
theorem insertFromEnd_integers (n : Int) (ns : List Int) :
    ∃ ms : List Int, insertFromEnd (.int n) (ns.map .int) = .ok (ms.map .int) ∧ ms.Perm (n :: ns) ∧
      (ns.Pairwise (· ≥ ·) → ms.Pairwise (· ≥ ·)) := by
  induction ns with
  | nil => exact ⟨[n], rfl, .refl _, by simp⟩
  | cons m rest ih =>
    rw [List.map_cons, insertFromEnd, compare_less_int]
    by_cases hnm : n < m
    · obtain ⟨ms, hms, hperm, hsorted⟩ := ih
      refine ⟨m :: ms, ?_, (hperm.cons m).trans (.swap n m rest), fun h => ?_⟩
      · simp [hnm, hms, bind, Except.bind, pure, Except.pure]
      · obtain ⟨hm, hrest⟩ := List.pairwise_cons.1 h
        refine List.pairwise_cons.2 ⟨fun k hk => ?_, hsorted hrest⟩
        rcases List.mem_cons.1 (hperm.mem_iff.1 hk) with rfl | hk
        · exact le_of_lt hnm
        · exact hm k hk
    · refine ⟨n :: m :: rest, ?_, .refl _, fun h => ?_⟩
      · simp [hnm, bind, Except.bind, pure, Except.pure]
      · refine List.pairwise_cons.2 ⟨fun k hk => ?_, h⟩
        rcases List.mem_cons.1 hk with rfl | hk
        · exact not_lt.1 hnm
        · exact le_trans ((List.pairwise_cons.1 h).1 k hk) (not_lt.1 hnm)

/-- Several integers are put one by one at their places among those that are sorted already. -/
theorem foldlM_insertFromEnd_integers (ns sorted : List Int) (hsorted : sorted.Pairwise (· ≥ ·)) :
    ∃ ms : List Int, (ns.map Datum.int).foldlM (fun sorted d => insertFromEnd d sorted)
        (sorted.map .int) = .ok (ms.map .int) ∧
      ms.Perm (sorted ++ ns) ∧ ms.Pairwise (· ≥ ·) := by
  induction ns generalizing sorted with
  | nil => exact ⟨sorted, rfl, by simp, hsorted⟩
  | cons n rest ih =>
    obtain ⟨next, hnext, hperm, hkeeps⟩ := insertFromEnd_integers n sorted
    obtain ⟨ms, hms, hmsperm, hmssorted⟩ := ih next (hkeeps hsorted)
    refine ⟨ms, ?_, ?_, hmssorted⟩
    · rw [List.map_cons, List.foldlM_cons, hnext]
      exact hms
    · calc ms.Perm (next ++ rest) := hmsperm
        _ |>.Perm ((n :: sorted) ++ rest) := hperm.append_right rest
        _ |>.Perm (sorted ++ n :: rest) := List.perm_middle.symm

/-- **Sorting integers without their repetitions** lists them in ascending order. -/
theorem sort_distinct_integers (ns : List Int) :
    ∃ kept, distinct (ns.map .int) = .ok kept ∧ sort kept = .ok ((ascending ns).map .int) := by
  obtain ⟨ms, hms, hnodup, hmem⟩ := foldlM_keepOnce_integers ns [] List.nodup_nil
  obtain ⟨ks, hks, hperm, hsorted⟩ := foldlM_insertFromEnd_integers ms [] List.Pairwise.nil
  have hlt : ks.reverse.SortedLT := by
    refine List.sortedLT_iff_nodup_and_sortedLE.2 ⟨?_, (List.pairwise_reverse.2 hsorted).sortedLE⟩
    exact List.nodup_reverse.2 (hperm.nodup_iff.2 hnodup)
  have hsame : ks.reverse = ascending ns := by
    refine hlt.eq_of_mem_iff (ascending_pairwise ns).sortedLT fun n => ?_
    simp [hperm.mem_iff, hmem]
  refine ⟨ms.map .int, hms, ?_⟩
  rw [sort, ← List.map_nil (f := Datum.int), hks, ← hsame, List.map_reverse]
  rfl

end Datum

end DeadCast

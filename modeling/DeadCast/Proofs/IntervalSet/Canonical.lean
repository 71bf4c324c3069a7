import DeadCast.Proofs.IntervalSet.Exclude
import Mathlib.Tactic

/-!
# The shortest form of a set is unique

A set of integers can be written as a union of intervals in many ways: `[0, 3]` is also
`[0, 1] ∪ [2, 3]`.  If neighbours leave a gap there is only one way (`IntervalSet.eq_of_gapped`).

The reason is that the first interval can be read off the set.  Its lower edge admits what has a
member of the set at or below it (`lo_admits_iff`), and its upper edge admits what can be reached
from the lower edge without leaving the set (`hi_admits_iff`); the second needs the gap.  So two
lists that cover the same integers begin with the same interval, and without it they still cover the
same integers.

Taking integers out of a set keeps its gaps (`IntervalSet.Gapped.exclude`), so a set that is carved
out of one interval is in its shortest form.
-/

namespace DeadCast

/-! ## What a list of intervals covers -/

/-- Some interval of the list holds the integer. -/
def Covers (parts : List Interval) (n : Int) : Prop := ∃ i ∈ parts, n ∈ i

@[simp]
theorem covers_nil {n : Int} : ¬ Covers [] n := by simp [Covers]

theorem covers_cons {a : Interval} {rest : List Interval} {n : Int} :
    Covers (a :: rest) n ↔ n ∈ a ∨ Covers rest n := by
  simp [Covers]

theorem IntervalSet.mem_iff_covers {r : IntervalSet} {n : Int} : n ∈ r ↔ Covers r.parts n := Iff.rfl

/-! ## Edges and intervals are known by what they admit -/

theorem Lower.eq_of_admits_iff {l m : Lower} (h : ∀ n, l.Admits n ↔ m.Admits n) : l = m := by
  cases l with
  | unbounded =>
    cases m with
    | unbounded => rfl
    | limit b =>
      have hb := (h (b - 1)).1 trivial
      rw [admits_limit] at hb
      omega
  | limit a =>
    cases m with
    | unbounded =>
      have ha := (h (a - 1)).2 trivial
      rw [admits_limit] at ha
      omega
    | limit b =>
      have hab := (h b).2 (le_refl b)
      have hba := (h a).1 (le_refl a)
      rw [admits_limit] at hab hba
      rw [le_antisymm hab hba]

theorem Upper.eq_of_admits_iff {u v : Upper} (h : ∀ n, u.Admits n ↔ v.Admits n) : u = v := by
  cases u with
  | unbounded =>
    cases v with
    | unbounded => rfl
    | limit b =>
      have hb := (h (b + 1)).1 trivial
      rw [admits_limit] at hb
      omega
  | limit a =>
    cases v with
    | unbounded =>
      have ha := (h (a + 1)).2 trivial
      rw [admits_limit] at ha
      omega
    | limit b =>
      have hba := (h b).2 (le_refl b)
      have hab := (h a).1 (le_refl a)
      rw [admits_limit] at hab hba
      rw [le_antisymm hab hba]

theorem Interval.eq_of_edges {a b : Interval} (hlo : a.lo = b.lo) (hhi : a.hi = b.hi) : a = b := by
  cases a
  cases b
  cases hlo
  cases hhi
  rfl

/-! ## The first interval of a list with gaps -/

section First

variable {a : Interval} {rest : List Interval}

/-- The first lower edge admits what has a covered integer at or below it. -/
theorem lo_admits_iff (h : (a :: rest).Pairwise Interval.Before) {n : Int} :
    a.lo.Admits n ↔ ∃ m ≤ n, Covers (a :: rest) m := by
  constructor
  · intro hn
    cases ha : a.lo with
    | unbounded =>
      obtain ⟨m, hm, hmn⟩ := Interval.exists_mem_le ha n
      exact ⟨m, hmn, covers_cons.2 (Or.inl hm)⟩
    | limit x =>
      rw [ha, Lower.admits_limit] at hn
      exact ⟨x, hn, covers_cons.2 (Or.inl (Interval.lo_mem ha))⟩
  · rintro ⟨m, hmn, hm⟩
    rcases covers_cons.1 hm with hma | ⟨i, hi, hmi⟩
    · exact hma.1.mono hmn
    · -- all of `a` is left of all of `i`
      obtain ⟨k, hk⟩ := a.exists_mem
      have hkm := Interval.before_iff.1 ((List.pairwise_cons.1 h).1 i hi) k hk m hmi
      exact hk.1.mono (by omega)

/-- The first upper edge admits what can be reached from the first lower edge through covered
integers. -/
theorem hi_admits_iff (h : (a :: rest).Pairwise Interval.Apart) {n : Int} :
    a.hi.Admits n ↔ ∀ m ≤ n, a.lo.Admits m → Covers (a :: rest) m := by
  constructor
  · intro hn m hmn hm
    exact covers_cons.2 (Or.inl ⟨hm, hn.mono hmn⟩)
  · intro hall
    cases ha : a.hi with
    | unbounded => trivial
    | limit x =>
      rw [Upper.admits_limit]
      by_contra hlt
      -- the integer next to the end of `a` is in the gap
      have hx : x ∈ a := Interval.hi_mem ha
      rcases covers_cons.1 (hall (x + 1) (by omega) (hx.1.mono (by omega))) with hin | ⟨i, hi, hin⟩
      · rw [Interval.mem_iff, ha, Upper.admits_limit] at hin
        omega
      · have := Interval.apart_iff.1 ((List.pairwise_cons.1 h).1 i hi) x hx (x + 1) hin
        omega

/-- What the rest covers is what the list covers outside of its first interval. -/
theorem covers_rest_iff (h : (a :: rest).Pairwise Interval.Apart) {n : Int} :
    Covers rest n ↔ Covers (a :: rest) n ∧ n ∉ a := by
  constructor
  · rintro ⟨i, hi, hn⟩
    refine ⟨covers_cons.2 (Or.inr ⟨i, hi, hn⟩), fun hna => ?_⟩
    have := Interval.apart_iff.1 ((List.pairwise_cons.1 h).1 i hi) n hna n hn
    omega
  · rintro ⟨hn, hna⟩
    exact (covers_cons.1 hn).resolve_left hna

end First

/-- Lists with gaps that cover the same integers are equal. -/
theorem eq_of_covers_iff {xs ys : List Interval} (hxs : xs.Pairwise Interval.Apart)
    (hys : ys.Pairwise Interval.Apart) (h : ∀ n, Covers xs n ↔ Covers ys n) : xs = ys := by
  induction xs generalizing ys with
  | nil =>
    cases ys with
    | nil => rfl
    | cons b bs =>
      obtain ⟨n, hn⟩ := b.exists_mem
      exact absurd ((h n).2 (covers_cons.2 (Or.inl hn))) covers_nil
  | cons a as ih =>
    cases ys with
    | nil =>
      obtain ⟨n, hn⟩ := a.exists_mem
      exact absurd ((h n).1 (covers_cons.2 (Or.inl hn))) covers_nil
    | cons b bs =>
      have hlo : a.lo = b.lo := by
        refine Lower.eq_of_admits_iff fun n => ?_
        rw [lo_admits_iff (hxs.imp Interval.Apart.before),
          lo_admits_iff (hys.imp Interval.Apart.before)]
        simp only [h]
      have hhi : a.hi = b.hi := by
        refine Upper.eq_of_admits_iff fun n => ?_
        rw [hi_admits_iff hxs, hi_admits_iff hys]
        simp only [h, hlo]
      obtain rfl := Interval.eq_of_edges hlo hhi
      have hrest : ∀ n, Covers as n ↔ Covers bs n := by
        intro n
        rw [covers_rest_iff hxs, covers_rest_iff hys, h]
      rw [ih (List.pairwise_cons.1 hxs).2 (List.pairwise_cons.1 hys).2 hrest]

/-! ## Sets with gaps -/

namespace IntervalSet

/-- Between neighbours of the set lies at least one integer: with `[a, b]` followed by `[c, d]`,
`b + 1 < c`. -/
def Gapped (r : IntervalSet) : Prop := r.parts.IsChain Interval.Apart

theorem gapped_iff_pairwise {r : IntervalSet} : r.Gapped ↔ r.parts.Pairwise Interval.Apart :=
  List.isChain_iff_pairwise

theorem gapped_ofInterval (i : Interval) : (ofInterval i).Gapped := .singleton i

theorem eq_of_parts {r s : IntervalSet} (h : r.parts = s.parts) : r = s := by
  cases r
  cases s
  cases h
  rfl

/-- **The shortest form is unique.**  Two sets with gaps that have the same members are equal,
interval by interval. -/
theorem eq_of_gapped {r s : IntervalSet} (hr : r.Gapped) (hs : s.Gapped) (h : ∀ n, n ∈ r ↔ n ∈ s) :
    r = s :=
  eq_of_parts (eq_of_covers_iff (gapped_iff_pairwise.1 hr) (gapped_iff_pairwise.1 hs) h)

theorem mem_full (n : Int) : n ∈ full := mem_ofInterval.2 ⟨trivial, trivial⟩

theorem isFull_iff {r : IntervalSet} : r.isFull = true ↔ r = full := by
  constructor
  · intro h
    unfold isFull at h
    split at h
    · rename_i i hparts
      unfold Interval.isFull at h
      split at h
      · rename_i hlo hhi
        refine eq_of_parts (hparts.trans ?_)
        exact congrArg (fun j => [j]) (Interval.eq_of_edges hlo hhi)
      · cases h
    · cases h
  · rintro rfl
    rfl

/-- A set with gaps is the full interval exactly if all integers are in it. -/
theorem Gapped.isFull_iff_forall {r : IntervalSet} (h : r.Gapped) :
    r.isFull = true ↔ ∀ n, n ∈ r := by
  rw [isFull_iff]
  constructor
  · rintro rfl
    exact mem_full
  · intro hall
    exact eq_of_gapped h (gapped_ofInterval .full) fun n => iff_of_true (hall n) (mem_full n)

/-- Taking integers out keeps the gaps. -/
theorem Gapped.exclude {r s : IntervalSet} (h : r.Gapped) {points : List Int}
    (hs : r.exclude points = .ok s) : s.Gapped := by
  rw [gapped_iff_pairwise] at h ⊢
  by_cases hne : r.parts.flatMap (·.without (ascending points)) = []
  · rw [IntervalSet.exclude, hne, ofParts_nil] at hs
    cases hs
  · obtain ⟨t, ht, hparts⟩ := ofParts_flatMap_without r hne
    obtain rfl : t = s := Except.ok.inj (ht.symm.trans hs)
    rw [hparts]
    exact flatMap_without_pairwise Interval.Apart.mono id h points

end IntervalSet

end DeadCast

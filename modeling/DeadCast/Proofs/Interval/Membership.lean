import DeadCast.IntervalSet.Basic
import Mathlib.Tactic

/-!
# Intervals and interval sets read through their members

Everything that is proved about ranges is proved through membership: which integers an edge admits,
an interval holds, a set holds.  This file gives every operation its reading.

* An edge is narrowed by an integer exactly as an inequality says (`Lower.admits_tighten`,
  `Upper.admits_tighten`), and two edges are not inverted exactly if some integer lies between them
  (`Lower.below_iff`).
* `Interval.before_iff`: an interval stands before another exactly if *all* its integers are less
  than all integers of the other.  So the comparison of two edges, which is all that the code does,
  decides about infinitely many pairs.
* `Interval.apart_iff`: the same for two intervals with an integer between them, which is what
  neighbours of a set in its shortest form are.
* `misordered_eq_none_iff`: comparing neighbours is enough to know the order of all pairs.
* `IntervalSet.ofParts` succeeds on exactly the non-empty lists in such an order.
-/

namespace DeadCast

/-! ## Edges -/

namespace Lower

@[simp]
theorem admits_unbounded (n : Int) : Lower.unbounded.Admits n := trivial

@[simp]
theorem admits_limit {a n : Int} : (Lower.limit a).Admits n ↔ a ≤ n := Iff.rfl

/-- What a lower edge admits, it admits with everything to the right of it. -/
theorem Admits.mono {l : Lower} {m n : Int} (h : l.Admits m) (hmn : m ≤ n) : l.Admits n := by
  cases l with
  | unbounded => trivial
  | limit a => exact le_trans h hmn

theorem admits_tighten {l : Lower} {a n : Int} :
    (l.tighten a).Admits n ↔ l.Admits n ∧ a ≤ n := by
  cases l with
  | unbounded => simp [tighten]
  | limit b =>
    simp only [tighten]
    split <;> simp only [admits_limit] <;> omega

end Lower

namespace Upper

@[simp]
theorem admits_unbounded (n : Int) : Upper.unbounded.Admits n := trivial

@[simp]
theorem admits_limit {b n : Int} : (Upper.limit b).Admits n ↔ n ≤ b := Iff.rfl

/-- What an upper edge admits, it admits with everything to the left of it. -/
theorem Admits.mono {u : Upper} {m n : Int} (h : u.Admits n) (hmn : m ≤ n) : u.Admits m := by
  cases u with
  | unbounded => trivial
  | limit b => exact le_trans hmn h

theorem admits_tighten {u : Upper} {b n : Int} :
    (u.tighten b).Admits n ↔ u.Admits n ∧ n ≤ b := by
  cases u with
  | unbounded => simp [tighten]
  | limit c =>
    simp only [tighten]
    split <;> simp only [admits_limit] <;> omega

end Upper

/-- Two edges are not inverted exactly if some integer lies between them. -/
theorem Lower.below_iff {l : Lower} {u : Upper} :
    l.Below u ↔ ∃ n, l.Admits n ∧ u.Admits n := by
  constructor
  · intro h
    cases l with
    | unbounded =>
      cases u with
      | unbounded => exact ⟨0, trivial, trivial⟩
      | limit b => exact ⟨b, trivial, le_refl b⟩
    | limit a =>
      cases u with
      | unbounded => exact ⟨a, le_refl a, trivial⟩
      | limit b => exact ⟨a, le_refl a, h⟩
  · rintro ⟨n, hl, hu⟩
    cases l with
    | unbounded => cases u <;> exact trivial
    | limit a =>
      cases u with
      | unbounded => exact trivial
      | limit b => exact le_trans (Lower.admits_limit.1 hl) (Upper.admits_limit.1 hu)

/-! ## Intervals -/

namespace Interval

theorem mem_iff {i : Interval} {n : Int} : n ∈ i ↔ i.lo.Admits n ∧ i.hi.Admits n := Iff.rfl

@[simp]
theorem contains_iff {i : Interval} {n : Int} : i.contains n = true ↔ n ∈ i := by
  simp [contains]

@[simp]
theorem mem_point {m n : Int} : m ∈ point n ↔ m = n := by
  simp only [mem_iff, point, Lower.admits_limit, Upper.admits_limit]
  omega

/-- An interval is never empty. -/
theorem exists_mem (i : Interval) : ∃ n, n ∈ i := Lower.below_iff.1 i.ordered

/-- Without an upper edge there is no greatest member. -/
theorem exists_mem_ge {i : Interval} (h : i.hi = .unbounded) (n : Int) : ∃ m ∈ i, n ≤ m := by
  obtain ⟨k, hk⟩ := i.exists_mem
  refine ⟨max k n, ⟨hk.1.mono (le_max_left k n), ?_⟩, le_max_right k n⟩
  rw [h]
  trivial

/-- Without a lower edge there is no least member. -/
theorem exists_mem_le {i : Interval} (h : i.lo = .unbounded) (n : Int) : ∃ m ∈ i, m ≤ n := by
  obtain ⟨k, hk⟩ := i.exists_mem
  refine ⟨min k n, ⟨?_, hk.2.mono (min_le_left k n)⟩, min_le_right k n⟩
  rw [h]
  trivial

theorem lo_mem {i : Interval} {a : Int} (h : i.lo = .limit a) : a ∈ i := by
  obtain ⟨k, hk⟩ := i.exists_mem
  rw [mem_iff, h] at hk
  refine ⟨?_, hk.2.mono hk.1⟩
  rw [h]
  exact le_refl a

theorem hi_mem {i : Interval} {b : Int} (h : i.hi = .limit b) : b ∈ i := by
  obtain ⟨k, hk⟩ := i.exists_mem
  rw [mem_iff, h] at hk
  refine ⟨hk.1.mono hk.2, ?_⟩
  rw [h]
  exact le_refl b

/-- **The order of two intervals.**  Comparing the end of one with the start of the other is the
same as comparing all integers of the one with all integers of the other. -/
theorem before_iff {a b : Interval} : a.Before b ↔ ∀ m ∈ a, ∀ n ∈ b, m < n := by
  constructor
  · intro h m hm n hn
    unfold Before at h
    split at h
    · rename_i x y ha hb
      rw [mem_iff, ha, Upper.admits_limit] at hm
      rw [mem_iff, hb, Lower.admits_limit] at hn
      omega
    · exact h.elim
  · intro h
    cases ha : a.hi with
    | unbounded =>
      -- some integer of `a` is not less than a given integer of `b`
      obtain ⟨n, hn⟩ := b.exists_mem
      obtain ⟨m, hm, hnm⟩ := exists_mem_ge ha n
      exact absurd (h m hm n hn) (not_lt.2 hnm)
    | limit x =>
      cases hb : b.lo with
      | unbounded =>
        obtain ⟨n, hn, hnx⟩ := exists_mem_le hb x
        exact absurd (h x (hi_mem ha) n hn) (not_lt.2 hnx)
      | limit y =>
        unfold Before
        rw [ha, hb]
        exact h x (hi_mem ha) y (lo_mem hb)

theorem Before.trans {a b c : Interval} (hab : a.Before b) (hbc : b.Before c) : a.Before c := by
  rw [before_iff] at hab hbc ⊢
  intro m hm n hn
  obtain ⟨k, hk⟩ := b.exists_mem
  exact (hab m hm k hk).trans (hbc k hk n hn)

/-- `a` ends below the start of `b`, and at least one integer lies between them. -/
def Apart (a b : Interval) : Prop :=
  match a.hi, b.lo with
  | .limit h, .limit l => h + 1 < l
  | _, _ => False

/-- A gap between the edges is a gap between all integers of the one and all integers of the
other. -/
theorem apart_iff {a b : Interval} : a.Apart b ↔ ∀ m ∈ a, ∀ n ∈ b, m + 1 < n := by
  constructor
  · intro h m hm n hn
    unfold Apart at h
    split at h
    · rename_i x y ha hb
      rw [mem_iff, ha, Upper.admits_limit] at hm
      rw [mem_iff, hb, Lower.admits_limit] at hn
      omega
    · exact h.elim
  · intro h
    have hbefore : a.Before b := before_iff.2 fun m hm n hn => (lt_add_one m).trans (h m hm n hn)
    unfold Before at hbefore
    split at hbefore
    · rename_i x y ha hb
      unfold Apart
      rw [ha, hb]
      exact h x (hi_mem ha) y (lo_mem hb)
    · exact hbefore.elim

theorem Apart.before {a b : Interval} (h : a.Apart b) : a.Before b :=
  before_iff.2 fun m hm n hn => (lt_add_one m).trans (apart_iff.1 h m hm n hn)

theorem Apart.trans {a b c : Interval} (hab : a.Apart b) (hbc : b.Apart c) : a.Apart c := by
  rw [apart_iff] at hab hbc ⊢
  intro m hm n hn
  obtain ⟨k, hk⟩ := b.exists_mem
  have hmk := hab m hm k hk
  have hkn := hbc k hk n hn
  omega

instance : Trans Apart Apart Apart := ⟨Apart.trans⟩

/-- Parts of intervals are in the order of the intervals. -/
theorem Before.mono {a b x y : Interval} (h : a.Before b) (hx : ∀ n ∈ x, n ∈ a)
    (hy : ∀ n ∈ y, n ∈ b) : x.Before y :=
  before_iff.2 fun m hm n hn => before_iff.1 h m (hx m hm) n (hy n hn)

theorem Apart.mono {a b x y : Interval} (h : a.Apart b) (hx : ∀ n ∈ x, n ∈ a)
    (hy : ∀ n ∈ y, n ∈ b) : x.Apart y :=
  apart_iff.2 fun m hm n hn => apart_iff.1 h m (hx m hm) n (hy n hn)

end Interval

/-! ## Lists of intervals in order -/

/-- Neighbours are compared, but the order holds between all pairs. -/
theorem misordered_eq_none_iff {parts : List Interval} :
    misordered parts = none ↔ parts.Pairwise Interval.Before := by
  induction parts with
  | nil => simp [misordered]
  | cons a rest ih =>
    cases rest with
    | nil => simp [misordered]
    | cons b more =>
      unfold misordered
      split
      · rename_i hab
        rw [ih, List.pairwise_cons (a := a)]
        constructor
        · intro h
          refine ⟨?_, h⟩
          intro c hc
          rcases List.mem_cons.1 hc with rfl | hc
          · exact hab
          · exact hab.trans ((List.pairwise_cons.1 h).1 c hc)
        · exact And.right
      · rename_i hab
        constructor
        · intro h
          cases h
        · intro h
          exact absurd ((List.pairwise_cons.1 h).1 b (List.mem_cons_self ..)) hab

namespace IntervalSet

theorem mem_iff {r : IntervalSet} {n : Int} : n ∈ r ↔ ∃ i ∈ r.parts, n ∈ i := Iff.rfl

@[simp]
theorem contains_iff {r : IntervalSet} {n : Int} : r.contains n = true ↔ n ∈ r := by
  simp [contains, mem_iff]

@[simp]
theorem mem_ofInterval {i : Interval} {n : Int} : n ∈ ofInterval i ↔ n ∈ i := by
  simp [mem_iff, ofInterval]

@[simp]
theorem mem_point {m n : Int} : m ∈ point n ↔ m = n := by
  rw [point, mem_ofInterval, Interval.mem_point]

/-- A set is never empty. -/
theorem exists_mem (r : IntervalSet) : ∃ n, n ∈ r := by
  obtain ⟨i, hi⟩ := List.exists_mem_of_ne_nil r.parts r.nonempty
  obtain ⟨n, hn⟩ := i.exists_mem
  exact ⟨n, i, hi, hn⟩

theorem pairwise_parts (r : IntervalSet) : r.parts.Pairwise Interval.Before :=
  misordered_eq_none_iff.1 r.ordered

/-- A list without intervals has no members to be a set of. -/
theorem ofParts_nil : ofParts [] = .error .empty := rfl

/-- **What is a set.**  A list of intervals that is not empty and in order is admitted. -/
theorem ofParts_of_pairwise {parts : List Interval} (hne : parts ≠ [])
    (hord : parts.Pairwise Interval.Before) : ∃ r, ofParts parts = .ok r ∧ r.parts = parts := by
  cases parts with
  | nil => exact absurd rfl hne
  | cons a rest =>
    have hnone := misordered_eq_none_iff.2 hord
    refine ⟨⟨a :: rest, hne, hnone⟩, ?_, rfl⟩
    unfold ofParts
    simp only
    split
    · rename_i hsome
      rw [hnone] at hsome
      cases hsome
    · rfl

end IntervalSet

end DeadCast

import DeadCast.Solver.Elementary
import Mathlib.Tactic

/-!
# Optima from samples

What it means that an answer about the best value of an objective is right (`Answer.IsRight`), and
why finitely many samples are enough to find such an answer.

* The best number of a list is found by folding, so an answer is right if the samples are possible
  and none of the possible values is better than all samples (`answerFrom_right`).
* Points cut the integers into cells, the points themselves and the gaps between them.  Numbers of
  one cell are `Alike`.  Walking from a number towards better ones, the last alike number is where
  the walk had to end, or it is a point or a neighbour of one (`exists_alike`).
-/

namespace DeadCast

/-! ## Directions -/

namespace Direction

/-- The first number is strictly better. -/
def Better : Direction → Int → Int → Prop
  | .least, u, v => u < v
  | .greatest, u, v => v < u

/-- The first number is as good as the second, or better. -/
def NoWorse : Direction → Int → Int → Prop
  | .least, u, v => u ≤ v
  | .greatest, u, v => v ≤ u

/-- The number is the best one of a set. -/
def IsBest (S : Set Int) (n : Int) : Direction → Prop
  | .least => IsLeast S n
  | .greatest => IsGreatest S n

/-- The set has better numbers than any given one. -/
def IsOpen (S : Set Int) (d : Direction) : Prop := ∀ n, ∃ v ∈ S, d.Better v n

variable {d : Direction} {S : Set Int}

theorem noWorse_refl (d : Direction) (n : Int) : d.NoWorse n n := by
  cases d <;> exact le_refl n

theorem noWorse_or_better (d : Direction) (u v : Int) : d.NoWorse u v ∨ d.Better v u := by
  cases d <;> exact le_or_gt _ _

theorem Better.noWorse {u v : Int} (h : d.Better u v) : d.NoWorse u v := by
  cases d <;> exact le_of_lt h

theorem NoWorse.trans {u v w : Int} (huv : d.NoWorse u v) (hvw : d.NoWorse v w) :
    d.NoWorse u w := by
  cases d with
  | least => exact le_trans huv hvw
  | greatest => exact le_trans hvw huv

theorem isBest_iff {n : Int} : d.IsBest S n ↔ n ∈ S ∧ ∀ v ∈ S, d.NoWorse n v := by
  cases d <;> exact Iff.rfl

theorem IsBest.mem {n : Int} (h : d.IsBest S n) : n ∈ S := (isBest_iff.1 h).1

theorem IsBest.unique {m n : Int} (hm : d.IsBest S m) (hn : d.IsBest S n) : m = n := by
  cases d with
  | least => exact IsLeast.unique hm hn
  | greatest => exact IsGreatest.unique hm hn

theorem IsOpen.nonempty (h : d.IsOpen S) : S.Nonempty := by
  obtain ⟨v, hv, -⟩ := h 0
  exact ⟨v, hv⟩

theorem IsOpen.not_isBest (h : d.IsOpen S) (n : Int) : ¬ d.IsBest S n := by
  intro hbest
  obtain ⟨v, hv, hbetter⟩ := h n
  have hworse := (isBest_iff.1 hbest).2 v hv
  cases d with
  | least => exact absurd hworse (not_le.2 hbetter)
  | greatest => exact absurd hworse (not_le.2 hbetter)

/-- A set that does not go on for ever has a best number. -/
theorem exists_isBest {a : Int} (hbound : ∀ v ∈ S, d.NoWorse a v) (hS : S.Nonempty) :
    ∃ n, d.IsBest S n := by
  cases d with
  | least =>
    obtain ⟨n, hn, hleast⟩ := Int.exists_least_of_bdd ⟨a, hbound⟩ hS
    exact ⟨n, hn, hleast⟩
  | greatest =>
    obtain ⟨n, hn, hgreatest⟩ := Int.exists_greatest_of_bdd ⟨a, hbound⟩ hS
    exact ⟨n, hn, hgreatest⟩

end Direction

/-! ## Right answers -/

/-- The answer is true of the values that the objective can have.  A solver that gives up says
nothing. -/
def Answer.IsRight (d : Direction) (S : Set Int) : Answer → Prop
  | .unsatisfiable => S = ∅
  | .undecided => False
  | .optimum n => d.IsBest S n
  | .unbounded => d.IsOpen S

/-- A right answer says whether the set is empty, and else where it ends. -/
theorem Answer.IsRight.cases {d : Direction} {S : Set Int} {a : Answer} (h : a.IsRight d S) :
    (S = ∅ ∧ a = .unsatisfiable) ∨ (∃ n, a = .optimum n ∧ d.IsBest S n) ∨
      (a = .unbounded ∧ d.IsOpen S) := by
  cases a with
  | unsatisfiable => exact Or.inl ⟨h, rfl⟩
  | undecided => exact h.elim
  | optimum n => exact Or.inr (Or.inl ⟨n, rfl, h⟩)
  | unbounded => exact Or.inr (Or.inr ⟨rfl, h⟩)

namespace Elementary

/-! ## The best number of a list -/

theorem foldl_min_isLeast (ns : List Int) (n : Int) :
    IsLeast {m | m ∈ n :: ns} (ns.foldl min n) := by
  induction ns generalizing n with
  | nil => simp [IsLeast, lowerBounds]
  | cons k ns ih =>
    obtain ⟨hmem, hleast⟩ := ih (min n k)
    have hfirst : ns.foldl min (min n k) ≤ min n k := hleast List.mem_cons_self
    rw [List.foldl_cons]
    constructor
    · rcases List.mem_cons.1 hmem with h | h
      · show _ ∈ n :: k :: ns
        rw [h]
        rcases min_choice n k with h' | h' <;> simp [h']
      · exact List.mem_cons_of_mem _ (List.mem_cons_of_mem _ h)
    · rintro m (_ | ⟨_, _ | ⟨_, hm⟩⟩)
      · exact hfirst.trans (min_le_left n k)
      · exact hfirst.trans (min_le_right n k)
      · exact hleast (List.mem_cons_of_mem _ hm)

theorem foldl_max_isGreatest (ns : List Int) (n : Int) :
    IsGreatest {m | m ∈ n :: ns} (ns.foldl max n) := by
  induction ns generalizing n with
  | nil => simp [IsGreatest, upperBounds]
  | cons k ns ih =>
    obtain ⟨hmem, hgreatest⟩ := ih (max n k)
    have hfirst : max n k ≤ ns.foldl max (max n k) := hgreatest List.mem_cons_self
    rw [List.foldl_cons]
    constructor
    · rcases List.mem_cons.1 hmem with h | h
      · show _ ∈ n :: k :: ns
        rw [h]
        rcases max_choice n k with h' | h' <;> simp [h']
      · exact List.mem_cons_of_mem _ (List.mem_cons_of_mem _ h)
    · rintro m (_ | ⟨_, _ | ⟨_, hm⟩⟩)
      · exact (le_max_left n k).trans hfirst
      · exact (le_max_right n k).trans hfirst
      · exact hgreatest (List.mem_cons_of_mem _ hm)

/-- A list has a best number unless it is empty. -/
theorem best?_cons (d : Direction) (k : Int) (ns : List Int) :
    ∃ n, best? d (k :: ns) = some n ∧ d.IsBest {m | m ∈ k :: ns} n := by
  cases d with
  | least => exact ⟨_, rfl, foldl_min_isLeast ns k⟩
  | greatest => exact ⟨_, rfl, foldl_max_isGreatest ns k⟩

/-- **Samples are enough** if they are possible and nothing possible is better than all of them. -/
theorem answerFrom_right {d : Direction} {values : List Int} {S : Set Int}
    (hpossible : ∀ v ∈ values, v ∈ S) (henough : ∀ v ∈ S, ∃ u ∈ values, d.NoWorse u v) :
    (answerFrom d values).IsRight d S := by
  cases values with
  | nil =>
    have hnone : answerFrom d [] = .unsatisfiable := by cases d <;> rfl
    rw [hnone]
    apply Set.eq_empty_of_forall_notMem
    intro v hv
    obtain ⟨u, hu, -⟩ := henough v hv
    exact List.not_mem_nil hu
  | cons k ns =>
    obtain ⟨n, hn, hbest⟩ := best?_cons d k ns
    obtain ⟨hmem, hnoWorse⟩ := Direction.isBest_iff.1 hbest
    rw [answerFrom, hn]
    show d.IsBest S n
    rw [Direction.isBest_iff]
    refine ⟨hpossible n hmem, fun v hv => ?_⟩
    obtain ⟨u, hu, huv⟩ := henough v hv
    exact (hnoWorse u hu).trans huv

/-! ## Cells -/

/-- The numbers are in one cell: no point separates them. -/
def Alike (points : List Int) (m n : Int) : Prop :=
  ∀ t ∈ points, (m < t ↔ n < t) ∧ (t < m ↔ t < n)

theorem Alike.tail {t : Int} {points : List Int} {m n : Int} (h : Alike (t :: points) m n) :
    Alike points m n :=
  fun u hu => h u (List.mem_cons_of_mem t hu)

theorem mem_withNeighbours {points : List Int} {m : Int} :
    m ∈ withNeighbours points ↔ ∃ t ∈ points, m = t - 1 ∨ m = t ∨ m = t + 1 := by
  simp [withNeighbours]

theorem best?_withNeighbours (d : Direction) (t : Int) (points : List Int) :
    ∃ n, best? d (withNeighbours (t :: points)) = some n ∧
      d.IsBest {m | m ∈ withNeighbours (t :: points)} n :=
  best?_cons d (t - 1) (t :: (t + 1) :: withNeighbours points)

/-- A step does not leave the cell if there is no point near. -/
theorem Alike.next {points : List Int} {m n : Int} (h : Alike points m n)
    (hfar : m ∉ withNeighbours points) {k : Int} (hk : k = m - 1 ∨ k = m + 1) :
    Alike points k n := by
  intro t ht
  have hnear : ¬ (m = t - 1 ∨ m = t ∨ m = t + 1) :=
    fun hnear => hfar (mem_withNeighbours.2 ⟨t, ht, hnear⟩)
  have := h t ht
  omega

/-- On the way from a number to better ones, the last number of its cell is next to a point, or the
end of the way. -/
theorem exists_alike (d : Direction) (points : List Int) {a n : Int} (h : d.NoWorse a n) :
    ∃ m, d.NoWorse a m ∧ d.NoWorse m n ∧ Alike points m n ∧
      (m = a ∨ m ∈ withNeighbours points) := by
  let cell : Set Int := {m | d.NoWorse a m ∧ d.NoWorse m n ∧ Alike points m n}
  have hn : n ∈ cell := ⟨h, d.noWorse_refl n, fun _ _ => ⟨Iff.rfl, Iff.rfl⟩⟩
  obtain ⟨m, hbest⟩ := Direction.exists_isBest (S := cell) (fun v hv => hv.1) ⟨n, hn⟩
  obtain ⟨⟨ham, hmn, halike⟩, hnoWorse⟩ := Direction.isBest_iff.1 hbest
  refine ⟨m, ham, hmn, halike, ?_⟩
  by_cases hend : m = a
  · exact Or.inl hend
  · right
    -- otherwise the next number on the way would be in the cell too
    by_contra hfar
    cases d with
    | least =>
      have hnext : m ≤ m - 1 := hnoWorse (m - 1)
        ⟨Int.le_sub_one_of_lt (lt_of_le_of_ne ham (Ne.symm hend)),
          (Int.sub_le_self m one_pos.le).trans hmn, halike.next hfar (Or.inl rfl)⟩
      omega
    | greatest =>
      have hnext : m + 1 ≤ m := hnoWorse (m + 1)
        ⟨Int.add_one_le_of_lt (lt_of_le_of_ne ham hend), le_trans hmn (Int.le_add_one le_rfl),
          halike.next hfar (Or.inr rfl)⟩
      omega

end Elementary

end DeadCast

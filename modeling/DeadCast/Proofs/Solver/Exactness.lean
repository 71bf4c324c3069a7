import DeadCast.Proofs.Solver.Optimum
import DeadCast.Proofs.Solver.Words
import Mathlib.Tactic

/-!
# The solver for one variable is exact

Wherever the solver does not give up, its answers are right (`Elementary.solver_right`).

A condition sees the variable through its comparisons only (`Formula.allHold_congr`).  Comparisons
of linear terms come out the same for numbers that the meeting points do not separate
(`linear_alike`).  Comparisons of wide words with constants come out the same for signed numbers of
one sign that the constants do not separate (`wide_alike`).  So whatever solves a guard has an alike
sample that solves it too and is no worse; or over the integers there is no end to the solutions.
-/

namespace DeadCast

/-! ## What is possible -/

section Possible

variable {κ ω α : Type}

/-- The values that an operand can have while every constraint of a guard is met: `meaning` says
what integer an operand stands for, and that is read as the domain says. -/
def Possible (domain : Domain) (meaning : ω → α → Int) (holds : κ → α → Prop) (operand : ω)
    (guard : List κ) : Set Int :=
  {v | ∃ a, (∀ c ∈ guard, holds c a) ∧ domain.reading (meaning operand a) = v}

/-- The values that an objective can have while every constraint of a guard is met. -/
def Objective.Attained (domain : Domain) (meaning : ω → α → Int) (holds : κ → α → Prop)
    (guard : List κ) (o : Objective ω) : Set Int :=
  {v | ∃ a, (∀ c ∈ guard, holds c a) ∧ o.value domain meaning a = v}

variable {domain : Domain} {meaning : ω → α → Int} {holds : κ → α → Prop} {operand : ω}
  {guard : List κ}

theorem possible_nonempty_iff :
    (Possible domain meaning holds operand guard).Nonempty ↔ ∃ a, ∀ c ∈ guard, holds c a := by
  constructor
  · rintro ⟨-, a, ha, -⟩
    exact ⟨a, ha⟩
  · rintro ⟨a, ha⟩
    exact ⟨_, a, ha, rfl⟩

/-- **The objective of an operand has the values of the operand**, words with their signs. -/
theorem Objective.attained_ofOperand {o : Objective ω} (h : ofOperand domain operand = some o) :
    o.Attained domain meaning holds guard = Possible domain meaning holds operand guard := by
  cases domain with
  | integers =>
    cases h
    rfl
  | words w =>
    cases h
    rfl
  | other => cases h

end Possible

/-! ## What a condition sees -/

/-- A relation sees the order of its two sides, with and without their signs. -/
theorem Relation.holds_congr {d : Domain} {a b a' b' : Int} (hlt : a < b ↔ a' < b')
    (hgt : b < a ↔ b' < a') (hslt : d.signed a < d.signed b ↔ d.signed a' < d.signed b')
    (hsgt : d.signed b < d.signed a ↔ d.signed b' < d.signed a') (r : Relation) :
    r.holds d a b = r.holds d a' b' := by
  rw [Bool.eq_iff_iff]
  cases r <;> simp only [holds, decide_eq_true_eq, beq_iff_eq, bne_iff_ne, ne_eq] <;> omega

namespace Formula

/-- The comparisons come out the same for both values of the variable. -/
def SameComparisons (d : Domain) (m n : Int) (comparisons : List (Term × Term)) : Prop :=
  ∀ p ∈ comparisons, ∀ r : Relation,
    r.holds d (p.1.value d m) (p.2.value d m) = r.holds d (p.1.value d n) (p.2.value d n)

mutual

theorem holds_congr {d : Domain} {m n : Int} :
    ∀ f : Formula, SameComparisons d m n f.comparisons → f.holds d m = f.holds d n
  | .const _, _ => rfl
  | .not f, h => by rw [holds, holds, holds_congr f h]
  | .all fs, h => by rw [holds, holds, allHold_congr fs h]
  | .any fs, h => by rw [holds, holds, anyHolds_congr fs h]
  | .compare r a b, h => h (a, b) List.mem_cons_self r

theorem allHold_congr {d : Domain} {m n : Int} :
    ∀ fs : List Formula, SameComparisons d m n (comparisonsOf fs) →
      allHold d m fs = allHold d n fs
  | [], _ => rfl
  | f :: fs, h => by
    rw [allHold, allHold,
      holds_congr f fun p hp => h p (List.mem_append_left _ hp),
      allHold_congr fs fun p hp => h p (List.mem_append_right _ hp)]

theorem anyHolds_congr {d : Domain} {m n : Int} :
    ∀ fs : List Formula, SameComparisons d m n (comparisonsOf fs) →
      anyHolds d m fs = anyHolds d n fs
  | [], _ => rfl
  | f :: fs, h => by
    rw [anyHolds, anyHolds,
      holds_congr f fun p hp => h p (List.mem_append_left _ hp),
      anyHolds_congr fs fun p hp => h p (List.mem_append_right _ hp)]

end

theorem allHold_iff {d : Domain} {n : Int} {fs : List Formula} :
    allHold d n fs = true ↔ ∀ f ∈ fs, f.holds d n = true := by
  induction fs with
  | nil => simp [allHold]
  | cons f fs ih => simp [allHold, ih]

end Formula

namespace Elementary

/-- The values that an objective can have under formulas. -/
def Values (domain : Domain) (guard : List Formula) (o : Objective Term) : Set Int :=
  o.Attained domain (Term.meaning domain) (fun f n => f.holds domain n = true) guard

theorem mem_values {domain : Domain} {guard : List Formula} {o : Objective Term} {v : Int} :
    v ∈ Values domain guard o ↔
      ∃ n, Formula.allHold domain n guard = true ∧ o.value domain (Term.meaning domain) n = v := by
  simp only [Formula.allHold_iff]
  rfl

/-- The answer from samples is right if each solution has a sample that solves the guard and has a
value that is no worse. -/
theorem samples_right {domain : Domain} {d : Direction} {guard : List Formula} {o : Objective Term}
    {value : Int → Int} (hvalue : ∀ n, o.value domain (Term.meaning domain) n = value n)
    {samples : List Int} (henough : ∀ n, Formula.allHold domain n guard = true →
      ∃ m ∈ samples, Formula.allHold domain m guard = true ∧ d.NoWorse (value m) (value n)) :
    (answerFrom d ((samples.filter (Formula.allHold domain · guard)).map value)).IsRight d
      (Values domain guard o) := by
  apply answerFrom_right
  · intro v hv
    obtain ⟨m, hm, rfl⟩ := List.mem_map.1 hv
    exact mem_values.2 ⟨m, (List.mem_filter.1 hm).2, hvalue m⟩
  · intro v hv
    obtain ⟨n, hn, rfl⟩ := mem_values.1 hv
    obtain ⟨m, hm, hsolves, hmn⟩ := henough n hn
    rw [hvalue]
    exact ⟨_, List.mem_map_of_mem (List.mem_filter.2 ⟨hm, hsolves⟩), hmn⟩

/-- What is collected from all members is collected from each. -/
theorem exists_of_mapM {α β : Type} {f : α → Option (List β)} {xs : List α} {ys : List (List β)}
    (h : xs.mapM f = some ys) : ∀ x ∈ xs, ∃ y, f x = some y ∧ ∀ t ∈ y, t ∈ ys.flatten := by
  induction xs generalizing ys with
  | nil => simp
  | cons x xs ih =>
    simp only [List.mapM_cons, Option.pure_def, Option.bind_eq_bind, Option.bind_eq_some_iff,
      Option.some.injEq] at h
    obtain ⟨first, hfirst, rest, hrest, rfl⟩ := h
    intro z hz
    rcases List.mem_cons.1 hz with rfl | hz
    · exact ⟨first, hfirst, fun t ht => by simp [ht]⟩
    · obtain ⟨y, hy, hsub⟩ := ih hrest z hz
      exact ⟨y, hy, fun t ht => by simp [hsub t ht]⟩

/-! ## Linear terms -/

/-- The value of a linear term. -/
def Linear.eval (p : Linear) (n : Int) : Int := p.slope * n + p.shift

theorem value_of_linear {t : Term} {p : Linear} (h : linear? t = some p) (n : Int) :
    t.value .integers n = p.eval n := by
  induction t generalizing p with
  | const c =>
    cases h
    simp [Term.value, Domain.wrap, Linear.eval]
  | x =>
    cases h
    simp [Term.value, Domain.wrap, Linear.eval]
  | neg a ih =>
    simp only [linear?, Option.bind_eq_bind, Option.bind_eq_some_iff, Option.pure_def,
      Option.some.injEq] at h
    obtain ⟨q, hq, rfl⟩ := h
    simp only [Term.value, Domain.wrap, ih hq, Linear.eval]
    ring
  | add a b iha ihb =>
    simp only [linear?, Option.bind_eq_bind, Option.bind_eq_some_iff, Option.pure_def,
      Option.some.injEq] at h
    obtain ⟨q, hq, r, hr, rfl⟩ := h
    simp only [Term.value, Domain.wrap, iha hq, ihb hr, Linear.eval]
    ring
  | sub a b iha ihb =>
    simp only [linear?, Option.bind_eq_bind, Option.bind_eq_some_iff, Option.pure_def,
      Option.some.injEq] at h
    obtain ⟨q, hq, r, hr, rfl⟩ := h
    simp only [Term.value, Domain.wrap, iha hq, ihb hr, Linear.eval]
    ring
  | mul a b iha ihb =>
    simp only [linear?, Option.bind_eq_bind, Option.bind_eq_some_iff, Option.pure_def] at h
    obtain ⟨q, hq, r, hr, h⟩ := h
    simp only [Term.value, Domain.wrap, iha hq, ihb hr, Linear.eval]
    -- a product is linear only if one factor is constant
    split at h
    · cases h
      simp [*]
      ring
    · split at h
      · cases h
        simp [*]
        ring
      · cases h
  | and a b _ _ => cases h
  | or a b _ _ => cases h
  | xor a b _ _ => cases h

/-- A multiple is on the same side of a number for all factors on one side of the quotient. -/
theorem mul_alike_of_pos {slope e m n : Int} (hslope : 0 < slope)
    (h : Alike [Int.fdiv e slope] m n) :
    (slope * m < e ↔ slope * n < e) ∧ (e < slope * m ↔ e < slope * n) := by
  obtain ⟨hlt, hgt⟩ := h _ List.mem_cons_self
  rw [Int.fdiv_eq_ediv_of_nonneg e hslope.le] at hlt hgt
  rcases lt_trichotomy m (e / slope) with hm | hm | hm
  · have hm' : m * slope < e := Int.mul_lt_of_lt_ediv hslope hm
    have hn' : n * slope < e := Int.mul_lt_of_lt_ediv hslope (hlt.1 hm)
    constructor <;> constructor <;> intro <;> linarith
  · have hmn : m = n := by omega
    simp [hmn]
  · have hm' : e < m * slope := Int.lt_mul_of_ediv_lt hslope hm
    have hn' : e < n * slope := Int.lt_mul_of_ediv_lt hslope (hgt.1 hm)
    constructor <;> constructor <;> intro <;> linarith

theorem mul_alike {slope e m n : Int} (hslope : slope ≠ 0) (h : Alike [Int.fdiv e slope] m n) :
    (slope * m < e ↔ slope * n < e) ∧ (e < slope * m ↔ e < slope * n) := by
  rcases lt_or_gt_of_ne hslope with hneg | hpos
  · rw [← Int.neg_fdiv_neg] at h
    have hflip := mul_alike_of_pos (neg_pos.2 hneg) h
    simp only [neg_mul, neg_lt_neg_iff] at hflip
    exact hflip.symm
  · exact mul_alike_of_pos hpos h

/-- Linear terms compare the same at numbers that their meeting point does not separate. -/
theorem linear_alike {p q : Linear} {m n : Int} (h : Alike (meeting p q) m n) :
    (p.eval m < q.eval m ↔ p.eval n < q.eval n) ∧ (q.eval m < p.eval m ↔ q.eval n < p.eval n) := by
  have hlt : ∀ k, p.eval k < q.eval k ↔ (p.slope - q.slope) * k < q.shift - p.shift := by
    intro k
    rw [sub_mul, Linear.eval, Linear.eval]
    omega
  have hgt : ∀ k, q.eval k < p.eval k ↔ q.shift - p.shift < (p.slope - q.slope) * k := by
    intro k
    rw [sub_mul, Linear.eval, Linear.eval]
    omega
  rw [hlt, hlt, hgt, hgt]
  by_cases hslope : p.slope - q.slope = 0
  · simp [hslope]
  · rw [meeting, if_neg hslope] at h
    exact mul_alike hslope h

/-- Numbers that the turning points do not separate solve the same guards. -/
theorem allHold_of_alike {guard : List Formula} {points : List Int}
    (h : turningPoints guard = some points) {m n : Int} (halike : Alike points m n) :
    Formula.allHold .integers m guard = Formula.allHold .integers n guard := by
  simp only [turningPoints, Option.bind_eq_bind, Option.bind_eq_some_iff, Option.pure_def,
    Option.some.injEq] at h
  obtain ⟨meetings, hmeetings, rfl⟩ := h
  apply Formula.allHold_congr
  rintro ⟨a, b⟩ hab r
  obtain ⟨near, hnear, hsub⟩ := exists_of_mapM hmeetings (a, b) hab
  simp only [Option.bind_eq_some_iff, Option.some.injEq] at hnear
  obtain ⟨p, hp, q, hq, rfl⟩ := hnear
  obtain ⟨hlt, hgt⟩ := linear_alike (fun t ht => halike t (hsub t ht))
  simp only [value_of_linear hp, value_of_linear hq]
  exact Relation.holds_congr (d := .integers) hlt hgt hlt hgt r

/-! ## The integers -/

/-- The other direction. -/
def opposite : Direction → Direction
  | .least => .greatest
  | .greatest => .least

/-- The direction of the variable in which an objective gets better. -/
def along (slope : Int) (d : Direction) : Direction := if slope < 0 then opposite d else d

/-- Better numbers have better values. -/
theorem noWorse_eval {d : Direction} {p : Linear} {m n : Int}
    (h : (along p.slope d).NoWorse m n) : d.NoWorse (p.eval m) (p.eval n) := by
  by_cases hneg : p.slope < 0
  · rw [along, if_pos hneg] at h
    cases d with
    | least => exact add_le_add_left (mul_le_mul_of_nonpos_left h hneg.le) _
    | greatest => exact add_le_add_left (mul_le_mul_of_nonpos_left h hneg.le) _
  · rw [along, if_neg hneg] at h
    cases d with
    | least => exact add_le_add_left (mul_le_mul_of_nonneg_left h (not_lt.1 hneg)) _
    | greatest => exact add_le_add_left (mul_le_mul_of_nonneg_left h (not_lt.1 hneg)) _

/-- Far enough out the values are better than any bound. -/
theorem exists_better_eval (d : Direction) {p : Linear} (hslope : p.slope ≠ 0) (s bound : Int) :
    ∃ n, (along p.slope d).NoWorse n s ∧ d.Better (p.eval n) bound := by
  obtain ⟨k, hk, hs, hs', hlow, hhigh⟩ : ∃ k : Int, 0 < k ∧ -k ≤ s ∧ s ≤ k ∧
      -k < bound - p.shift ∧ bound - p.shift < k :=
    ⟨|s| + |bound - p.shift| + 1, by positivity, by grind, by grind, by grind, by grind⟩
  unfold along
  rcases lt_or_gt_of_ne hslope with hneg | hpos
  · rw [if_pos hneg]
    have hfar : p.slope * k ≤ -k := by nlinarith
    cases d with
    | least =>
      refine ⟨k, hs', ?_⟩
      show p.slope * k + p.shift < bound
      omega
    | greatest =>
      refine ⟨-k, hs, ?_⟩
      show bound < p.slope * -k + p.shift
      rw [mul_neg]
      omega
  · rw [if_neg hpos.not_gt]
    have hfar : k ≤ p.slope * k := by nlinarith
    cases d with
    | least =>
      refine ⟨-k, hs, ?_⟩
      show p.slope * -k + p.shift < bound
      rw [mul_neg]
      omega
    | greatest =>
      refine ⟨k, hs', ?_⟩
      show bound < p.slope * k + p.shift
      omega

/-- Beyond the best sample there are no points. -/
theorem alike_of_noWorse_best {e : Direction} {points : List Int} {s : Int}
    (hs : e.IsBest {m | m ∈ withNeighbours points} s) {n : Int} (h : e.NoWorse n s) :
    Alike points n s := by
  intro t ht
  have hbest := (Direction.isBest_iff.1 hs).2
  have hleft := hbest (t - 1) (mem_withNeighbours.2 ⟨t, ht, Or.inl rfl⟩)
  have hright := hbest (t + 1) (mem_withNeighbours.2 ⟨t, ht, Or.inr (Or.inr rfl)⟩)
  cases e with
  | least =>
    simp only [Direction.NoWorse] at h hleft
    omega
  | greatest =>
    simp only [Direction.NoWorse] at h hright
    omega

/-- The optimum over the integers, with the best end of the variable as a direction. -/
theorem overIntegers_eq {d : Direction} {guard : List Formula} {operand : Term} {points : List Int}
    {p : Linear} (hpoints : turningPoints guard = some points) (hlinear : linear? operand = some p) :
    overIntegers d guard operand =
      if p.slope ≠ 0 ∧ (best? (along p.slope d) (withNeighbours (0 :: points))).any
          (Formula.allHold .integers · guard) = true then .unbounded
      else answerFrom d
        (((withNeighbours (0 :: points)).filter (Formula.allHold .integers · guard)).map p.eval) := by
  rw [overIntegers, hpoints, hlinear]
  cases d with
  | least => by_cases hneg : p.slope < 0 <;> simp only [along, hneg, if_true, if_false] <;> rfl
  | greatest => by_cases hneg : p.slope < 0 <;> simp only [along, hneg, if_true, if_false] <;> rfl

/-- A solution has a sample that is no worse, unless the best sample is a solution itself and the
objective changes. -/
theorem exists_integerSample {d : Direction} {guard : List Formula} {points : List Int} {p : Linear}
    (hpoints : turningPoints guard = some points) {s : Int}
    (hbest : (along p.slope d).IsBest {m | m ∈ withNeighbours (0 :: points)} s)
    (hflat : Formula.allHold .integers s guard = true → p.slope = 0) {n : Int}
    (hn : Formula.allHold .integers n guard = true) :
    ∃ m ∈ withNeighbours (0 :: points), Formula.allHold .integers m guard = true ∧
      d.NoWorse (p.eval m) (p.eval n) := by
  rcases (along p.slope d).noWorse_or_better s n with hsn | hns
  · obtain ⟨m, -, hmn, halike, hm⟩ := exists_alike (along p.slope d) (0 :: points) hsn
    have hsample : m ∈ withNeighbours (0 :: points) := by
      rcases hm with rfl | hm
      · exact hbest.mem
      · exact hm
    refine ⟨m, hsample, ?_, noWorse_eval hmn⟩
    rw [allHold_of_alike hpoints halike.tail, hn]
  · -- the solution is beyond the best sample, which is alike
    have hsolves : Formula.allHold .integers s guard = true := by
      rw [← allHold_of_alike hpoints (alike_of_noWorse_best hbest hns.noWorse).tail, hn]
    refine ⟨s, hbest.mem, hsolves, ?_⟩
    simp [Linear.eval, hflat hsolves, Direction.noWorse_refl]

/-- **Over the integers the answers are right.** -/
theorem overIntegers_right {d : Direction} {guard : List Formula} {o : Objective Term}
    (h : overIntegers d guard o.operand ≠ .undecided) :
    (overIntegers d guard o.operand).IsRight d (Values .integers guard o) := by
  cases hpoints : turningPoints guard with
  | none => simp [overIntegers, hpoints] at h
  | some points =>
    cases hlinear : linear? o.operand with
    | none => simp [overIntegers, hpoints, hlinear] at h
    | some p =>
      -- an integer is read as itself, with and without a sign
      have hvalue : ∀ n, o.value .integers (Term.meaning .integers) n = p.eval n := by
        intro n
        cases o <;> exact value_of_linear hlinear n
      obtain ⟨s, hs, hbest⟩ := best?_withNeighbours (along p.slope d) 0 points
      rw [overIntegers_eq hpoints hlinear, hs, Option.any_some]
      by_cases hout : p.slope ≠ 0 ∧ Formula.allHold .integers s guard = true
      · rw [if_pos hout]
        intro bound
        obtain ⟨n, hn, hbetter⟩ := exists_better_eval d hout.1 s bound
        refine ⟨p.eval n, mem_values.2 ⟨n, ?_, hvalue n⟩, hbetter⟩
        rw [allHold_of_alike hpoints (alike_of_noWorse_best hbest hn).tail, hout.2]
      · rw [if_neg hout]
        apply samples_right hvalue
        intro n hn
        apply exists_integerSample hpoints hbest _ hn
        intro hsolves
        by_contra hslope
        exact hout ⟨hslope, hsolves⟩

/-! ## Words -/

/-- Every word is the residue of its samples. -/
theorem wrap_mem_range (w : Nat) (n : Int) :
    Domain.wrap (.words w) n ∈ (List.range (Domain.wordCount w)).map Int.ofNat := by
  obtain ⟨hlow, hhigh⟩ := Domain.wrap_words_bounds w n
  rw [List.mem_map]
  refine ⟨(Domain.wrap (.words w) n).toNat, ?_, Int.toNat_of_nonneg hlow⟩
  rw [List.mem_range]
  zify
  rw [Domain.wordCount_eq, Int.toNat_of_nonneg hlow]
  exact hhigh

section Wide

variable {w : Nat}

/-- Integers of one residue solve the same guards. -/
theorem allHold_of_wrap_eq {m n : Int} (h : Domain.wrap (.words w) m = Domain.wrap (.words w) n)
    (guard : List Formula) :
    Formula.allHold (.words w) m guard = Formula.allHold (.words w) n guard := by
  rw [← Formula.allHold_wrap, h, Formula.allHold_wrap]

/-- The number is the signed reading of a word. -/
def IsSigned (w : Nat) (n : Int) : Prop :=
  -Domain.wordCount (w - 1) ≤ n ∧ n < Domain.wordCount (w - 1)

theorem isSigned_reading (hw : 0 < w) (n : Int) :
    IsSigned w (Domain.reading (.words w) n) := by
  have := Domain.reading_bounds hw n
  rw [IsSigned, Domain.wordCount_eq]
  omega

/-- Numbers of one sign that a constant does not separate compare the same with it. -/
theorem word_alike (hw : 0 < w) {m n c : Int} (hm : IsSigned w m) (hn : IsSigned w n)
    (hsign : m < 0 ↔ n < 0) (h : Alike [Domain.reading (.words w) c] m n) :
    (Domain.wrap (.words w) m < Domain.wrap (.words w) c ↔
        Domain.wrap (.words w) n < Domain.wrap (.words w) c) ∧
      (Domain.wrap (.words w) c < Domain.wrap (.words w) m ↔
        Domain.wrap (.words w) c < Domain.wrap (.words w) n) := by
  have hhalf := Domain.wordCount_half hw
  have hc := isSigned_reading hw c
  obtain ⟨hlt, hgt⟩ := h _ List.mem_cons_self
  rw [← Domain.wrap_reading w c, Domain.wrap_words_of_bounds hw hm,
    Domain.wrap_words_of_bounds hw hn, Domain.wrap_words_of_bounds hw hc]
  unfold IsSigned at hm hn hc
  split <;> split <;> split <;> omega

/-- Comparisons of the variable and constants come out the same for numbers of one sign that the
constants do not separate. -/
theorem wide_alike (hw : 0 < w) {a b : Term} {cs ds : List Int} (ha : constant? a = some cs)
    (hb : constant? b = some ds) {m n : Int} (hm : IsSigned w m) (hn : IsSigned w n)
    (hsign : m < 0 ↔ n < 0)
    (h : Alike ((cs ++ ds).map fun c => Domain.reading (.words w) c) m n) (r : Relation) :
    r.holds (.words w) (a.value (.words w) m) (b.value (.words w) m) =
      r.holds (.words w) (a.value (.words w) n) (b.value (.words w) n) := by
  have hread : ∀ k, IsSigned w k → Domain.signed (.words w) (Domain.wrap (.words w) k) = k :=
    fun k hk => Domain.reading_of_bounds hw hk
  cases a with
  | x =>
    cases b with
    | x => exact Relation.holds_congr (by simp) (by simp) (by simp) (by simp) r
    | const c =>
      cases ha
      cases hb
      obtain ⟨hlt, hgt⟩ := word_alike hw hm hn hsign h
      obtain ⟨hslt, hsgt⟩ := h _ List.mem_cons_self
      refine Relation.holds_congr hlt hgt ?_ ?_ r
      · simp only [hread m hm, hread n hn]
        exact hslt
      · simp only [hread m hm, hread n hn]
        exact hsgt
    | _ => cases hb
  | const c =>
    cases b with
    | x =>
      cases ha
      cases hb
      obtain ⟨hlt, hgt⟩ := word_alike hw hm hn hsign h
      obtain ⟨hslt, hsgt⟩ := h _ List.mem_cons_self
      refine Relation.holds_congr hgt hlt ?_ ?_ r
      · simp only [hread m hm, hread n hn]
        exact hsgt
      · simp only [hread m hm, hread n hn]
        exact hslt
    | const e => rfl
    | _ => cases hb
  | _ => cases ha

/-- The best number of the same sign. -/
def signEnd (w : Nat) (d : Direction) (n : Int) : Int :=
  match d with
  | .least => if n < 0 then -Domain.wordCount (w - 1) else 0
  | .greatest => if n < 0 then -1 else Domain.wordCount (w - 1) - 1

theorem signEnd_noWorse {d : Direction} {n : Int} (hn : IsSigned w n) :
    d.NoWorse (signEnd w d n) n := by
  obtain ⟨hlow, hhigh⟩ := hn
  cases d with
  | least =>
    show (if n < 0 then _ else _) ≤ n
    split <;> omega
  | greatest =>
    show n ≤ (if n < 0 then _ else _)
    split <;> omega

/-- On the way to the best number of the same sign the sign does not change. -/
theorem sign_of_between {d : Direction} {m n : Int} (hn : IsSigned w n)
    (hend : d.NoWorse (signEnd w d n) m) (hmn : d.NoWorse m n) :
    IsSigned w m ∧ (m < 0 ↔ n < 0) := by
  obtain ⟨hlow, hhigh⟩ := hn
  unfold IsSigned
  cases d with
  | least =>
    simp only [Direction.NoWorse, signEnd] at hend hmn
    split at hend <;> omega
  | greatest =>
    simp only [Direction.NoWorse, signEnd] at hend hmn
    split at hend <;> omega

theorem signEnd_mem (w : Nat) (d : Direction) (n : Int) :
    signEnd w d n ∈
      [-(Domain.wordCount (w - 1) : Int), (Domain.wordCount (w - 1) : Int) - 1, -1, 0] := by
  cases d <;> by_cases hn : n < 0 <;> simp [signEnd, hn]

/-- A neighbour of a signed reading stands for the word of a neighbour of the constant. -/
theorem exists_neighbour {constants : List Int} {m : Int}
    (h : m ∈ withNeighbours (constants.map fun c => Domain.reading (.words w) c)) :
    ∃ k ∈ withNeighbours constants, Domain.wrap (.words w) k = Domain.wrap (.words w) m := by
  obtain ⟨t, ht, hm⟩ := mem_withNeighbours.1 h
  obtain ⟨c, hc, rfl⟩ := List.mem_map.1 ht
  have hsame : c ≡ Domain.reading (.words w) c [ZMOD Domain.wordCount w] :=
    (Domain.wrap_reading w c).symm
  rcases hm with rfl | rfl | rfl
  · exact ⟨c - 1, mem_withNeighbours.2 ⟨c, hc, by simp⟩, hsame.sub_right 1⟩
  · exact ⟨c, mem_withNeighbours.2 ⟨c, hc, by simp⟩, hsame⟩
  · exact ⟨c + 1, mem_withNeighbours.2 ⟨c, hc, by simp⟩, hsame.add_right 1⟩

/-- The samples of wide words are enough. -/
theorem exists_wideSample (hw : 0 < w) {guard : List Formula} {samples : List Int}
    (h : wideSamples w guard = some samples) (d : Direction) {n : Int}
    (hn : Formula.allHold (.words w) n guard = true) :
    ∃ m ∈ samples, Formula.allHold (.words w) m guard = true ∧
      d.NoWorse (Domain.reading (.words w) m) (Domain.reading (.words w) n) := by
  simp only [wideSamples, Option.bind_eq_bind, Option.bind_eq_some_iff, Option.pure_def,
    Option.some.injEq] at h
  obtain ⟨constants, hconstants, rfl⟩ := h
  let half : Int := Domain.wordCount (w - 1)
  have hv := isSigned_reading hw n
  have hsolves := allHold_of_wrap_eq (Domain.wrap_reading w n) guard
  generalize Domain.reading (.words w) n = v at hv hsolves ⊢
  obtain ⟨m, hend, hmv, halike, hnear⟩ := exists_alike d
    (constants.flatten.map fun c => Domain.reading (.words w) c) (signEnd_noWorse hv)
  obtain ⟨hm, hsign⟩ := sign_of_between hv hend hmv
  have hmsolves : Formula.allHold (.words w) m guard = true := by
    rw [← hn, ← hsolves]
    apply Formula.allHold_congr
    rintro ⟨a, b⟩ hab r
    obtain ⟨near, hnear, hsub⟩ := exists_of_mapM hconstants (a, b) hab
    simp only [Option.bind_eq_some_iff, Option.some.injEq] at hnear
    obtain ⟨cs, hcs, ds, hds, rfl⟩ := hnear
    refine wide_alike hw hcs hds hm hv hsign (fun t ht => halike t ?_) r
    obtain ⟨c, hc, rfl⟩ := List.mem_map.1 ht
    exact List.mem_map_of_mem (hsub c hc)
  obtain ⟨k, hk, hwrap⟩ : ∃ k ∈ [-half, half - 1, -1, 0] ++ withNeighbours constants.flatten,
      Domain.wrap (.words w) k = Domain.wrap (.words w) m := by
    rcases hnear with rfl | hnear
    · exact ⟨_, List.mem_append_left _ (signEnd_mem w d v), rfl⟩
    · obtain ⟨k, hk, hwrap⟩ := exists_neighbour hnear
      exact ⟨k, List.mem_append_right _ hk, hwrap⟩
  refine ⟨k, hk, ?_, ?_⟩
  · rw [allHold_of_wrap_eq hwrap, hmsolves]
  · have hread : Domain.reading (.words w) k = m := by
      rw [← Domain.reading_of_bounds hw hm, Domain.reading, hwrap]
      rfl
    rw [hread]
    exact hmv

end Wide

/-- An objective sees the variable through its residue only. -/
theorem value_wrap (domain : Domain) (n : Int) (o : Objective Term) :
    o.value domain (Term.meaning domain) (domain.wrap n) =
      o.value domain (Term.meaning domain) n := by
  cases o <;> simp only [Objective.value, Term.meaning, Term.value_wrap]

/-- **Over words the answers are right.** -/
theorem overWords_right {w : Nat} {d : Direction} {guard : List Formula} {o : Objective Term}
    (h : overWords w d guard o ≠ .undecided) :
    (overWords w d guard o).IsRight d (Values (.words w) guard o) := by
  by_cases hnarrow : w ≤ narrow
  · simp only [overWords, if_pos hnarrow]
    apply samples_right fun _ => rfl
    intro n hn
    refine ⟨Domain.wrap (.words w) n, wrap_mem_range w n, ?_, ?_⟩
    · rw [Formula.allHold_wrap, hn]
    · rw [value_wrap]
      exact d.noWorse_refl _
  · simp only [overWords, if_neg hnarrow] at h ⊢
    split at h
    · rename_i samples hsamples
      split at hsamples
      · apply samples_right fun _ => rfl
        intro n hn
        simp only [Objective.value, Term.meaning, Term.value, Domain.wrap_wrap]
        exact exists_wideSample (by omega) hsamples d hn
      · cases hsamples
    · exact absurd rfl h

theorem answerFrom_ne_undecided (d : Direction) (values : List Int) :
    answerFrom d values ≠ .undecided := by
  unfold answerFrom
  split <;> simp

/-- Linear conditions over the integers are decided. -/
theorem solver_integers_decides {guard : List Formula} {o : Objective Term} {points : List Int}
    {p : Linear} (hpoints : turningPoints guard = some points) (hlinear : linear? o.operand = some p)
    (d : Direction) : (solver .integers).answer d guard o ≠ .undecided := by
  show overIntegers d guard o.operand ≠ .undecided
  rw [overIntegers_eq hpoints hlinear]
  split
  · simp
  · exact answerFrom_ne_undecided d _

/-- All conditions on narrow words are decided. -/
theorem solver_words_decides {w : Nat} (hw : w ≤ narrow) (guard : List Formula) (o : Objective Term)
    (d : Direction) : (solver (.words w)).answer d guard o ≠ .undecided := by
  simp only [solver, overWords, if_pos hw]
  exact answerFrom_ne_undecided d _

/-- **The solver is exact** wherever it does not give up. -/
theorem solver_right {domain : Domain} {d : Direction} {guard : List Formula} {o : Objective Term}
    (h : (solver domain).answer d guard o ≠ .undecided) :
    ((solver domain).answer d guard o).IsRight d (Values domain guard o) := by
  cases domain with
  | integers => exact overIntegers_right h
  | words w => exact overWords_right h
  | other => exact absurd rfl h

end Elementary

end DeadCast

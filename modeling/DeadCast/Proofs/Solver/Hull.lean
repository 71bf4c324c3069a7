import DeadCast.Proofs.Datum.Order
import DeadCast.Proofs.Number.Decimal
import DeadCast.Proofs.Solver.Exactness
import DeadCast.Proofs.Verdict
import Mathlib

/-!
# The range that a solver gives is the hull

The least and the greatest value of an operand come from two separate runs of a solver, and the
interval between them could be rejected as inverted.  If both answers are right
(`Answer.IsRight`), this does not happen: some value is possible, so the least does not pass the
greatest.  The interval then covers every possible value and ends at possible values or nowhere
(`Inquiry.outcome_of_right`).

One thing besides the constraints decides whether there is a range.  The solver is another program,
and the optimum is an integer of that program until it is handed over.  Here it is only assumed that
what is handed over is the right integer (`Solver.IsFaithful`).  If an end of the hull is not handed
over, there is no range; this happens to an integer that comes as a decimal numeral and is too long
(`Inquiry.range_of_long_end`).
-/

namespace DeadCast

/-- What the solver hands over is the integer itself; where it hands nothing over, that is no range
fault. -/
structure Solver.IsFaithful {κ ω : Type} (solver : Solver κ ω) : Prop where
  same : ∀ n m, solver.handOver n = .ok m → m = n
  not_range : ∀ n f, solver.handOver n ≠ .error (.range f)

/-! ## Edges -/

namespace Inquiry

/-- The edge that a direction has: the best number of the set, or none if there is no best one. -/
def IsEdge (d : Direction) (S : Set Int) : Option Int → Prop
  | some n => d.IsBest S n
  | none => d.IsOpen S

/-- A right answer about a set that is not empty becomes an edge, unless the number is not handed
over. -/
theorem edge_of_right {κ ω : Type} {solver : Solver κ ω} (hfaithful : solver.IsFaithful)
    {d : Direction} {S : Set Int} (hS : S.Nonempty) {a : Answer} (h : a.IsRight d S) (name : String) :
    (∃ e, edge solver.handOver name d a = .ok e ∧ IsEdge d S e ∧
      ∀ n, d.IsBest S n → solver.handOver n = .ok n) ∨
    ∃ n fault, d.IsBest S n ∧ solver.handOver n = .error fault ∧
      edge solver.handOver name d a = .error ([], .error fault) := by
  rcases h.cases with ⟨rfl, -⟩ | ⟨n, rfl, hn⟩ | ⟨rfl, hopen⟩
  · exact absurd hS Set.not_nonempty_empty
  · cases hhand : solver.handOver n with
    | ok m =>
      obtain rfl := hfaithful.same n m hhand
      refine Or.inl ⟨some m, by simp only [edge, hhand], hn, fun k hk => ?_⟩
      rw [hk.unique hn, hhand]
    | error fault => exact Or.inr ⟨n, fault, hn, hhand, by simp only [edge, hhand]⟩
  · exact Or.inl ⟨none, rfl, hopen, fun n hn => absurd hn (Direction.IsOpen.not_isBest hopen n)⟩

/-- The edges of a set that is not empty are not inverted. -/
theorem below_of_isEdge {S : Set Int} (hS : S.Nonempty) {lo hi : Option Int}
    (hlo : IsEdge .least S lo) (hhi : IsEdge .greatest S hi) : (lowerOf lo).Below (upperOf hi) := by
  obtain ⟨v, hv⟩ := hS
  rw [Lower.below_iff]
  refine ⟨v, ?_, ?_⟩
  · cases lo with
    | none => trivial
    | some a => exact hlo.2 hv
  · cases hi with
    | none => trivial
    | some b => exact hhi.2 hv

section OfObjective

variable {κ ω : Type} {solver : Solver κ ω} {timeout : Datum} {name : String} {o : Objective ω}
  {guard : List κ}

theorem range_of_edges {lo hi : Option Int}
    (hlo : edge solver.handOver name .least (solver.answer .least guard o) = .ok lo)
    (hhi : edge solver.handOver name .greatest (solver.answer .greatest guard o) = .ok hi)
    (h : (lowerOf lo).Below (upperOf hi)) :
    (ofObjective solver timeout name o guard).range =
      .ok (.ranges (.ofInterval ⟨lowerOf lo, upperOf hi, h⟩)) := by
  simp [ofObjective, hlo, hhi, Interval.between_of_below h, range, Except.mapError, Except.map]

theorem range_of_least_fault {fault : Fault} {log : List LogLine}
    (hlo : edge solver.handOver name .least (solver.answer .least guard o) =
      .error (log, .error fault)) :
    (ofObjective solver timeout name o guard).range = .error fault := by
  simp [ofObjective, hlo, range]

theorem range_of_greatest_fault {lo : Option Int} {fault : Fault} {log : List LogLine}
    (hlo : edge solver.handOver name .least (solver.answer .least guard o) = .ok lo)
    (hhi : edge solver.handOver name .greatest (solver.answer .greatest guard o) =
      .error (log, .error fault)) :
    (ofObjective solver timeout name o guard).range = .error fault := by
  simp [ofObjective, hlo, hhi, range]

end OfObjective

end Inquiry

/-! ## The hull -/

/-- The interval is the hull of a set: it covers the set, ends at members, and is open only on sides
on which the set has no end. -/
structure Interval.IsHull (i : Interval) (S : Set Int) : Prop where
  covers : ∀ v ∈ S, v ∈ i
  lo_mem : ∀ a, i.lo = .limit a → a ∈ S
  hi_mem : ∀ b, i.hi = .limit b → b ∈ S
  lo_open : i.lo = .unbounded → ∀ n, ∃ v ∈ S, v < n
  hi_open : i.hi = .unbounded → ∀ n, ∃ v ∈ S, n < v

namespace Inquiry

theorem isHull_of_isEdge {S : Set Int} {lo hi : Option Int} (hlo : IsEdge .least S lo)
    (hhi : IsEdge .greatest S hi) (h : (lowerOf lo).Below (upperOf hi)) :
    Interval.IsHull ⟨lowerOf lo, upperOf hi, h⟩ S where
  covers v hv := by
    rw [Interval.mem_iff]
    constructor
    · cases lo with
      | none => trivial
      | some a => exact hlo.2 hv
    · cases hi with
      | none => trivial
      | some b => exact hhi.2 hv
  lo_mem a ha := by
    cases lo with
    | none => cases ha
    | some _ => cases ha; exact hlo.1
  hi_mem b hb := by
    cases hi with
    | none => cases hb
    | some _ => cases hb; exact hhi.1
  lo_open hopen := by
    cases lo with
    | none => exact hlo
    | some _ => cases hopen
  hi_open hopen := by
    cases hi with
    | none => exact hhi
    | some _ => cases hopen

/-- What a range can be, given the set of values that are possible and the way integers are handed
over. -/
inductive Outcome (handOver : Int → Except Fault Int) (S : Set Int) : Except Fault Datum → Prop
  | nothing (hempty : S = ∅) : Outcome handOver S (.error (.range .unsatisfiable))
  | hull (i : Interval) (hi : i.IsHull S) (hS : S.Nonempty)
      (hleast : ∀ n, IsLeast S n → handOver n = .ok n)
      (hgreatest : ∀ n, IsGreatest S n → handOver n = .ok n) :
      Outcome handOver S (.ok (.ranges (.ofInterval i)))
  | least (n : Int) (fault : Fault) (hn : IsLeast S n) (hfault : handOver n = .error fault) :
      Outcome handOver S (.error fault)
  | greatest (n : Int) (fault : Fault) (hleast : ∀ n, IsLeast S n → handOver n = .ok n)
      (hn : IsGreatest S n) (hfault : handOver n = .error fault) : Outcome handOver S (.error fault)

/-- The range from right answers: nothing is possible, or the range is the hull, or an end of the
hull is not handed over. -/
theorem outcome_of_right {κ ω : Type} {solver : Solver κ ω} (hfaithful : solver.IsFaithful)
    {o : Objective ω} {guard : List κ} {S : Set Int}
    (hright : ∀ d, (solver.answer d guard o).IsRight d S) (timeout : Datum) (name : String) :
    Outcome solver.handOver S (ofObjective solver timeout name o guard).range := by
  rcases S.eq_empty_or_nonempty with hempty | hS
  · have hleast : solver.answer .least guard o = .unsatisfiable := by
      rcases (hright .least).cases with ⟨-, h⟩ | ⟨n, -, hn⟩ | ⟨-, hopen⟩
      · exact h
      · exact absurd hn.mem (by simp [hempty])
      · exact absurd hopen.nonempty (by simp [hempty])
    rw [range_of_least_fault (by rw [hleast]; rfl)]
    exact .nothing hempty
  · rcases edge_of_right hfaithful hS (hright .least) name with
      ⟨lo, hlo, hloEdge, hleast⟩ | ⟨n, fault, hn, hfault, hedge⟩
    · rcases edge_of_right hfaithful hS (hright .greatest) name with
        ⟨hi, hhi, hhiEdge, hgreatest⟩ | ⟨n, fault, hn, hfault, hedge⟩
      · have hbelow := below_of_isEdge hS hloEdge hhiEdge
        rw [range_of_edges hlo hhi hbelow]
        exact .hull _ (isHull_of_isEdge hloEdge hhiEdge hbelow) hS hleast hgreatest
      · rw [range_of_greatest_fault hlo hedge]
        exact .greatest n fault hleast hn hfault
    · rw [range_of_least_fault hedge]
      exact .least n fault hn hfault

namespace Outcome

variable {handOver : Int → Except Fault Int} {S : Set Int} {answer : Except Fault Datum}

theorem rangeFault_iff (h : Outcome handOver S answer)
    (hrange : ∀ n f, handOver n ≠ .error (.range f)) :
    (∃ f, answer = .error (.range f)) ↔ S = ∅ := by
  have hfault : ∀ {n fault}, handOver n = .error fault → n ∈ S →
      ((∃ f, (.error fault : Except Fault Datum) = .error (.range f)) ↔ S = ∅) := by
    intro n fault hn hmem
    constructor
    · rintro ⟨f, hf⟩
      exact absurd (hn.trans (by rw [Except.error.inj hf])) (hrange n f)
    · rintro rfl
      exact absurd hmem (Set.notMem_empty n)
  cases h with
  | nothing hempty => simp [hempty]
  | hull i hi hS _ _ => simp [hS.ne_empty]
  | least n fault hn hn' => exact hfault hn' hn.1
  | greatest n fault _ hn hn' => exact hfault hn' hn.1

theorem exists_hull (h : Outcome handOver S answer) (hS : S.Nonempty)
    (hends : ∀ n, IsLeast S n ∨ IsGreatest S n → ∃ m, handOver n = .ok m) :
    ∃ i : Interval, answer = .ok (.ranges (.ofInterval i)) ∧ i.IsHull S := by
  cases h with
  | nothing hempty => exact absurd hempty hS.ne_empty
  | hull i hi _ _ _ => exact ⟨i, rfl, hi⟩
  | least n fault hn hfault =>
    obtain ⟨m, hm⟩ := hends n (Or.inl hn)
    cases hfault.symm.trans hm
  | greatest n fault _ hn hfault =>
    obtain ⟨m, hm⟩ := hends n (Or.inr hn)
    cases hfault.symm.trans hm

theorem eq_of_least (h : Outcome handOver S answer) {n : Int} {fault : Fault} (hn : IsLeast S n)
    (hfault : handOver n = .error fault) : answer = .error fault := by
  cases h with
  | nothing hempty => exact absurd hn.1 (by simp [hempty])
  | hull i hi _ hleast _ => cases hfault.symm.trans (hleast n hn)
  | least m other hm hother =>
    rw [hn.unique hm, hother] at hfault
    rw [Except.error.inj hfault]
  | greatest _ _ hleast _ _ => cases hfault.symm.trans (hleast n hn)

theorem eq_of_greatest (h : Outcome handOver S answer) {n : Int} {fault : Fault}
    (hn : IsGreatest S n) (hfault : handOver n = .error fault)
    (hleast : ∀ m, IsLeast S m → ∃ k, handOver m = .ok k) : answer = .error fault := by
  cases h with
  | nothing hempty => exact absurd hn.1 (by simp [hempty])
  | hull i hi _ _ hgreatest => cases hfault.symm.trans (hgreatest n hn)
  | least m other hm hother =>
    obtain ⟨k, hk⟩ := hleast m hm
    cases hother.symm.trans hk
  | greatest m other _ hm hother =>
    rw [hn.unique hm, hother] at hfault
    rw [Except.error.inj hfault]

/-- A warning from the range is right. -/
theorem notMem_of_warn (h : Outcome handOver S answer) {values : List Int}
    (hasc : values.Pairwise (· ≤ ·)) {r : IntervalSet} (hr : answer = .ok (.ranges r))
    (hwarn : Verdict.decide values r = .warn) {v : Int} (hv : v ∈ S) : v ∉ values := by
  cases h with
  | nothing _ => cases hr
  | hull i hi _ _ _ =>
    cases hr
    intro hmem
    have hout := (Verdict.decide_eq_warn_iff hasc).1 hwarn v hmem
    exact hout ⟨i, List.mem_singleton_self i, hi.covers v hv⟩
  | least _ _ _ _ => cases hr
  | greatest _ _ _ _ _ => cases hr

end Outcome

/-- The outcome of a query about an operand that is an integer or a word. -/
theorem outcome_of_ask {κ ω α : Type} {meaning : ω → α → Int} {holds : κ → α → Prop}
    {domain : Domain} (hdomain : domain ≠ .other) {operand : ω} {guard : List κ} {solver : Solver κ ω}
    (hfaithful : solver.IsFaithful)
    (hexact : ∀ o, Objective.ofOperand domain operand = some o → ∀ d,
      (solver.answer d guard o).IsRight d (o.Attained domain meaning holds guard))
    (q : RangeQuery) (name : String) :
    Outcome solver.handOver (Possible domain meaning holds operand guard)
      (q.ask solver domain name operand guard).range := by
  cases ho : Objective.ofOperand domain operand with
  | none =>
    cases domain with
    | other => exact absurd rfl hdomain
    | integers => cases ho
    | words w => cases ho
  | some o =>
    rw [RangeQuery.ask, ho, ← Objective.attained_ofOperand ho]
    exact outcome_of_right hfaithful (hexact o ho) q.timeout name

/-- **Ranges from an exact solver are hulls.**  An operand of any form stands for an integer, or for
a word, that depends on the variable.  The solver is right about the least and the greatest value of
the objective that it is given, and what it hands over is the right integer.

There is a range fault exactly if no value of the variable meets the guard.  Otherwise the range is
one interval, the hull of what is possible, if the ends of the hull are handed over; the first end
that is not handed over is a fault of its own.  Words are read in two's complement.  A warning from
the range is right: nothing that is enumerated is possible. -/
theorem range_isHull {κ ω α : Type} (meaning : ω → α → Int) (holds : κ → α → Prop) {domain : Domain}
    (hdomain : domain ≠ .other) (operand : ω) (guard : List κ) (solver : Solver κ ω)
    (hfaithful : solver.IsFaithful)
    (hexact : ∀ o, Objective.ofOperand domain operand = some o → ∀ d,
      (solver.answer d guard o).IsRight d (o.Attained domain meaning holds guard))
    (q : RangeQuery) (name : String) :
    let S := Possible domain meaning holds operand guard
    let range := (q.ask solver domain name operand guard).range
    ((∃ f, range = .error (.range f)) ↔ ¬ ∃ a, ∀ c ∈ guard, holds c a) ∧
      ((∃ a, ∀ c ∈ guard, holds c a) →
        (∀ n, IsLeast S n ∨ IsGreatest S n → ∃ m, solver.handOver n = .ok m) →
        ∃ i : Interval, range = .ok (.ranges (.ofInterval i)) ∧ i.IsHull S) ∧
      (∀ n fault, IsLeast S n → solver.handOver n = .error fault → range = .error fault) ∧
      (∀ n fault, IsGreatest S n → solver.handOver n = .error fault →
        (∀ m, IsLeast S m → ∃ k, solver.handOver m = .ok k) → range = .error fault) ∧
      (∀ w, domain = .words w →
        S = {v | ∃ a, (∀ c ∈ guard, holds c a) ∧ (BitVec.ofInt w (meaning operand a)).toInt = v} ∧
        (0 < w → ∀ v ∈ S, -2 ^ (w - 1) ≤ v ∧ v ≤ 2 ^ (w - 1) - 1)) ∧
      (domain = .integers → S = {v | ∃ a, (∀ c ∈ guard, holds c a) ∧ meaning operand a = v}) ∧
      ∀ (values : List Int) (r : IntervalSet), values.Pairwise (· ≤ ·) → range = .ok (.ranges r) →
        Verdict.decide values r = .warn → ∀ v ∈ S, v ∉ values := by
  intro S range
  have houtcome : Outcome solver.handOver S range :=
    outcome_of_ask hdomain hfaithful hexact q name
  have hS : S.Nonempty ↔ ∃ a, ∀ c ∈ guard, holds c a := possible_nonempty_iff
  refine ⟨?_, ?_, ?_, ?_, ?_, ?_, ?_⟩
  · rw [houtcome.rangeFault_iff hfaithful.not_range, ← hS, Set.not_nonempty_iff_eq_empty]
  · exact fun hsolvable hends => houtcome.exists_hull (hS.2 hsolvable) hends
  · exact fun n fault hn hfault => houtcome.eq_of_least hn hfault
  · exact fun n fault hn hfault hleast => houtcome.eq_of_greatest hn hfault hleast
  · rintro w rfl
    refine ⟨?_, fun hw => ?_⟩
    · simp only [S, Possible, Domain.reading_words]
    · rintro v ⟨a, -, rfl⟩
      exact Domain.reading_bounds hw _
  · rintro rfl
    rfl
  · exact fun values r hasc hr hwarn v hv => houtcome.notMem_of_warn hasc hr hwarn hv

theorem isFaithful_solver (domain : Domain) : (Elementary.solver domain).IsFaithful where
  same n m h := by
    simp only [Elementary.solver, Elementary.fromNumeral] at h
    split at h
    · exact (Except.ok.inj h).symm
    · cases h
  not_range n f h := by
    simp only [Elementary.solver, Elementary.fromNumeral] at h
    split at h <;> cases h

/-- Words are handed over unless they are extremely wide. -/
theorem handOver_of_word {w : Nat} (hw : 2 ^ (w - 1) < 10 ^ digitLimit) {v : Int}
    (hv : -2 ^ (w - 1) ≤ v ∧ v ≤ 2 ^ (w - 1) - 1) (domain : Domain) :
    (Elementary.solver domain).handOver v = .ok v := by
  have hwritable : isWritable v = true := by
    rw [isWritable_iff]
    have hcast : ((2 ^ (w - 1) : Nat) : Int) = 2 ^ (w - 1) := by push_cast; rfl
    omega
  simp only [Elementary.solver, Elementary.fromNumeral, hwritable, if_true]

/-- Words that are at least `5` without a sign, and not `-2`. -/
def topWords : List Formula :=
  [.compare .unsignedGe .x (.const 5), .compare .ne .x (.const (-2))]

theorem range_isHull_topWords :
    let S := Possible (.words 3) (Term.meaning (.words 3))
      (fun (f : Formula) n => f.holds (.words 3) n = true) .x topWords
    let r := IntervalSet.ofInterval ⟨.limit (-3), .limit (-1), by decide⟩
    Elementary.rangeOf (.words 3) .x topWords = .ok (.ranges r) ∧
      (∃ i : Interval, Elementary.rangeOf (.words 3) .x topWords = .ok (.ranges (.ofInterval i)) ∧
        i.IsHull S) ∧
      Verdict.decide [-4, 0, 5] r = .warn ∧ ∀ v ∈ S, v ∉ [-4, 0, 5] := by
  intro S r
  obtain ⟨-, hhull, -, -, hwords, -, hwarn⟩ := range_isHull (Term.meaning (.words 3))
    (fun (f : Formula) n => f.holds (.words 3) n = true) (by decide) .x topWords
    (Elementary.solver (.words 3)) (isFaithful_solver _)
    (fun o _ d => Elementary.solver_right (Elementary.solver_words_decides (by decide) topWords o d))
    {} "x"
  have hgreat : 10 ^ 1 ≤ 10 ^ digitLimit := Nat.pow_le_pow_right (by decide) (by decide)
  have hhand : ∀ v ∈ S, (Elementary.solver (.words 3)).handOver v = .ok v := fun v hv =>
    handOver_of_word (w := 3) (by omega) ((hwords 3 rfl).2 (by decide) v hv) _
  have hrange : Elementary.rangeOf (.words 3) .x topWords = .ok (.ranges r) := by cbv
  have hr : Verdict.decide [-4, 0, 5] r = .warn :=
    (Verdict.decide_eq_warn_iff (by decide)).2 (by decide)
  refine ⟨hrange, hhull ⟨-1, by decide⟩ ?_, hr, hwarn _ r (by decide) hrange hr⟩
  rintro n (hn | hn)
  · exact ⟨n, hhand n hn.1⟩
  · exact ⟨n, hhand n hn.1⟩

/-- **An end that is too long.**  Both bounds of the variable can be written, but the operand is one
more and has a greatest value that cannot be.  The guard can be met and the solver is right, but
the greatest value is not handed over, and there is no range. -/
theorem range_of_long_end :
    let N : Int := (10 ^ digitLimit : Nat) - 1
    let guard : List Formula := [.compare .ge .x (.const 0), .compare .le .x (.const N)]
    let operand : Term := .add .x (.const 1)
    (∃ n, ∀ f ∈ guard, f.holds .integers n = true) ∧
      (∀ d, ((Elementary.solver .integers).answer d guard (.plain operand)).IsRight d
        (Elementary.Values .integers guard (.plain operand))) ∧
      ∃ digits, Elementary.rangeOf .integers operand guard = .error (.longNumeral digits) := by
  have hwritable := isWritable_iff
  have hpos : 0 < 10 ^ digitLimit := Nat.pow_pos (by decide)
  -- the power is never looked into
  generalize 10 ^ digitLimit = p at hwritable hpos ⊢
  intro N guard operand
  have hN : N = (p : Int) - 1 := rfl
  have hsolves : ∀ n, (∀ f ∈ guard, f.holds .integers n = true) ↔ 0 ≤ n ∧ n ≤ N := by
    intro n
    constructor
    · intro h
      exact ⟨of_decide_eq_true (h _ List.mem_cons_self),
        of_decide_eq_true (h _ (List.mem_cons_of_mem _ List.mem_cons_self))⟩
    · rintro ⟨hlow, hhigh⟩ f hf
      rcases List.mem_pair.1 hf with rfl | rfl
      · exact decide_eq_true hlow
      · exact decide_eq_true hhigh
  have hright : ∀ o, Objective.ofOperand .integers operand = some o → ∀ d,
      ((Elementary.solver .integers).answer d guard o).IsRight d
        (Elementary.Values .integers guard o) := by
    rintro o ⟨⟩ d
    exact Elementary.solver_right (Elementary.solver_integers_decides rfl rfl d)
  let S := Possible .integers (Term.meaning .integers)
    (fun (f : Formula) n => f.holds .integers n = true) operand guard
  have hleast : IsLeast S 1 := by
    refine ⟨⟨0, (hsolves 0).2 (by omega), rfl⟩, ?_⟩
    rintro v ⟨n, hn, rfl⟩
    have hn' := (hsolves n).1 hn
    show 1 ≤ n + 1
    omega
  have hgreatest : IsGreatest S p := by
    constructor
    · refine ⟨N, (hsolves N).2 (by omega), ?_⟩
      show N + 1 = p
      omega
    · rintro v ⟨n, hn, rfl⟩
      have hn' := (hsolves n).1 hn
      show n + 1 ≤ p
      omega
  have hlong : isWritable p = false := by
    rw [Bool.eq_false_iff, Ne, hwritable]
    omega
  have hfault : (Elementary.solver .integers).handOver p =
      .error (.longNumeral (Nat.repr (p : Int).natAbs).length) := by
    simp [Elementary.solver, Elementary.fromNumeral, hlong]
  refine ⟨⟨0, (hsolves 0).2 (by omega)⟩, hright _ rfl, (Nat.repr (p : Int).natAbs).length, ?_⟩
  refine (outcome_of_ask (by decide) (isFaithful_solver _) hright {} "x").eq_of_greatest hgreatest
    hfault fun m hm => ?_
  rw [hm.unique hleast]
  exact ⟨1, rfl⟩

end Inquiry

end DeadCast

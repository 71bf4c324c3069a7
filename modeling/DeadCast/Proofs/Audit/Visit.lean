import DeadCast.Audit.Basic
import DeadCast.Proofs.Enumeration.Catalogue
import Mathlib.Tactic

/-!
# How a visit ends

A visit asks the front end three things, one after the other: whether the target is an enumeration,
what its constants are, and which values the operand may have.  `FrontEnd.assess` is the third
answer as the checker takes it: no answer, a set of integers, or a fault, where an answer of the
wrong kind is a fault too.

`Desk.Ends` lists the ways in which a visit can end, each with the answers that lead to it and with
the desk that it leaves.  A visit ends in exactly the way that is listed (`Desk.ends_iff`), so what
holds of a visit is proved by going through the list, and never by opening its definition again.

The second half is about the parts of a desk that an end touches: the ledger grows by at most one
finding, the tally by at most one outcome, and only fetching touches the catalogue.
-/

namespace DeadCast

/-- Counting an outcome adds one to it and nothing to the others. -/
theorem Tally.get_count (t : Tally) (out other : Outcome) :
    (t.count out).get other = t.get other + if out = other then 1 else 0 := by
  cases out <;> cases other <;> rfl

section Visit

variable {τ ω π σ : Type}

/-! ## The answer about the operand -/

/-- What the front end says about the operand, as the checker takes it: nothing, a set of integers,
or a fault. -/
def FrontEnd.assess (front : FrontEnd τ ω π σ) (site : Site τ ω) (state : π) :
    Except Fault (Option IntervalSet) :=
  match front.rangeOf site.operand state with
  | .error f => .error f
  | .ok .unavailable => .ok none
  | .ok (.ranges r) => .ok (some r)
  | .ok other => .error (RangeFault.notRanges other).raised

theorem FrontEnd.assess_eq_some_iff {front : FrontEnd τ ω π σ} {site : Site τ ω} {state : π}
    {r : IntervalSet} :
    front.assess site state = .ok (some r) ↔
      front.rangeOf site.operand state = .ok (.ranges r) := by
  unfold assess
  split <;> simp_all

theorem FrontEnd.assess_eq_error {front : FrontEnd τ ω π σ} {site : Site τ ω} {state : π}
    {f : Fault} (h : front.rangeOf site.operand state = .error f) :
    front.assess site state = .error f := by
  simp [assess, h]

/-! ## The ends of a visit -/

namespace Desk

/-- The desk after the values of an enumeration were fetched. -/
def fetched (d : Desk σ) (front : FrontEnd τ ω π σ) (ref : EnumRef σ) : Desk σ :=
  { d with catalogue := (d.catalogue.fetch front.constants ref).catalogue }.note
    (d.catalogue.fetch front.constants ref).log

/-- How a visit ends, and what leads to that end. -/
inductive Ends (front : FrontEnd τ ω π σ) (o : Options) (site : Site τ ω) (state : π)
    (d : Desk σ) : Desk σ × Except Fault Outcome → Prop
  /-- The front end cannot tell what the target is. -/
  | unclassified {f : Fault} (htarget : front.classify site.target = .error f) :
    Ends front o site state d (d, .error f)
  | notEnum (htarget : front.classify site.target = .ok .notEnum) :
    Ends front o site state d (d.count .notEnum, .ok .notEnum)
  /-- The constants of the enumeration cannot be had. -/
  | unfetched {ref : EnumRef σ} {f : Fault}
    (htarget : front.classify site.target = .ok (.plainEnum ref))
    (hfetch : (d.catalogue.fetch front.constants ref).result = .error f) :
    Ends front o site state d (d.fetched front ref, .error f)
  /-- The front end fails on the operand. -/
  | failed {ref : EnumRef σ} {e : EnumValues σ} {f : Fault}
    (htarget : front.classify site.target = .ok (.plainEnum ref))
    (hfetch : (d.catalogue.fetch front.constants ref).result = .ok e)
    (hassess : front.assess site state = .error f) (hother : ∀ g, f ≠ .range g) :
    Ends front o site state d (d.fetched front ref, .error f)
  /-- The range information breaks its contract. -/
  | breached {ref : EnumRef σ} {e : EnumValues σ} {f : RangeFault}
    (htarget : front.classify site.target = .ok (.plainEnum ref))
    (hfetch : (d.catalogue.fetch front.constants ref).result = .ok e)
    (hassess : front.assess site state = .error (.range f)) :
    Ends front o site state d ((d.fetched front ref).breach o site f)
  | abstained {ref : EnumRef σ} {e : EnumValues σ}
    (htarget : front.classify site.target = .ok (.plainEnum ref))
    (hfetch : (d.catalogue.fetch front.constants ref).result = .ok e)
    (hassess : front.assess site state = .ok none) :
    Ends front o site state d
      (((d.fetched front ref).note [abstainLine site]).count .abstained, .ok .abstained)
  | safe {ref : EnumRef σ} {e : EnumValues σ} {r : IntervalSet}
    (htarget : front.classify site.target = .ok (.plainEnum ref))
    (hfetch : (d.catalogue.fetch front.constants ref).result = .ok e)
    (hassess : front.assess site state = .ok (some r))
    (hverdict : Verdict.decide e.values r = .safe) :
    Ends front o site state d ((d.fetched front ref).count .safe, .ok .safe)
  /-- The cast is dead, but the set cannot be put into words. -/
  | unwritable {ref : EnumRef σ} {e : EnumValues σ} {r : IntervalSet}
    (htarget : front.classify site.target = .ok (.plainEnum ref))
    (hfetch : (d.catalogue.fetch front.constants ref).result = .ok e)
    (hassess : front.assess site state = .ok (some r))
    (hverdict : Verdict.decide e.values r = .warn) (hwrite : r.isWritable = false) :
    Ends front o site state d ((d.fetched front ref).note [deadLine site e], .error .longInteger)
  | dead {ref : EnumRef σ} {e : EnumValues σ} {r : IntervalSet}
    (htarget : front.classify site.target = .ok (.plainEnum ref))
    (hfetch : (d.catalogue.fetch front.constants ref).result = .ok e)
    (hassess : front.assess site state = .ok (some r))
    (hverdict : Verdict.decide e.values r = .warn) (hwrite : r.isWritable = true) :
    Ends front o site state d
      (((d.fetched front ref).note [deadLine site e]).enter (deadCast o site e r) .warn)

variable {front : FrontEnd τ ω π σ} {o : Options} {site : Site τ ω} {state : π} {d : Desk σ}

/-- A visit to an enumeration goes by what is assessed. -/
theorem visit_of_fetch {ref : EnumRef σ} {e : EnumValues σ}
    (htarget : front.classify site.target = .ok (.plainEnum ref))
    (hfetch : (d.catalogue.fetch front.constants ref).result = .ok e) :
    d.visit front o site state =
      match front.assess site state with
      | .ok none =>
        (((d.fetched front ref).note [abstainLine site]).count .abstained, .ok .abstained)
      | .ok (some r) => (d.fetched front ref).settle o site e (.ranges r)
      | .error (.range f) => (d.fetched front ref).breach o site f
      | .error f => (d.fetched front ref, .error f) := by
  simp only [visit, htarget, hfetch, FrontEnd.assess, fetched]
  cases hrange : front.rangeOf site.operand state with
  | error f => cases f <;> rfl
  | ok answer =>
    cases answer with
    | unavailable => rfl
    | ranges r => rfl
    | _ =>
      -- an answer of the wrong kind is the same as its fault
      simp only [settle]
      generalize (RangeFault.notRanges _).raised = f
      cases f <;> rfl

/-- A visit ends in one of the ways listed. -/
theorem visit_ends : Ends front o site state d (d.visit front o site state) := by
  cases htarget : front.classify site.target with
  | error f =>
    have heq : d.visit front o site state = (d, .error f) := by simp only [visit, htarget]
    rw [heq]
    exact .unclassified htarget
  | ok kind =>
    cases kind with
    | notEnum =>
      have heq : d.visit front o site state = (d.count .notEnum, .ok .notEnum) := by
        simp only [visit, htarget]
      rw [heq]
      exact .notEnum htarget
    | plainEnum ref =>
      cases hfetch : (d.catalogue.fetch front.constants ref).result with
      | error f =>
        have heq : d.visit front o site state = (d.fetched front ref, .error f) := by
          simp only [visit, htarget, hfetch, fetched]
        rw [heq]
        exact .unfetched htarget hfetch
      | ok e =>
        rw [visit_of_fetch htarget hfetch]
        split
        · rename_i hassess
          exact .abstained htarget hfetch hassess
        · rename_i r hassess
          cases hverdict : Verdict.decide e.values r with
          | safe =>
            simp only [settle, hverdict]
            exact .safe htarget hfetch hassess hverdict
          | warn =>
            simp only [settle, hverdict]
            cases hwrite : r.isWritable with
            | false => exact .unwritable htarget hfetch hassess hverdict hwrite
            | true => exact .dead htarget hfetch hassess hverdict hwrite
        · rename_i f hassess
          exact .breached htarget hfetch hassess
        · rename_i f hother hassess
          exact .failed htarget hfetch hassess hother

/-- The answers of the front end determine the end. -/
theorem Ends.visit_eq {result : Desk σ × Except Fault Outcome}
    (h : Ends front o site state d result) : d.visit front o site state = result := by
  cases h with
  | unclassified htarget => simp only [visit, htarget]
  | notEnum htarget => simp only [visit, htarget]
  | unfetched htarget hfetch => simp only [visit, htarget, hfetch, fetched]
  | failed htarget hfetch hassess hother =>
    rw [visit_of_fetch htarget hfetch, hassess]
    split <;> simp_all
  | breached htarget hfetch hassess => rw [visit_of_fetch htarget hfetch, hassess]
  | abstained htarget hfetch hassess => rw [visit_of_fetch htarget hfetch, hassess]
  | safe htarget hfetch hassess hverdict =>
    rw [visit_of_fetch htarget hfetch, hassess]
    simp only [settle, hverdict]
  | unwritable htarget hfetch hassess hverdict hwrite =>
    rw [visit_of_fetch htarget hfetch, hassess]
    simp [settle, hverdict, hwrite]
  | dead htarget hfetch hassess hverdict hwrite =>
    rw [visit_of_fetch htarget hfetch, hassess]
    simp [settle, hverdict, hwrite]

/-- **The ends of a visit.**  A visit comes to a result exactly if the list gives that result. -/
theorem ends_iff {result : Desk σ × Except Fault Outcome} :
    Ends front o site state d result ↔ d.visit front o site state = result := by
  constructor
  · exact Ends.visit_eq
  · rintro rfl
    exact visit_ends

/-! ## The parts of a desk -/

@[simp]
theorem catalogue_note (d : Desk σ) (lines : List LogLine) :
    (d.note lines).catalogue = d.catalogue := rfl

@[simp]
theorem ledger_note (d : Desk σ) (lines : List LogLine) : (d.note lines).ledger = d.ledger := rfl

@[simp]
theorem tally_note (d : Desk σ) (lines : List LogLine) : (d.note lines).tally = d.tally := rfl

@[simp]
theorem log_note (d : Desk σ) (lines : List LogLine) :
    (d.note lines).log = d.log ++ lines := rfl

@[simp]
theorem catalogue_count (d : Desk σ) (out : Outcome) :
    (d.count out).catalogue = d.catalogue := rfl

@[simp]
theorem ledger_count (d : Desk σ) (out : Outcome) : (d.count out).ledger = d.ledger := rfl

@[simp]
theorem tally_count (d : Desk σ) (out : Outcome) :
    (d.count out).tally = d.tally.count out := rfl

@[simp]
theorem log_count (d : Desk σ) (out : Outcome) : (d.count out).log = d.log := rfl

@[simp]
theorem catalogue_fetched (d : Desk σ) (front : FrontEnd τ ω π σ) (ref : EnumRef σ) :
    (d.fetched front ref).catalogue = (d.catalogue.fetch front.constants ref).catalogue := rfl

@[simp]
theorem ledger_fetched (d : Desk σ) (front : FrontEnd τ ω π σ) (ref : EnumRef σ) :
    (d.fetched front ref).ledger = d.ledger := rfl

@[simp]
theorem tally_fetched (d : Desk σ) (front : FrontEnd τ ω π σ) (ref : EnumRef σ) :
    (d.fetched front ref).tally = d.tally := rfl

@[simp]
theorem log_fetched (d : Desk σ) (front : FrontEnd τ ω π σ) (ref : EnumRef σ) :
    (d.fetched front ref).log = d.log ++ (d.catalogue.fetch front.constants ref).log := rfl

/-- A ledger that keeps repetitions takes every finding. -/
theorem enter_of_keeps {d : Desk σ} (h : d.ledger.dropRepeats = false) (f : Finding)
    (out : Outcome) :
    d.enter f out =
      ({ d with ledger := { d.ledger with findings := d.ledger.findings ++ [f] } }.count out,
        .ok out) := by
  simp [enter, Ledger.emit, h]

/-- A breach of contract that is not to be reported is only counted. -/
theorem breach_of_silent {d : Desk σ} (h : o.reportFaults.isTrue = false) (f : RangeFault) :
    d.breach o site f = ((d.note [faultLine site f]).count .contractFault, .ok .contractFault) := by
  simp [breach, h]

/-- A finding leaves the catalogue alone, whether or not the ledger takes it. -/
theorem catalogue_enter (d : Desk σ) (f : Finding) (out : Outcome) :
    (d.enter f out).1.catalogue = d.catalogue := by
  unfold enter
  split <;> rfl

theorem catalogue_breach (d : Desk σ) (o : Options) (site : Site τ ω) (f : RangeFault) :
    (d.breach o site f).1.catalogue = d.catalogue := by
  unfold breach
  split
  · exact catalogue_enter _ _ _
  · rfl

/-- A visit touches the catalogue only by fetching the values of its target. -/
theorem catalogue_visit (front : FrontEnd τ ω π σ) (o : Options) (site : Site τ ω) (state : π)
    (d : Desk σ) :
    (d.visit front o site state).1.catalogue = d.catalogue ∨
      ∃ ref, front.classify site.target = .ok (.plainEnum ref) ∧
        (d.visit front o site state).1.catalogue =
          (d.catalogue.fetch front.constants ref).catalogue := by
  generalize hvisit : d.visit front o site state = result
  cases ends_iff.2 hvisit with
  | unclassified htarget => exact Or.inl rfl
  | notEnum htarget => exact Or.inl rfl
  | unfetched htarget hfetch => exact Or.inr ⟨_, htarget, rfl⟩
  | failed htarget hfetch hassess hother => exact Or.inr ⟨_, htarget, rfl⟩
  | breached htarget hfetch hassess => exact Or.inr ⟨_, htarget, catalogue_breach _ _ _ _⟩
  | abstained htarget hfetch hassess => exact Or.inr ⟨_, htarget, rfl⟩
  | safe htarget hfetch hassess hverdict => exact Or.inr ⟨_, htarget, rfl⟩
  | unwritable htarget hfetch hassess hverdict hwrite => exact Or.inr ⟨_, htarget, rfl⟩
  | dead htarget hfetch hassess hverdict hwrite =>
    exact Or.inr ⟨_, htarget, catalogue_enter _ _ _⟩

theorem outcome_enter {d : Desk σ} {f : Finding} {out out' : Outcome}
    (h : (d.enter f out).2 = .ok out') : out' = out := by
  unfold enter at h
  split at h
  · exact (Except.ok.inj h).symm
  · cases h

theorem outcome_breach {d : Desk σ} {f : RangeFault} {out : Outcome}
    (h : (d.breach o site f).2 = .ok out) : out = .contractFault := by
  unfold breach at h
  split at h
  · exact outcome_enter h
  · exact (Except.ok.inj h).symm

/-- **Where a warning comes from.**  The target is an enumeration, its values are there, the operand
has a range, and the verdict on these is a warning. -/
theorem visit_eq_warn (h : (d.visit front o site state).2 = .ok .warn) :
    ∃ ref e r, front.classify site.target = .ok (.plainEnum ref) ∧
      (d.catalogue.fetch front.constants ref).result = .ok e ∧
      front.assess site state = .ok (some r) ∧ Verdict.decide e.values r = .warn := by
  generalize hvisit : d.visit front o site state = result at h
  cases ends_iff.2 hvisit with
  | unclassified htarget => cases h
  | notEnum htarget => cases h
  | unfetched htarget hfetch => cases h
  | failed htarget hfetch hassess hother => cases h
  | breached htarget hfetch hassess => cases outcome_breach h
  | abstained htarget hfetch hassess => cases h
  | safe htarget hfetch hassess hverdict => cases h
  | unwritable htarget hfetch hassess hverdict hwrite => cases h
  | dead htarget hfetch hassess hverdict hwrite =>
    exact ⟨_, _, _, htarget, hfetch, hassess, hverdict⟩

/-! ## Many visits -/

/-- The desk after visits, one after the other; a visit that ends in a fault does not stop them. -/
def afterVisits (front : FrontEnd τ ω π σ) (o : Options) (d : Desk σ) :
    List (Site τ ω × π) → Desk σ
  | [] => d
  | (site, state) :: rest => afterVisits front o (d.visit front o site state).1 rest

/-- What every visit keeps holds after all of them. -/
theorem afterVisits_induction {front : FrontEnd τ ω π σ} {o : Options} (P : Desk σ → Prop)
    (hstep : ∀ d site state, P d → P (d.visit front o site state).1) :
    ∀ (visits : List (Site τ ω × π)) (d : Desk σ), P d → P (d.afterVisits front o visits) := by
  intro visits
  induction visits with
  | nil =>
    intro d h
    exact h
  | cons v rest ih =>
    intro d h
    exact ih _ (hstep d v.1 v.2 h)

end Desk

end Visit

end DeadCast

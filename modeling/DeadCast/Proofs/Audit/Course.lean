import DeadCast.Proofs.Audit.Visit
import DeadCast.Proofs.Finding.Ledger
import Mathlib.Tactic

/-!
# The course of a visit

Tally and ledger come in only at the very end of a visit.  What is before that depends on the
catalogue and on the answers of the front end, and on nothing else of the desk: which values are
fetched, which lines are logged, and how the visit is about to end.  `Catalogue.course` is that
part, and an `Ending` is one of three things: a fault, an outcome that is only counted, or a finding
that is offered to the ledger together with the outcome that it stands for.

`Desk.visit_eq_follow` says that a visit is its course followed by `Desk.conclude`.  So whatever is
about tally and ledger is proved for three endings and not for nine ends of a visit, and whatever is
about catalogues does not mention tally and ledger at all.  Of many visits, `Catalogue.endings` lists
the endings, and all findings in them were offered to the ledger (`Desk.ledger_afterVisits`).
-/

namespace DeadCast

/-! ## Endings -/

/-- How a visit is about to end. -/
inductive Ending where
  | failing (f : Fault)
  /-- The outcome is only counted. -/
  | counted (out : Outcome)
  /-- The finding is offered to the ledger, and counts as the outcome. -/
  | reported (f : Finding) (out : Outcome)

namespace Ending

/-- What is offered to the ledger. -/
def findings : Ending → List Finding
  | .reported f _ => [f]
  | _ => []

/-- What the visit comes to, at a desk whose ledger drops repetitions or not. -/
def result (drops : Bool) : Ending → Except Fault Outcome
  | .failing f => .error f
  | .counted out => .ok out
  | .reported f out => if !drops || f.key.isHashable then .ok out else .error (.unhashable "list")

/-- The endings that a visit can have: a warning is always reported, a breach of contract exactly if
the options ask for it, and no other outcome ever. -/
inductive Regular (o : Options) : Ending → Prop
  | failing (f : Fault) : Regular o (.failing f)
  | quiet {out : Outcome} (hwarn : out ≠ .warn) (hbreach : out ≠ .contractFault) :
    Regular o (.counted out)
  | silentBreach (hsilent : o.reportFaults.isTrue = false) : Regular o (.counted .contractFault)
  | breach {f : Finding} (hid : f.id = rangeFaultId) (hreport : o.reportFaults.isTrue = true) :
    Regular o (.reported f .contractFault)
  | dead {f : Finding} (hid : f.id = deadCastId) : Regular o (.reported f .warn)

end Ending

/-- A visit up to the point where tally and ledger come in. -/
structure Course (σ : Type) where
  catalogue : Catalogue σ
  log : List LogLine
  ending : Ending

section Visit

variable {τ ω π σ : Type}

/-- How a visit goes on once the values of the target are there, by the answer about the operand. -/
def endingWith (o : Options) (site : Site τ ω) (e : EnumValues σ) :
    Except Fault (Option IntervalSet) → List LogLine × Ending
  | .ok none => ([abstainLine site], .counted .abstained)
  | .ok (some r) =>
    match Verdict.decide e.values r with
    | .safe => ([], .counted .safe)
    | .warn =>
      ([deadLine site e],
        if r.isWritable then .reported (deadCast o site e r) .warn else .failing .longInteger)
  | .error (.range f) =>
    ([faultLine site f],
      if o.reportFaults.isTrue then .reported (rangeFault site f) .contractFault
      else .counted .contractFault)
  | .error f => ([], .failing f)

/-- The course of a visit at a desk with this catalogue. -/
def Catalogue.course (cat : Catalogue σ) (front : FrontEnd τ ω π σ) (o : Options)
    (site : Site τ ω) (state : π) : Course σ :=
  match front.classify site.target with
  | .error f => ⟨cat, [], .failing f⟩
  | .ok .notEnum => ⟨cat, [], .counted .notEnum⟩
  | .ok (.plainEnum ref) =>
    let step := cat.fetch front.constants ref
    match step.result with
    | .error f => ⟨step.catalogue, step.log, .failing f⟩
    | .ok e =>
      let rest := endingWith o site e (front.assess site state)
      ⟨step.catalogue, step.log ++ rest.1, rest.2⟩

namespace Desk

/-- Ends a visit. -/
def conclude (d : Desk σ) : Ending → Desk σ × Except Fault Outcome
  | .failing f => (d, .error f)
  | .counted out => (d.count out, .ok out)
  | .reported f out => d.enter f out

/-- Takes over what the course of a visit did, and ends it. -/
def follow (d : Desk σ) (c : Course σ) : Desk σ × Except Fault Outcome :=
  ({ d with catalogue := c.catalogue }.note c.log).conclude c.ending

variable {front : FrontEnd τ ω π σ} {o : Options} {site : Site τ ω} {state : π} {d : Desk σ}

theorem follow_course_of_fetch {ref : EnumRef σ} {e : EnumValues σ}
    (htarget : front.classify site.target = .ok (.plainEnum ref))
    (hfetch : (d.catalogue.fetch front.constants ref).result = .ok e) :
    d.follow (d.catalogue.course front o site state) =
      ((d.fetched front ref).note (endingWith o site e (front.assess site state)).1).conclude
        (endingWith o site e (front.assess site state)).2 := by
  simp only [follow, Catalogue.course, htarget, hfetch, fetched, note, List.append_assoc]

/-- **A visit is its course and then its end.** -/
theorem visit_eq_follow (front : FrontEnd τ ω π σ) (o : Options) (site : Site τ ω) (state : π)
    (d : Desk σ) :
    d.visit front o site state = d.follow (d.catalogue.course front o site state) := by
  have hnote : ∀ d : Desk σ, d.note [] = d := by simp [note]
  generalize hvisit : d.visit front o site state = result
  cases ends_iff.2 hvisit with
  | unclassified htarget => simp only [follow, Catalogue.course, htarget, hnote, conclude]
  | notEnum htarget => simp only [follow, Catalogue.course, htarget, hnote, conclude]
  | unfetched htarget hfetch =>
    simp only [follow, Catalogue.course, htarget, hfetch, conclude, fetched]
  | @failed ref e f htarget hfetch hassess hother =>
    have hending : endingWith o site e (.error f) = ([], .failing f) := by
      cases f <;> simp_all [endingWith]
    rw [follow_course_of_fetch htarget hfetch, hassess, hending, hnote]
    rfl
  | breached htarget hfetch hassess =>
    rw [follow_course_of_fetch htarget hfetch, hassess]
    cases hreport : o.reportFaults.isTrue <;> simp [endingWith, breach, conclude, hreport]
  | abstained htarget hfetch hassess =>
    rw [follow_course_of_fetch htarget hfetch, hassess]
    rfl
  | safe htarget hfetch hassess hverdict =>
    rw [follow_course_of_fetch htarget hfetch, hassess]
    simp only [endingWith, hverdict, hnote, conclude]
  | unwritable htarget hfetch hassess hverdict hwrite =>
    rw [follow_course_of_fetch htarget hfetch, hassess]
    simp [endingWith, hverdict, hwrite, conclude]
  | dead htarget hfetch hassess hverdict hwrite =>
    rw [follow_course_of_fetch htarget hfetch, hassess]
    simp [endingWith, hverdict, hwrite, conclude]

/-! ## What an ending does to the desk -/

/-- The result depends on the kind of the ledger, and on nothing else of the desk. -/
theorem result_conclude (d : Desk σ) (e : Ending) :
    (d.conclude e).2 = e.result d.ledger.dropRepeats := by
  cases e with
  | failing f => rfl
  | counted out => rfl
  | reported f out =>
    have hresult : (Ending.reported f out).result d.ledger.dropRepeats =
        if d.ledger.takes f then .ok out else .error (.unhashable "list") := rfl
    rw [hresult]
    rcases d.ledger.emit_cases f with
      ⟨htakes, heq⟩ | ⟨htakes, -, -, heq⟩ | ⟨htakes, -, heq⟩ | ⟨htakes, -, heq⟩ <;>
      simp [conclude, enter, heq, htakes]

theorem ledger_conclude (d : Desk σ) (e : Ending) :
    (d.conclude e).1.ledger = e.findings.foldl Ledger.offer d.ledger := by
  cases e with
  | failing f => rfl
  | counted out => rfl
  | reported f out =>
    simp only [conclude, enter, Ending.findings, List.foldl_cons, List.foldl_nil, Ledger.offer]
    cases d.ledger.emit f <;> rfl

/-- A visit that comes to an outcome counts it, and one that ends in a fault counts nothing. -/
theorem tally_conclude (d : Desk σ) (e : Ending) :
    (d.conclude e).1.tally =
      match (d.conclude e).2 with
      | .ok out => d.tally.count out
      | .error _ => d.tally := by
  cases e with
  | failing f => rfl
  | counted out => rfl
  | reported f out =>
    simp only [conclude, enter]
    cases d.ledger.emit f <;> rfl

theorem catalogue_conclude (d : Desk σ) (e : Ending) :
    (d.conclude e).1.catalogue = d.catalogue := by
  cases e with
  | failing f => rfl
  | counted out => rfl
  | reported f out => exact catalogue_enter d f out

/-! ## What a visit does to the desk -/

variable (front o site state d)

theorem result_visit :
    (d.visit front o site state).2 =
      (d.catalogue.course front o site state).ending.result d.ledger.dropRepeats := by
  rw [visit_eq_follow, follow, result_conclude]
  rfl

theorem ledger_visit :
    (d.visit front o site state).1.ledger =
      (d.catalogue.course front o site state).ending.findings.foldl Ledger.offer d.ledger := by
  rw [visit_eq_follow, follow, ledger_conclude]
  rfl

theorem tally_visit :
    (d.visit front o site state).1.tally =
      match (d.visit front o site state).2 with
      | .ok out => d.tally.count out
      | .error _ => d.tally := by
  rw [visit_eq_follow, follow, tally_conclude]
  rfl

theorem catalogue_visit_eq :
    (d.visit front o site state).1.catalogue = (d.catalogue.course front o site state).catalogue := by
  rw [visit_eq_follow, follow, catalogue_conclude]
  rfl

theorem dropRepeats_visit :
    (d.visit front o site state).1.ledger.dropRepeats = d.ledger.dropRepeats := by
  rw [ledger_visit]
  cases (d.catalogue.course front o site state).ending with
  | failing f => rfl
  | counted out => rfl
  | reported f out => exact Ledger.dropRepeats_offer _ _

end Desk

/-- **The endings of visits are regular.** -/
theorem Catalogue.regular_course (cat : Catalogue σ) (front : FrontEnd τ ω π σ) (o : Options)
    (site : Site τ ω) (state : π) : (cat.course front o site state).ending.Regular o := by
  have hwith : ∀ (e : EnumValues σ) (answer : Except Fault (Option IntervalSet)),
      (endingWith o site e answer).2.Regular o := by
    intro e answer
    unfold endingWith
    split
    · exact .quiet (by decide) (by decide)
    · split
      · exact .quiet (by decide) (by decide)
      · split
        · exact .dead rfl
        · exact .failing _
    · split
      · rename_i hreport
        exact .breach rfl hreport
      · rename_i hsilent
        exact .silentBreach (by simpa using hsilent)
    · exact .failing _
  unfold course
  split
  · exact .failing _
  · exact .quiet (by decide) (by decide)
  · dsimp only
    split
    · exact .failing _
    · exact hwith _ _

/-- What holds of all kept values, and of those that may be worked out for the target, holds of all
that are kept after the visit. -/
theorem Catalogue.course_forall {cat : Catalogue σ} {front : FrontEnd τ ω π σ} {site : Site τ ω}
    (P : Datum → EnumValues σ → Prop) (hkept : ∀ entry ∈ cat.entries, P entry.1 entry.2)
    (hbuilt : ∀ ref found, front.classify site.target = .ok (.plainEnum ref) →
      front.constants ref >>= Datum.items = .ok found → P ref.key (.ofConstants ref found))
    (o : Options) (state : π) :
    ∀ entry ∈ (cat.course front o site state).catalogue.entries, P entry.1 entry.2 := by
  unfold course
  split
  · exact hkept
  · exact hkept
  · rename_i ref htarget
    have hfetched := (fetch_forall P hkept fun found => hbuilt ref found htarget).1
    dsimp only
    split
    · exact hfetched
    · exact hfetched

/-! ## Many visits -/

/-- How visits end that are made one after the other. -/
def Catalogue.endings (front : FrontEnd τ ω π σ) (o : Options) (cat : Catalogue σ) :
    List (Site τ ω × π) → List Ending
  | [] => []
  | v :: rest =>
    (cat.course front o v.1 v.2).ending ::
      endings front o (cat.course front o v.1 v.2).catalogue rest

theorem Catalogue.regular_endings (front : FrontEnd τ ω π σ) (o : Options)
    (visits : List (Site τ ω × π)) :
    ∀ cat : Catalogue σ, ∀ e ∈ cat.endings front o visits, e.Regular o := by
  induction visits with
  | nil =>
    intro cat e he
    cases he
  | cons v rest ih =>
    intro cat e he
    rcases List.mem_cons.1 he with rfl | hrest
    · exact cat.regular_course front o v.1 v.2
    · exact ih _ e hrest

namespace Desk

variable {front : FrontEnd τ ω π σ}

theorem dropRepeats_afterVisits (o : Options) (visits : List (Site τ ω × π)) (d : Desk σ) :
    (d.afterVisits front o visits).ledger.dropRepeats = d.ledger.dropRepeats := by
  refine afterVisits_induction (fun d' => d'.ledger.dropRepeats = d.ledger.dropRepeats) ?_ visits d
    rfl
  intro d' site state hd'
  rw [dropRepeats_visit, hd']

/-- The ledger after visits has been offered all their findings, one after the other. -/
theorem ledger_afterVisits (o : Options) (visits : List (Site τ ω × π)) :
    ∀ d : Desk σ, (d.afterVisits front o visits).ledger =
      ((d.catalogue.endings front o visits).flatMap Ending.findings).foldl Ledger.offer
        d.ledger := by
  induction visits with
  | nil =>
    intro d
    rfl
  | cons v rest ih =>
    intro d
    rw [afterVisits, ih, ledger_visit, catalogue_visit_eq, Catalogue.endings, List.flatMap_cons,
      List.foldl_append]

end Desk

end Visit

end DeadCast

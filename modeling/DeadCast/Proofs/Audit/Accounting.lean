import DeadCast.Proofs.Audit.Course
import DeadCast.Proofs.Audit.Warning
import Mathlib

/-!
# The books of an audit

Visits are made one after the other at one desk whose ledger keeps repetitions, and the front end
may answer whatever it likes each time.  Then the books balance after every visit
(`Desk.Balanced`): the tally counts the visits that came to an outcome, and the ledger has one
finding for every warning, one for every breach of contract if the options ask for it, and no
others.

Faults are contained (`Desk.Contains`).  Range information that breaks its contract is counted as
such: it is never taken for a verdict, and it never ends the visit in a fault.  Every other fault
ends the visit and leaves tally and ledger as they were.
-/

namespace DeadCast

variable {τ ω π σ : Type}

/-- A visit that is asked for, and the front end as it answers at that time. -/
structure Call (τ ω π σ : Type) where
  front : FrontEnd τ ω π σ
  site : Site τ ω
  state : π

namespace Tally

/-- How many outcomes were counted. -/
def total (t : Tally) : Nat := (Outcome.all.map t.get).sum

theorem total_count (t : Tally) (out : Outcome) : (t.count out).total = t.total + 1 := by
  cases out <;> simp [total, Outcome.all, get, count] <;> omega

theorem ext_get {t t' : Tally} (h : ∀ out, t.get out = t'.get out) : t = t' := by
  cases t
  cases t'
  rw [mk.injEq]
  exact ⟨h .notEnum, h .abstained, h .safe, h .warn, h .contractFault⟩

end Tally

/-- Did the visit come to this outcome? -/
def cameTo (out : Outcome) : Except Fault Outcome → Bool
  | .ok other => other == out
  | .error _ => false

/-- The findings of an ending are those that its outcome calls for. -/
theorem Ending.Regular.findings_spec {o : Options} {e : Ending} (h : e.Regular o) :
    e.findings.countP (·.id == deadCastId) = [e.result false].countP (cameTo .warn) ∧
      (e.findings.countP (·.id == rangeFaultId) =
        if o.reportFaults.isTrue then [e.result false].countP (cameTo .contractFault) else 0) ∧
      ∀ f ∈ e.findings, f.id = deadCastId ∨ f.id = rangeFaultId := by
  have hids : deadCastId ≠ rangeFaultId := by decide
  cases h with
  | failing f => simp [findings, result, cameTo]
  | quiet hwarn hbreach => simp [findings, result, cameTo, hwarn, hbreach]
  | silentBreach hsilent => simp [findings, result, cameTo, hsilent]
  | breach hid hreport => simp [findings, result, cameTo, hid, hreport, hids.symm]
  | dead hid => simp [findings, result, cameTo, hid, hids]

namespace Desk

/-- A visit adds what it came to. -/
theorem get_tally_visit (front : FrontEnd τ ω π σ) (o : Options) (site : Site τ ω) (state : π)
    (d : Desk σ) (out : Outcome) :
    (d.visit front o site state).1.tally.get out =
      d.tally.get out + [(d.visit front o site state).2].countP (cameTo out) := by
  rw [tally_visit]
  cases (d.visit front o site state).2 with
  | error f => rfl
  | ok other => simp [Tally.get_count, cameTo]

/-- Makes visits one after the other, and says what each of them came to.  A visit that ends in a
fault does not stop the others. -/
def visitEach (o : Options) (d : Desk σ) :
    List (Call τ ω π σ) → Desk σ × List (Except Fault Outcome)
  | [] => (d, [])
  | call :: rest =>
    let step := d.visit call.front o call.site call.state
    let more := visitEach o step.1 rest
    (more.1, step.2 :: more.2)

/-! ## Balance -/

/-- The books agree with what the visits so far came to. -/
structure Balanced (o : Options) (d : Desk σ) (results : List (Except Fault Outcome)) : Prop where
  keeps : d.ledger.dropRepeats = false
  /-- All that is counted are the visits that came to an outcome, -/
  total : d.tally.total = results.countP Except.isOk
  /-- each under its own outcome. -/
  each : ∀ out, d.tally.get out = results.countP (cameTo out)
  dead : d.ledger.findings.countP (·.id == deadCastId) = d.tally.get .warn
  breaches : d.ledger.findings.countP (·.id == rangeFaultId) =
    if o.reportFaults.isTrue then d.tally.get .contractFault else 0
  others : ∀ f ∈ d.ledger.findings, f.id = deadCastId ∨ f.id = rangeFaultId

theorem balanced_new (o : Options) (cat : Catalogue σ) :
    Balanced o ({ catalogue := cat } : Desk σ) [] where
  keeps := rfl
  total := rfl
  each := by
    intro out
    cases out <;> rfl
  dead := rfl
  breaches := by
    split
    · rfl
    · rfl
  others := by
    intro f hf
    cases hf

/-- **One visit** keeps the balance. -/
theorem Balanced.visit {o : Options} {d : Desk σ} {results : List (Except Fault Outcome)}
    (h : Balanced o d results) (call : Call τ ω π σ) :
    Balanced o (d.visit call.front o call.site call.state).1
      (results ++ [(d.visit call.front o call.site call.state).2]) := by
  have hkeeps := dropRepeats_visit call.front o call.site call.state d
  have hledger := ledger_visit call.front o call.site call.state d
  have htally := tally_visit call.front o call.site call.state d
  have hgrown := get_tally_visit call.front o call.site call.state d
  have hresult := result_visit call.front o call.site call.state d
  have hregular := d.catalogue.regular_course call.front o call.site call.state
  rw [h.keeps] at hkeeps hresult
  generalize (d.catalogue.course call.front o call.site call.state).ending = ending at *
  generalize d.visit call.front o call.site call.state = step at *
  have hfindings : step.1.ledger.findings = d.ledger.findings ++ ending.findings := by
    rw [hledger, Ledger.findings_foldl_offer h.keeps]
  obtain ⟨d', result⟩ := step
  obtain rfl : result = ending.result false := hresult
  obtain ⟨hdead, hbreaches, hothers⟩ := hregular.findings_spec
  dsimp only at hgrown
  refine ⟨hkeeps, ?_, ?_, ?_, ?_, ?_⟩
  · rw [htally, List.countP_append, ← h.total]
    cases ending.result false with
    | error f => rfl
    | ok out => exact Tally.total_count d.tally out
  · intro out
    rw [hgrown, h.each, List.countP_append]
  · rw [hfindings, List.countP_append, h.dead, hdead, hgrown]
  · rw [hfindings, List.countP_append, h.breaches, hbreaches, hgrown]
    split
    · rfl
    · rfl
  · intro f hf
    rw [hfindings] at hf
    rcases List.mem_append.1 hf with hold | hnew
    · exact h.others f hold
    · exact hothers f hnew

/-- **Any number of visits** keeps the balance. -/
theorem Balanced.visitEach {o : Options} (calls : List (Call τ ω π σ)) :
    ∀ {d : Desk σ} {results : List (Except Fault Outcome)}, Balanced o d results →
      Balanced o (d.visitEach o calls).1 (results ++ (d.visitEach o calls).2) := by
  induction calls with
  | nil =>
    intro d results h
    rw [show results ++ (d.visitEach o ([] : List (Call τ ω π σ))).2 = results from
      List.append_nil results]
    exact h
  | cons call rest ih =>
    intro d results h
    have hrest := ih (h.visit call)
    rw [List.append_assoc] at hrest
    exact hrest

/-! ## Containment -/

/-- How the desk takes one more visit when something goes wrong. -/
structure Contains (o : Options) (d : Desk σ) (call : Call τ ω π σ) : Prop where
  /-- There is a verdict only on a set of integers, -/
  verdict : ∀ out, out = .safe ∨ out = .warn →
    (d.visit call.front o call.site call.state).2 = .ok out →
    ∃ r, call.front.rangeOf call.site.operand call.state = .ok (.ranges r)
  /-- a breach of contract, as the range query finds it or as the verdict does, is counted, -/
  breach : ∀ ref e f, call.front.classify call.site.target = .ok (.plainEnum ref) →
    (d.catalogue.fetch call.front.constants ref).result = .ok e →
    call.front.assess call.site call.state = .error (.range f) →
    (d.visit call.front o call.site call.state).2 = .ok .contractFault
  /-- a breach that ends the visit is one of the declarations, not of the operand, -/
  escape : ∀ f, (d.visit call.front o call.site call.state).2 = .error (.range f) →
    call.front.classify call.site.target = .error (.range f) ∨
      ∃ ref, call.front.classify call.site.target = .ok (.plainEnum ref) ∧
        call.front.constants ref = .error (.range f)
  /-- and a fault leaves the books alone. -/
  unchanged : ∀ f, (d.visit call.front o call.site call.state).2 = .error f →
    (d.visit call.front o call.site call.state).1.tally = d.tally ∧
      (d.visit call.front o call.site call.state).1.ledger = d.ledger

variable {front : FrontEnd τ ω π σ} {o : Options} {site : Site τ ω} {state : π} {d : Desk σ}

/-- A verdict is one on a set of integers. -/
theorem ranges_of_verdict {out : Outcome} (hout : out = .safe ∨ out = .warn)
    (h : (d.visit front o site state).2 = .ok out) :
    ∃ r, front.rangeOf site.operand state = .ok (.ranges r) := by
  generalize hvisit : d.visit front o site state = result at h
  cases ends_iff.2 hvisit with
  | unclassified htarget => cases h
  | notEnum htarget =>
    cases h
    rcases hout with hsafe | hwarn
    · cases hsafe
    · cases hwarn
  | unfetched htarget hfetch => cases h
  | failed htarget hfetch hassess hother => cases h
  | breached htarget hfetch hassess =>
    obtain rfl := outcome_breach h
    rcases hout with hsafe | hwarn
    · cases hsafe
    · cases hwarn
  | abstained htarget hfetch hassess =>
    cases h
    rcases hout with hsafe | hwarn
    · cases hsafe
    · cases hwarn
  | safe htarget hfetch hassess hverdict => exact ⟨_, FrontEnd.assess_eq_some_iff.1 hassess⟩
  | unwritable htarget hfetch hassess hverdict hwrite => cases h
  | dead htarget hfetch hassess hverdict hwrite =>
    exact ⟨_, FrontEnd.assess_eq_some_iff.1 hassess⟩

/-- A ledger that keeps repetitions never stands in the way of an outcome. -/
theorem result_breach_of_keeps (hkeeps : d.ledger.dropRepeats = false) (f : RangeFault) :
    (d.breach o site f).2 = .ok .contractFault := by
  have hnoted : (d.note [faultLine site f]).ledger.dropRepeats = false := hkeeps
  simp only [Desk.breach, enter_of_keeps hnoted]
  split
  · rfl
  · rfl

/-- Constants that cannot be had because of a breach of contract: the front end said so itself. -/
theorem constants_of_fetch_range {cat : Catalogue σ} {ref : EnumRef σ} {f : RangeFault}
    (h : (cat.fetch front.constants ref).result = .error (.range f)) :
    front.constants ref = .error (.range f) := by
  rcases cat.fetch_cases front.constants ref with
    ⟨-, heq⟩ | ⟨-, e, -, heq⟩ | ⟨-, -, g, hg, heq⟩ | ⟨-, -, found, -, heq⟩
  · rw [heq] at h
    cases h
  · rw [heq] at h
    cases h
  · rw [heq] at h
    cases h
    cases hconstants : front.constants ref with
    | error g =>
      rw [hconstants] at hg
      cases hg
      rfl
    | ok answer =>
      -- what has no items is another fault
      rw [hconstants] at hg
      cases answer <;> cases hg
  · rw [heq] at h
    cases h

/-- A breach of contract that ends a visit is one of the declarations. -/
theorem declarations_of_range (hkeeps : d.ledger.dropRepeats = false) {f : RangeFault}
    (h : (d.visit front o site state).2 = .error (.range f)) :
    front.classify site.target = .error (.range f) ∨
      ∃ ref, front.classify site.target = .ok (.plainEnum ref) ∧
        front.constants ref = .error (.range f) := by
  generalize hvisit : d.visit front o site state = result at h
  cases ends_iff.2 hvisit with
  | unclassified htarget =>
    cases h
    exact Or.inl htarget
  | notEnum htarget => cases h
  | unfetched htarget hfetch =>
    cases h
    exact Or.inr ⟨_, htarget, constants_of_fetch_range hfetch⟩
  | failed htarget hfetch hassess hother =>
    cases h
    exact absurd rfl (hother f)
  | breached htarget hfetch hassess =>
    rw [result_breach_of_keeps (by simpa using hkeeps)] at h
    cases h
  | abstained htarget hfetch hassess => cases h
  | safe htarget hfetch hassess hverdict => cases h
  | unwritable htarget hfetch hassess hverdict hwrite => cases h
  | dead htarget hfetch hassess hverdict hwrite =>
    rw [enter_of_keeps (by simpa using hkeeps)] at h
    cases h

/-- A visit that ends in a fault leaves tally and ledger as they were, of whatever kind the ledger
is. -/
theorem books_of_error {f : Fault} (h : (d.visit front o site state).2 = .error f) :
    (d.visit front o site state).1.tally = d.tally ∧
      (d.visit front o site state).1.ledger = d.ledger := by
  refine ⟨by rw [tally_visit, h], ?_⟩
  rw [visit_eq_follow, follow] at h ⊢
  cases hending : (d.catalogue.course front o site state).ending with
  | failing g => rfl
  | counted out =>
    rw [hending] at h
    cases h
  | reported finding out =>
    rw [hending] at h
    simp only [conclude, enter] at h ⊢
    split
    · rename_i l hl
      rw [hl] at h
      cases h
    · rfl

theorem contains_of_keeps (hkeeps : d.ledger.dropRepeats = false) (call : Call τ ω π σ) :
    Contains o d call where
  verdict := fun _ hout h => ranges_of_verdict hout h
  breach := by
    intro ref e f htarget hfetch hassess
    rw [(Ends.breached htarget hfetch hassess).visit_eq]
    have hfetched : (d.fetched call.front ref).ledger.dropRepeats = false := hkeeps
    exact result_breach_of_keeps hfetched f
  escape := fun _ h => declarations_of_range hkeeps h
  unchanged := fun _ h => books_of_error h

/-- **The books balance and faults are contained.**  Visits are made at a new desk, with any
catalogue, with any front ends, and whether or not some of them end in a fault.  After every one of
them the tally and the ledger agree with what the visits came to, and the next visit, whatever it
is, comes to a verdict only on a set of integers, counts a breach of contract by the operand as
such, and leaves the books alone if it ends in a fault. -/
theorem books_balance (cat : Catalogue σ) (o : Options) (calls : List (Call τ ω π σ)) :
    let start : Desk σ := { catalogue := cat }
    Balanced o (start.visitEach o calls).1 (start.visitEach o calls).2 ∧
      ∀ call : Call τ ω π σ, Contains o (start.visitEach o calls).1 call := by
  intro start
  have hbalanced := (balanced_new o cat).visitEach calls
  rw [List.nil_append] at hbalanced
  exact ⟨hbalanced, fun call => contains_of_keeps hbalanced.keeps call⟩

/-- A cast whose operand is not tracked, one for which the front end gives a list and no set, and one
whose target it cannot tell. -/
theorem books_balance_threeCalls :
    let o : Options := { reportFaults := .bool true }
    let site : Site Unit Unit := { target := (), operand := () }
    let front := FrontEnd.single [some 1] .fiveToNine
    let calls : List (Call Unit Unit Unit Unit) := [
      ⟨{ front with rangeOf := fun _ _ => .ok .unavailable }, site, ()⟩,
      ⟨{ front with rangeOf := fun _ _ => .ok (.list []) }, site, ()⟩,
      ⟨{ front with classify := fun _ => .error (.range .empty) }, site, ()⟩]
    let results := [.ok .abstained, .ok .contractFault, .error (.range .empty)]
    (({} : Desk Unit).visitEach o calls).2 = results ∧
      Balanced o (({} : Desk Unit).visitEach o calls).1 results := by
  intro o site front calls results
  have hresults : (({} : Desk Unit).visitEach o calls).2 = results := rfl
  have hbalanced := (books_balance {} o calls).1
  rw [hresults] at hbalanced
  exact ⟨hresults, hbalanced⟩

end Desk

end DeadCast

import DeadCast.Proofs.Audit.Accounting
import Mathlib

/-!
# Visits do not depend on what was visited before

The visits of a run share a catalogue, and a visit may find there what an earlier one has put in,
under a key that equals its own.  That makes no difference as long as the front end is consistent:
equal keys mean constants that agree (`FrontEnd.Consistent`).  Then all kept values are those that
would be worked out now (`Catalogue.Coherent`), so every visit takes the course that it takes with
an empty catalogue, up to the evidence of its finding (`Catalogue.Coherent.ending`); the evidence
has the name under which the enumeration was first fetched.

Hence a visit comes to what it would come to at a new desk, whatever was visited before, and visits
in another order leave the same tally, the same findings up to order and evidence, and the same keys
in a ledger that drops repetitions (`Desk.visits_independent`).
-/

namespace DeadCast

/-! ## Endings up to evidence -/

/-- The finding without what a tool behind the checker may want to know. -/
def Finding.withoutEvidence (f : Finding) : Finding := { f with evidence := [] }

namespace Ending

/-- The ending without the evidence of its finding. -/
def withoutEvidence : Ending → Ending
  | .reported f out => .reported f.withoutEvidence out
  | e => e

theorem findings_withoutEvidence (e : Ending) :
    e.withoutEvidence.findings = e.findings.map Finding.withoutEvidence := by
  cases e <;> rfl

theorem result_withoutEvidence (drops : Bool) (e : Ending) :
    e.withoutEvidence.result drops = e.result drops := by
  cases e <;> rfl

end Ending

section Visit

variable {τ ω π σ : Type}

/-- Only the evidence tells which of two enumerations with the same values a cast was checked
against. -/
theorem endingWith_withoutEvidence (o : Options) (site : Site τ ω) {e e' : EnumValues σ}
    (h : e'.values = e.values) (answer : Except Fault (Option IntervalSet)) :
    (endingWith o site e' answer).2.withoutEvidence =
      (endingWith o site e answer).2.withoutEvidence := by
  cases answer with
  | error f => cases f <;> rfl
  | ok range =>
    cases range with
    | none => rfl
    | some r =>
      simp only [endingWith, h]
      cases Verdict.decide e.values r with
      | safe => rfl
      | warn => cases r.isWritable <;> rfl

/-! ## Consistent front ends -/

/-- Both answers are faults, or they have the same integers in the same places; what stands in the
other places makes no difference. -/
inductive ConstantsAgree : Except Fault (List Datum) → Except Fault (List Datum) → Prop
  | failed (f g : Fault) : ConstantsAgree (.error f) (.error g)
  | found {a b : List Datum} (h : a.map Datum.integer? = b.map Datum.integer?) :
    ConstantsAgree (.ok a) (.ok b)

/-- Enumerations with equal keys have constants that agree. -/
def FrontEnd.Consistent (front : FrontEnd τ ω π σ) : Prop :=
  ∀ s t a b, front.classify s = .ok (.plainEnum a) → front.classify t = .ok (.plainEnum b) →
    a.key.sameKey b.key = true →
    ConstantsAgree (front.constants a >>= Datum.items) (front.constants b >>= Datum.items)

/-- The values are worked out from what the front end says about one of its enumerations. -/
def EnumValues.FoundBy (front : FrontEnd τ ω π σ) (key : Datum) (e : EnumValues σ) : Prop :=
  ∃ t ref found, front.classify t = .ok (.plainEnum ref) ∧ key = ref.key ∧
    front.constants ref >>= Datum.items = .ok found ∧ e = .ofConstants ref found

/-- All kept values are those that the front end would give now. -/
def Catalogue.Coherent (cat : Catalogue σ) (front : FrontEnd τ ω π σ) : Prop :=
  ∀ entry ∈ cat.entries, EnumValues.FoundBy front entry.1 entry.2

/-- Constants that agree have the same values. -/
theorem EnumValues.values_congr (ref ref' : EnumRef σ) {a b : List Datum}
    (h : a.map Datum.integer? = b.map Datum.integer?) :
    (ofConstants ref' b).values = (ofConstants ref a).values := by
  have hvalues : ∀ ds : List Datum, ds.filterMap Datum.integer? =
      (ds.map Datum.integer?).filterMap id := by
    intro ds
    simp [List.filterMap_map]
  simp only [ofConstants, hvalues, h]

namespace Catalogue

variable {front : FrontEnd τ ω π σ} {cat : Catalogue σ} {t : τ} {ref : EnumRef σ}

theorem coherent_empty (front : FrontEnd τ ω π σ) : ({} : Catalogue σ).Coherent front := by
  intro entry hentry
  cases hentry

/-- A visit keeps the catalogue coherent. -/
theorem Coherent.course (h : cat.Coherent front) (o : Options) (site : Site τ ω) (state : π) :
    (cat.course front o site state).catalogue.Coherent front := by
  refine course_forall (EnumValues.FoundBy front) h ?_ o state
  intro ref found htarget hfound
  exact ⟨site.target, ref, found, htarget, rfl, hfound, rfl⟩

/-- What is kept under a key is what would be worked out now. -/
theorem Coherent.values_of_find? (h : cat.Coherent front) (hfront : front.Consistent)
    (ht : front.classify t = .ok (.plainEnum ref)) {e : EnumValues σ}
    (hfind : cat.find? ref.key = some e) :
    ∃ found, front.constants ref >>= Datum.items = .ok found ∧
      e.values = (EnumValues.ofConstants ref found).values := by
  obtain ⟨key, hmem, hsame⟩ := mem_of_find? hfind
  obtain ⟨t', ref', found', ht', rfl, hfound', rfl⟩ := h _ hmem
  have hagree := hfront t' t ref' ref ht' ht hsame
  rw [hfound'] at hagree
  generalize front.constants ref >>= Datum.items = answer at hagree ⊢
  cases hagree with
  | found hsame => exact ⟨_, rfl, EnumValues.values_congr ref ref' hsame.symm⟩

/-- **Fetching with a coherent catalogue** gives what fetching with an empty one gives: the same
fault or the same values. -/
theorem Coherent.result_fetch (h : cat.Coherent front) (hfront : front.Consistent)
    (ht : front.classify t = .ok (.plainEnum ref)) :
    (∃ f, (({} : Catalogue σ).fetch front.constants ref).result = .error f ∧
      (cat.fetch front.constants ref).result = .error f) ∨
    ∃ e e', (({} : Catalogue σ).fetch front.constants ref).result = .ok e ∧
      (cat.fetch front.constants ref).result = .ok e' ∧ e'.values = e.values := by
  have hempty : ({} : Catalogue σ).find? ref.key = none := rfl
  rcases cat.fetch_cases front.constants ref with
    ⟨hkey, heq⟩ | ⟨hkey, e, hfind, heq⟩ | ⟨hkey, -, f, hf, heq⟩ | ⟨hkey, -, found, hf, heq⟩
  · rw [heq, fetch_unhashable hkey]
    exact Or.inl ⟨_, rfl, rfl⟩
  · obtain ⟨found, hfound, hvalues⟩ := h.values_of_find? hfront ht hfind
    rw [heq, fetch_builds hkey hempty hfound]
    exact Or.inr ⟨_, _, rfl, rfl, hvalues⟩
  · rw [heq, fetch_fails hkey hempty hf]
    exact Or.inl ⟨_, rfl, rfl⟩
  · rw [heq, fetch_builds hkey hempty hf]
    exact Or.inr ⟨_, _, rfl, rfl, rfl⟩

/-- **One visit.**  With a coherent catalogue a visit ends as with an empty one, up to evidence. -/
theorem Coherent.ending (h : cat.Coherent front) (hfront : front.Consistent) (o : Options)
    (site : Site τ ω) (state : π) :
    (cat.course front o site state).ending.withoutEvidence =
      (({} : Catalogue σ).course front o site state).ending.withoutEvidence := by
  cases htarget : front.classify site.target with
  | error f => simp only [Catalogue.course, htarget]
  | ok kind =>
    cases kind with
    | notEnum => simp only [Catalogue.course, htarget]
    | plainEnum ref =>
      rcases h.result_fetch hfront htarget with ⟨f, hempty, hcat⟩ | ⟨e, e', hempty, hcat, hvalues⟩
      · simp only [Catalogue.course, htarget, hempty, hcat]
      · simp only [Catalogue.course, htarget, hempty, hcat]
        exact endingWith_withoutEvidence o site hvalues _

/-! ## Many visits -/

/-- **Any number of visits** end as each of them ends with an empty catalogue. -/
theorem Coherent.endings (hfront : front.Consistent) (o : Options) (visits : List (Site τ ω × π)) :
    ∀ {cat : Catalogue σ}, cat.Coherent front →
      (cat.endings front o visits).map Ending.withoutEvidence =
        visits.map fun v => (({} : Catalogue σ).course front o v.1 v.2).ending.withoutEvidence := by
  induction visits with
  | nil =>
    intro cat _
    rfl
  | cons v rest ih =>
    intro cat h
    have hending := h.ending hfront o v.1 v.2
    have hrest := ih (h.course o v.1 v.2)
    simp only [Catalogue.endings, List.map_cons, hending, hrest]

end Catalogue

namespace Desk

variable {front : FrontEnd τ ω π σ} {o : Options}

/-- A new desk, whose ledger drops repetitions or not. -/
def fresh (drops : Bool) : Desk σ := { ledger := { dropRepeats := drops } }

/-- What a visit offers to the ledger: all that a ledger gets which has nothing and refuses
nothing. -/
def offered (d : Desk σ) (front : FrontEnd τ ω π σ) (o : Options) (site : Site τ ω) (state : π) :
    List Finding :=
  ({ d with ledger := {} }.visit front o site state).1.ledger.findings

theorem offered_eq (d : Desk σ) (front : FrontEnd τ ω π σ) (o : Options) (site : Site τ ω)
    (state : π) :
    d.offered front o site state = (d.catalogue.course front o site state).ending.findings := by
  rw [offered, ledger_visit, Ledger.findings_foldl_offer rfl]
  rfl

theorem coherent_afterVisits (o : Options) (drops : Bool) (visits : List (Site τ ω × π)) :
    ((fresh drops : Desk σ).afterVisits front o visits).catalogue.Coherent front := by
  refine afterVisits_induction (fun d => d.catalogue.Coherent front) ?_ visits _
    (Catalogue.coherent_empty front)
  intro d site state hd
  rw [catalogue_visit_eq]
  exact hd.course o site state

/-- The tally after visits counts what they came to. -/
theorem tally_afterVisits (o : Options) (out : Outcome) (visits : List (Site τ ω × π)) :
    ∀ d : Desk σ, (d.afterVisits front o visits).tally.get out =
      d.tally.get out +
        (d.catalogue.endings front o visits).countP fun e =>
          cameTo out (e.result d.ledger.dropRepeats) := by
  induction visits with
  | nil =>
    intro d
    rfl
  | cons v rest ih =>
    intro d
    rw [afterVisits, ih, get_tally_visit, dropRepeats_visit, catalogue_visit_eq, result_visit,
      Catalogue.endings, List.countP_singleton, List.countP_cons]
    omega

/-- **One visit after any others** comes to what it comes to at a new desk, and offers the same
findings up to evidence. -/
theorem visit_afterVisits (hfront : front.Consistent) (o : Options) (drops : Bool)
    (history : List (Site τ ω × π)) (site : Site τ ω) (state : π) :
    let d : Desk σ := (fresh drops).afterVisits front o history
    (d.visit front o site state).2 = ((fresh drops).visit front o site state).2 ∧
      (d.offered front o site state).map Finding.withoutEvidence =
        ((fresh drops).offered front o site state).map Finding.withoutEvidence := by
  intro d
  have hending := (coherent_afterVisits o drops history).ending hfront o site state
  constructor
  · rw [result_visit, result_visit, dropRepeats_afterVisits, ← Ending.result_withoutEvidence,
      hending, Ending.result_withoutEvidence]
    rfl
  · rw [offered_eq, offered_eq, ← Ending.findings_withoutEvidence, hending,
      Ending.findings_withoutEvidence]
    rfl

/-! ## Another order -/

section Order

variable {visits visits' : List (Site τ ω × π)}

/-- Visits in another order have the same endings in another order. -/
theorem perm_endings (hfront : front.Consistent) (o : Options) (h : visits.Perm visits') :
    ((({} : Catalogue σ).endings front o visits).map Ending.withoutEvidence).Perm
      ((({} : Catalogue σ).endings front o visits').map Ending.withoutEvidence) := by
  have hempty := Catalogue.coherent_empty front
  rw [hempty.endings hfront, hempty.endings hfront]
  exact h.map _

theorem tally_perm (hfront : front.Consistent) (o : Options) (drops : Bool)
    (h : visits.Perm visits') :
    ((fresh drops : Desk σ).afterVisits front o visits').tally =
      ((fresh drops : Desk σ).afterVisits front o visits).tally := by
  have hcount : ∀ (es : List Ending) (out : Outcome),
      (es.countP fun e => cameTo out (e.result drops)) =
        (es.map Ending.withoutEvidence).countP fun e => cameTo out (e.result drops) := by
    intro es out
    rw [List.countP_map]
    refine List.countP_congr fun e _ => ?_
    rw [Function.comp_apply, Ending.result_withoutEvidence]
  refine Tally.ext_get fun out => ?_
  have hsame : ((({} : Catalogue σ).endings front o visits').countP fun e =>
        cameTo out (e.result drops)) =
      (({} : Catalogue σ).endings front o visits).countP fun e => cameTo out (e.result drops) := by
    rw [hcount, (perm_endings hfront o h).symm.countP_eq, ← hcount]
  rw [tally_afterVisits, tally_afterVisits]
  exact congrArg _ hsame

/-- All that is offered, without evidence, is the same up to order. -/
theorem perm_offers (hfront : front.Consistent) (o : Options) (h : visits.Perm visits') :
    (((({} : Catalogue σ).endings front o visits).flatMap Ending.findings).map
        Finding.withoutEvidence).Perm
      (((({} : Catalogue σ).endings front o visits').flatMap Ending.findings).map
        Finding.withoutEvidence) := by
  have hoffers : ∀ es : List Ending, (es.flatMap Ending.findings).map Finding.withoutEvidence =
      (es.map Ending.withoutEvidence).flatMap Ending.findings := by
    intro es
    simp only [List.map_flatMap, List.flatMap_map, Ending.findings_withoutEvidence]
  rw [hoffers, hoffers]
  exact (perm_endings hfront o h).flatMap_right _

theorem findings_perm (hfront : front.Consistent) (o : Options) (h : visits.Perm visits') :
    (((fresh false : Desk σ).afterVisits front o visits').ledger.findings.map
        Finding.withoutEvidence).Perm
      (((fresh false : Desk σ).afterVisits front o visits).ledger.findings.map
        Finding.withoutEvidence) := by
  rw [ledger_afterVisits, ledger_afterVisits, Ledger.findings_foldl_offer rfl,
    Ledger.findings_foldl_offer rfl]
  exact perm_offers hfront o h.symm

theorem holds_perm (hfront : front.Consistent) (o : Options) (drops : Bool)
    (h : visits.Perm visits') (k : Finding.Key) :
    ((fresh drops : Desk σ).afterVisits front o visits').ledger.Holds k ↔
      ((fresh drops : Desk σ).afterVisits front o visits).ledger.Holds k := by
  have hproper : (fresh drops : Desk σ).ledger.Proper := fun _ => rfl
  -- evidence is no part of a key, so keys can be looked for among the findings without it
  have hbare : ∀ fs : List Finding,
      (∃ f ∈ fs, (fresh drops : Desk σ).ledger.takes f = true ∧ f.key.same k = true) ↔
        ∃ f ∈ fs.map Finding.withoutEvidence,
          (fresh drops : Desk σ).ledger.takes f = true ∧ f.key.same k = true := by
    intro fs
    constructor
    · rintro ⟨f, hf, hkey⟩
      exact ⟨f.withoutEvidence, List.mem_map_of_mem hf, hkey⟩
    · rintro ⟨g, hg, hkey⟩
      obtain ⟨f, hf, rfl⟩ := List.mem_map.1 hg
      exact ⟨f, hf, hkey⟩
  rw [ledger_afterVisits, ledger_afterVisits, Ledger.holds_foldl_offer hproper,
    Ledger.holds_foldl_offer hproper, hbare, hbare (List.flatMap _ _)]
  have hmem := fun f => (perm_offers hfront o h).mem_iff (a := f)
  simp only [fresh, hmem]

end Order

/-- **Visits do not depend on their history.**  Let enumerations with equal keys have constants that
agree.  Then a visit after any others comes to what it comes to at a new desk, and offers the same
finding up to evidence.  So visits in another order leave the same tally, in a ledger that keeps
repetitions the same findings up to order and evidence, and in any ledger the same keys. -/
theorem visits_independent (hfront : front.Consistent) (o : Options) (drops : Bool) :
    (∀ (history : List (Site τ ω × π)) (site : Site τ ω) (state : π),
      let d : Desk σ := (fresh drops).afterVisits front o history
      (d.visit front o site state).2 = ((fresh drops).visit front o site state).2 ∧
        (d.offered front o site state).map Finding.withoutEvidence =
          ((fresh drops).offered front o site state).map Finding.withoutEvidence) ∧
    ∀ visits visits' : List (Site τ ω × π), visits.Perm visits' →
      let d : Desk σ := (fresh drops).afterVisits front o visits
      let d' : Desk σ := (fresh drops).afterVisits front o visits'
      d'.tally = d.tally ∧
        (drops = false → (d'.ledger.findings.map Finding.withoutEvidence).Perm
          (d.ledger.findings.map Finding.withoutEvidence)) ∧
        ∀ k, d'.ledger.Holds k ↔ d.ledger.Holds k := by
  refine ⟨visit_afterVisits hfront o drops, fun visits visits' h => ?_⟩
  refine ⟨tally_perm hfront o drops h, ?_, holds_perm hfront o drops h⟩
  rintro rfl
  exact findings_perm hfront o h

end Desk

/-- Two names of one enumeration: their keys are equal but not the same, and so are the answers about
their constants. -/
def FrontEnd.twoNames (r : IntervalSet) : FrontEnd Bool Unit Unit Unit where
  classify
    | true => .ok (.plainEnum ⟨.int 1, .text "E", ()⟩)
    | false => .ok (.plainEnum ⟨.bool true, .text "F", ()⟩)
  constants ref :=
    if ref.name.datum.isText "E" then .ok (.list [.int 1, .nothing]) else .ok (.tuple [.int 1, .text "?"])
  rangeOf _ _ := .ok (.ranges r)

/-- A cast to `F` warns after one to `E` as it does at a new desk, although its evidence names `E`
then, and the order of the two makes no difference to the tally. -/
theorem Desk.visits_independent_twoNames :
    let front := FrontEnd.twoNames .fiveToNine
    let toE : Site Bool Unit := { target := true, operand := () }
    let toF : Site Bool Unit := { target := false, operand := () }
    let d : Desk Unit := (fresh true).afterVisits front {} [(toE, ())]
    let both : List (Site Bool Unit × Unit) := [(toE, ()), (toF, ())]
    front.Consistent ∧
      (d.visit front {} toF ()).2 = ((fresh true).visit front {} toF ()).2 ∧
      d.offered front {} toF () ≠ (fresh true).offered front {} toF () ∧
      ((fresh true : Desk Unit).afterVisits front {} both.reverse).tally =
        ((fresh true).afterVisits front {} both).tally := by
  intro front toE toF d both
  have hfront : front.Consistent := by
    intro s t a b hs ht _
    cases s <;> cases t <;> cases hs <;> cases ht <;> exact .found rfl
  have hevidence : d.offered front {} toF () ≠ (fresh true).offered front {} toF () := by
    have hnames : (d.offered front {} toF ()).map (·.evidence.head?) =
        [some ("enum", .text "enum E")] := by
      dsimp only [d, front, toE, toF]
      cbv
    have hfresh : ((fresh true : Desk Unit).offered front {} toF ()).map (·.evidence.head?) =
        [some ("enum", .text "enum F")] := by
      dsimp only [front, toF]
      cbv
    intro heq
    rw [heq, hfresh] at hnames
    simp at hnames
  have hindependent := visits_independent hfront {} true
  exact ⟨hfront, (hindependent.1 [(toE, ())] toF ()).1, hevidence,
    (hindependent.2 both both.reverse both.reverse_perm.symm).1⟩

end Visit

end DeadCast

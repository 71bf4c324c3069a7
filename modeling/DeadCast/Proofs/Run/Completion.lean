import DeadCast.Proofs.Run.Isolation
import Mathlib.Tactic

/-!
# Completed runs

A run is completed if no visit ends in a fault.  Whether it is can be told from the endings of its
visits and from the kind of the ledger (`Session.run_ok_iff`), and the endings are the same in every
session, because each run has a realm of its own (`Session.Ready.endings_eq`).  So a session
completes any number of runs that a new one would complete each on its own, and afterwards has a
finding about a dead cast exactly if one of the configurations has a visit that warns
(`Session.Ready.runAll`).

Which visits warn does not depend on the options, apart from the kinds of casts to look for
(`Configuration.warns_congr`).
-/

namespace DeadCast

open Session (realmOf)

/-! ## Outcomes of endings -/

namespace Ending

/-- The outcome that a visit comes to if the ledger takes its finding. -/
def outcome : Ending → Except Fault Outcome
  | .failing f => .error f
  | .counted out => .ok out
  | .reported _ out => .ok out

/-- The outcome of a visit without a fault. -/
theorem outcome_eq_of_result {e : Ending} {drops : Bool} {out : Outcome}
    (h : e.result drops = .ok out) : e.outcome = .ok out := by
  cases e with
  | failing f => exact h
  | counted out' => exact h
  | reported f out' =>
    simp only [result] at h
    split at h
    · exact h
    · cases h

/-- The findings of a visit without a fault are taken by the ledger. -/
theorem takes_of_result {e : Ending} {l : Ledger} {out : Outcome}
    (h : e.result l.dropRepeats = .ok out) : ∀ f ∈ e.findings, l.takes f = true := by
  intro f hf
  cases e with
  | failing g => cases hf
  | counted out' => cases hf
  | reported g out' =>
    obtain rfl := List.mem_singleton.1 hf
    simp only [result] at h
    split at h
    · assumption
    · cases h

/-- A dead cast is found exactly by a visit that warns. -/
theorem Regular.exists_dead_iff {e : Ending} {o : Options} (h : e.Regular o) :
    (∃ f ∈ e.findings, f.id = deadCastId) ↔ e.outcome = .ok .warn := by
  have hids : rangeFaultId ≠ deadCastId := by decide
  cases h with
  | failing f => simp [findings, outcome]
  | quiet hwarn hbreach => simp [findings, outcome, hwarn]
  | silentBreach hsilent => simp [findings, outcome]
  | breach hid hreport => simp [findings, outcome, hid, hids]
  | dead hid => simp [findings, outcome, hid]

end Ending

section Options

variable {τ ω π σ : Type}

/-- The options have an influence on what is reported, not on what is found out. -/
theorem outcome_endingWith (o o' : Options) (site : Site τ ω) (e : EnumValues σ)
    (answer : Except Fault (Option IntervalSet)) :
    (endingWith o' site e answer).2.outcome = (endingWith o site e answer).2.outcome := by
  cases answer with
  | ok range =>
    cases range with
    | none => rfl
    | some r =>
      simp only [endingWith]
      cases Verdict.decide e.values r with
      | safe => rfl
      | warn => cases r.isWritable <;> rfl
  | error f =>
    cases f with
    | range f =>
      simp only [endingWith]
      cases o.reportFaults.isTrue <;> cases o'.reportFaults.isTrue <;> rfl
    | _ => rfl

namespace Catalogue

theorem outcome_course (front : FrontEnd τ ω π σ) (o o' : Options) (site : Site τ ω) (state : π)
    (cat : Catalogue σ) :
    (cat.course front o' site state).catalogue = (cat.course front o site state).catalogue ∧
      (cat.course front o' site state).ending.outcome =
        (cat.course front o site state).ending.outcome := by
  unfold course
  split
  · exact ⟨rfl, rfl⟩
  · exact ⟨rfl, rfl⟩
  · dsimp only
    split
    · exact ⟨rfl, rfl⟩
    · exact ⟨rfl, outcome_endingWith o o' site _ _⟩

theorem outcome_endings (front : FrontEnd τ ω π σ) (o o' : Options)
    (visits : List (Site τ ω × π)) :
    ∀ cat : Catalogue σ, (cat.endings front o' visits).map Ending.outcome =
      (cat.endings front o visits).map Ending.outcome := by
  induction visits with
  | nil =>
    intro cat
    rfl
  | cons v rest ih =>
    intro cat
    obtain ⟨hcatalogue, hending⟩ := cat.outcome_course front o o' v.1 v.2
    simp only [endings, List.map_cons, hcatalogue, hending, ih]

end Catalogue

end Options

/-! ## Visits to the casts of a configuration -/

/-- The visit to a cast on its path. -/
def CastSite.asVisit (s : CastSite) : Site DumpType Token × Datum := (s.site, .int s.path)

/-- In two realms visits end in the same way. -/
theorem Catalogue.Mirrors.endings {c : Configuration} {m n : Nat} {base : Catalogue DumpScope}
    (hbase : base.Before n) (o : Options) (sites : List CastSite) :
    ∀ {cat cat' : Catalogue DumpScope}, Mirrors c m n base cat cat' →
      cat'.endings (frontEnd (realmOf n c)) o (sites.map CastSite.asVisit) =
        cat.endings (frontEnd (realmOf m c)) o (sites.map CastSite.asVisit) := by
  induction sites with
  | nil =>
    intro cat cat' _
    rfl
  | cons s rest ih =>
    intro cat cat' h
    have hcourse := h.course hbase o s
    have hrest := ih hcourse.catalogue
    simp only [List.map_cons, Catalogue.endings, CastSite.asVisit, hcourse.ending] at hrest ⊢
    rw [hrest]

/-- An enumeration of a dump has a key of the realm in which it is classified. -/
theorem DumpType.eq_enumRef_of_classify {t : DumpType} {realm : Datum} {ref : EnumRef DumpScope}
    (h : t.classify realm = .plainEnum ref) :
    ∃ k scope, ref = enumRef t.configuration realm k scope := by
  unfold classify at h
  split at h
  · cases h
  · split at h
    · cases h
    · split at h
      · cases h
      · split at h
        · cases h
          exact ⟨_, _, rfl⟩
        · cases h

/-- Visits in a realm leave keys with the serial number of the realm, and older ones. -/
theorem Catalogue.Before.afterVisits {c : Configuration} {n : Nat} {d : Desk DumpScope}
    (h : d.catalogue.Before (n + 1)) (o : Options) (visits : List (Site DumpType Token × Datum)) :
    (d.afterVisits (frontEnd (realmOf n c)) o visits).catalogue.Before (n + 1) := by
  refine Desk.afterVisits_induction (fun d => d.catalogue.Before (n + 1)) ?_ visits d h
  intro d site state hd
  rw [Desk.catalogue_visit_eq]
  refine course_forall (fun key _ => KeyBefore (n + 1) key) hd ?_ o state
  intro ref found htarget _
  obtain ⟨k, scope, rfl⟩ := DumpType.eq_enumRef_of_classify (Except.ok.inj htarget)
  exact ⟨n, _, _, DumpType.key_enumRef (Session.isNothing_realmOf n c) _ k scope, Nat.lt_succ_self n⟩

namespace Session

/-- Visits are completed if none of them ends in a fault. -/
theorem visitAll_ok_iff (realm : Datum) (o : Options) (sites : List CastSite) :
    ∀ d : Desk DumpScope, (visitAll realm o d sites).2 = .ok () ↔
      ∀ e ∈ d.catalogue.endings (frontEnd realm) o (sites.map CastSite.asVisit),
        ∃ out, e.result d.ledger.dropRepeats = .ok out := by
  induction sites with
  | nil =>
    intro d
    simp [visitAll, Catalogue.endings]
  | cons s rest ih =>
    intro d
    have hresult := Desk.result_visit (frontEnd realm) o s.site (.int s.path) d
    have hrest := ih (d.visit (frontEnd realm) o s.site (.int s.path)).1
    rw [Desk.dropRepeats_visit, Desk.catalogue_visit_eq] at hrest
    rw [visitAll_cons, List.map_cons, Catalogue.endings, List.forall_mem_cons]
    simp only [CastSite.asVisit] at hrest ⊢
    rw [← hresult, ← hrest]
    generalize d.visit (frontEnd realm) o s.site (.int s.path) = step
    obtain ⟨next, result⟩ := step
    cases result with
    | error f => simp
    | ok out => simp

/-- Completed visits are made one after the other. -/
theorem visitAll_of_ok {realm : Datum} {o : Options} {sites : List CastSite} :
    ∀ {d : Desk DumpScope}, (visitAll realm o d sites).2 = .ok () →
      (visitAll realm o d sites).1 =
        d.afterVisits (frontEnd realm) o (sites.map CastSite.asVisit) := by
  induction sites with
  | nil =>
    intro d _
    rfl
  | cons s rest ih =>
    intro d h
    rw [visitAll_cons] at h ⊢
    rw [List.map_cons, CastSite.asVisit, Desk.afterVisits]
    generalize d.visit (frontEnd realm) o s.site (.int s.path) = step at h ⊢
    obtain ⟨next, result⟩ := step
    cases result with
    | error f => cases h
    | ok out => exact ih h

/-! ## Runs -/

/-- What the visits of a run come to, once the casts are listed. -/
theorem run_of_sites {s : Session} {c : Configuration} {sites : List CastSite}
    (hsites : c.castSites s.options = (sites, .ok ())) :
    ((s.run c).1.desk, (s.run c).2) =
      visitAll (realmOf (s.serial + 1) c) s.options (s.desk.note [collectedLine sites]) sites := by
  simp only [run_eq, hsites]
  generalize visitAll (realmOf (s.serial + 1) c) s.options _ sites = step
  obtain ⟨desk, result⟩ := step
  cases result <;> rfl

/-- When a run is completed. -/
theorem run_ok_iff {s : Session} {c : Configuration} :
    (s.run c).2 = .ok () ↔
      (c.castSites s.options).2 = .ok () ∧
        ∀ e ∈ s.desk.catalogue.endings (frontEnd (realmOf (s.serial + 1) c)) s.options
          ((c.castSites s.options).1.map CastSite.asVisit),
          ∃ out, e.result s.desk.ledger.dropRepeats = .ok out := by
  cases hsites : c.castSites s.options with
  | mk sites listing =>
    cases listing with
    | error f =>
      rw [run_eq, hsites]
      simp
    | ok u =>
      have hresult := congrArg Prod.snd (run_of_sites hsites)
      dsimp only at hresult
      rw [hresult, visitAll_ok_iff]
      simp

theorem runAll_cons_of_ok {s : Session} {c : Configuration} (h : (s.run c).2 = .ok ())
    (rest : List Configuration) : s.runAll (c :: rest) = (s.run c).1.runAll rest := by
  rw [runAll_cons]
  generalize s.run c = step at h ⊢
  obtain ⟨s', result⟩ := step
  obtain rfl : result = .ok () := h
  rfl

/-- What holds of a session between two runs, whatever the kind of its ledger. -/
structure Ready (o : Options) (s : Session) : Prop where
  options : s.options = o
  kind : s.desk.ledger.dropRepeats = o.dropRepeats.isTrue
  keys : s.desk.catalogue.Before (s.serial + 1)
  proper : s.desk.ledger.Proper

theorem ready_new (o : Options) : Ready o (new o) where
  options := rfl
  kind := rfl
  keys := by
    intro entry hentry
    cases hentry
  proper := fun _ => rfl

end Session

namespace Configuration

/-- How the visits to the casts end in a new session. -/
def endings (c : Configuration) (o : Options) : List Ending :=
  ({} : Catalogue DumpScope).endings (frontEnd (realmOf 1 c)) o
    ((c.castSites o).1.map CastSite.asVisit)

/-- Is there a visit that warns? -/
def Warns (c : Configuration) (o : Options) : Prop := ∃ e ∈ c.endings o, e.outcome = .ok .warn

/-- Which visits warn depends on the kinds of casts to look for, and on no other option. -/
theorem warns_congr (c : Configuration) {o o' : Options} (h : o'.castKinds = o.castKinds) :
    c.Warns o' ↔ c.Warns o := by
  have hsites : c.castSites o' = c.castSites o := by rw [castSites, castSites, h]
  have hwarns : ∀ o, c.Warns o ↔ .ok .warn ∈ (c.endings o).map Ending.outcome := by
    intro o
    rw [List.mem_map]
    rfl
  rw [hwarns, hwarns, endings, endings, hsites, Catalogue.outcome_endings _ o o']

/-- If no visit ends in a fault, a finding about a dead cast is entered exactly if a visit warns. -/
theorem exists_dead_iff_warns {c : Configuration} {o : Options} {l : Ledger}
    (h : ∀ e ∈ c.endings o, ∃ out, e.result l.dropRepeats = .ok out) :
    (∃ f ∈ (c.endings o).flatMap Ending.findings, l.takes f = true ∧ f.id = deadCastId) ↔
      c.Warns o := by
  have hregular : ∀ e ∈ c.endings o, e.Regular o := Catalogue.regular_endings _ o _ _
  constructor
  · rintro ⟨f, hf, -, hid⟩
    obtain ⟨e, he, hfe⟩ := List.mem_flatMap.1 hf
    exact ⟨e, he, (hregular e he).exists_dead_iff.1 ⟨f, hfe, hid⟩⟩
  · rintro ⟨e, he, hwarn⟩
    obtain ⟨f, hf, hid⟩ := (hregular e he).exists_dead_iff.2 hwarn
    obtain ⟨out, hout⟩ := h e he
    exact ⟨f, List.mem_flatMap.2 ⟨e, he, hf⟩, Ending.takes_of_result hout f hf, hid⟩

end Configuration

namespace Session

namespace Ready

variable {o : Options} {s : Session}

/-- In a session between two runs the visits end as in a new one. -/
theorem endings_eq (hs : Ready o s) (c : Configuration) :
    s.desk.catalogue.endings (frontEnd (realmOf (s.serial + 1) c)) o
      ((c.castSites o).1.map CastSite.asVisit) = c.endings o :=
  Catalogue.Mirrors.endings hs.keys o _ ⟨[], (List.append_nil _).symm, .nil⟩

/-- **A run that a new session completes is completed by every session**, which is ready for the
next run then, and has a finding about a dead cast if it had one before or if the run warned. -/
theorem run (hs : Ready o s) {c : Configuration} (hrun : ((new o).run c).2 = .ok ()) :
    (s.run c).2 = .ok () ∧ Ready o (s.run c).1 ∧
      ((s.run c).1.desk.ledger.HasId deadCastId ↔
        s.desk.ledger.HasId deadCastId ∨ c.Warns o) := by
  obtain ⟨hlisted, hresults⟩ := run_ok_iff.1 hrun
  have hfresh : ∀ e ∈ c.endings o, ∃ out, e.result o.dropRepeats.isTrue = .ok out := hresults
  have hdone : (s.run c).2 = .ok () := by
    rw [run_ok_iff, hs.options, hs.endings_eq, hs.kind]
    exact ⟨hlisted, hfresh⟩
  -- the desk afterwards, as visits one after the other
  obtain ⟨sites, hsites⟩ : ∃ sites, c.castSites s.options = (sites, .ok ()) :=
    ⟨_, Prod.ext rfl (hs.options ▸ hlisted)⟩
  have hvisits := run_of_sites hsites
  have hdesk := visitAll_of_ok ((congrArg Prod.snd hvisits).symm.trans hdone)
  rw [← hvisits] at hdesk
  dsimp only at hdesk
  obtain ⟨hserial, hoptions⟩ := serial_run s c
  refine ⟨hdone, ⟨hoptions.trans hs.options, ?_, ?_, ?_⟩, ?_⟩
  · rw [hdesk, Desk.dropRepeats_afterVisits]
    exact hs.kind
  · rw [hdesk, hserial]
    refine Catalogue.Before.afterVisits ?_ _ _
    intro entry hentry
    obtain ⟨k, name, own, hkey, hlt⟩ := hs.keys entry hentry
    exact ⟨k, name, own, hkey, Nat.lt_succ_of_lt hlt⟩
  · rw [hdesk, Desk.ledger_afterVisits]
    exact Ledger.Proper.foldl_offer hs.proper _
  · have hendings := hs.endings_eq c
    have hsites' : (c.castSites o).1 = sites := by rw [← hs.options, hsites]
    rw [hsites'] at hendings
    rw [hdesk, Desk.ledger_afterVisits, Desk.ledger_note, Desk.catalogue_note, hs.options, hendings,
      Ledger.hasId_foldl_offer hs.proper]
    rw [Configuration.exists_dead_iff_warns (hs.kind ▸ hfresh)]

/-- **Any number of runs**, each of which a new session completes. -/
theorem runAll {cs : List Configuration} (hruns : ∀ c ∈ cs, ((new o).run c).2 = .ok ()) :
    ∀ {s : Session}, Ready o s →
      (s.runAll cs).2 = .ok () ∧ Ready o (s.runAll cs).1 ∧
        ((s.runAll cs).1.desk.ledger.HasId deadCastId ↔
          s.desk.ledger.HasId deadCastId ∨ ∃ c ∈ cs, c.Warns o) := by
  induction cs with
  | nil =>
    intro s hs
    exact ⟨rfl, hs, by simp [Session.runAll]⟩
  | cons c rest ih =>
    intro s hs
    obtain ⟨hrun, hrest⟩ := List.forall_mem_cons.1 hruns
    obtain ⟨hdone, hready, hdead⟩ := hs.run hrun
    obtain ⟨hdone', hready', hdead'⟩ := ih hrest hready
    rw [runAll_cons_of_ok hdone]
    refine ⟨hdone', hready', ?_⟩
    rw [hdead', hdead, or_assoc, List.exists_mem_cons_iff]

end Ready

end Session

end DeadCast

import DeadCast.Proofs.Run.Mirror
import Mathlib

/-!
# Runs do not influence each other

One session checks many configurations, with one catalogue, one ledger and one tally.  Still a run
does to a session that was used before exactly what it does to a new one (`Session.Adds`), as long
as the ledger keeps repetitions.

Between runs it holds that all keys of the catalogue have a serial number that was used already
(`Session.BetweenRuns`).  So the next run, which takes a new serial number, is in step with the same
run of a new session (`Session.run_mirrors`), and it leaves keys with used serial numbers again
(`Session.betweenRuns_run`), whether or not it ends in a fault.
-/

namespace DeadCast

namespace Session

variable {o : Options} {s : Session}

/-! ## Between runs -/

/-- What holds of a session between two runs. -/
structure BetweenRuns (o : Options) (s : Session) : Prop where
  options : s.options = o
  keeps : s.desk.ledger.dropRepeats = false
  keys : s.desk.catalogue.Before (s.serial + 1)
  untouched : s.serial = 0 → s.desk.tally = {}

theorem betweenRuns_new (h : o.dropRepeats.isTrue = false) : BetweenRuns o (new o) where
  options := rfl
  keeps := h
  keys := by
    intro entry hentry
    cases hentry
  untouched := fun _ => rfl

/-- A run uses up one serial number, and does not change the options. -/
theorem serial_run (s : Session) (c : Configuration) :
    (s.run c).1.serial = s.serial + 1 ∧ (s.run c).1.options = s.options := by
  rw [run_eq]
  split
  · exact ⟨rfl, rfl⟩
  · split
    · exact ⟨rfl, rfl⟩
    · exact ⟨rfl, rfl⟩

/-- A run and the same run of a new session keep in step. -/
theorem run_mirrors (h : o.dropRepeats.isTrue = false) (hs : BetweenRuns o s)
    (c : Configuration) :
    Desk.StepMirrors c 1 (s.serial + 1) s.desk (((new o).run c).1.desk, ((new o).run c).2)
      ((s.run c).1.desk, (s.run c).2) := by
  have hstart : Desk.Mirrors c 1 (s.serial + 1) s.desk (new o).desk s.desk :=
    { catalogue := ⟨[], (List.append_nil _).symm, .nil⟩
      findings := (List.append_nil _).symm
      keeps := h
      keeps' := hs.keeps
      tally := fun out => by cases out <;> rfl
      log := (List.append_nil _).symm }
  have hoptions : (new o).options = s.options := hs.options.symm
  rw [run_eq, run_eq, hoptions]
  cases c.castSites s.options with
  | mk sites listing =>
    cases listing with
    | error f => exact ⟨hstart, rfl⟩
    | ok u =>
      have hvisits := Desk.Mirrors.visitAll hs.keys s.options sites
        (hstart.note [collectedLine sites])
      have hserial : (new o).serial + 1 = 1 := rfl
      simp only [hserial]
      generalize visitAll (realmOf 1 c) s.options _ sites = step at hvisits ⊢
      generalize visitAll (realmOf (s.serial + 1) c) s.options _ sites = step' at hvisits ⊢
      obtain ⟨d, result⟩ := step
      obtain ⟨d', result'⟩ := step'
      obtain rfl : result' = result := hvisits.result
      cases result' with
      | error f => exact ⟨hvisits.desk, rfl⟩
      | ok u => exact ⟨hvisits.desk, rfl⟩

/-- After a run all keys have used serial numbers again, even if the run ended in a fault. -/
theorem betweenRuns_run (h : o.dropRepeats.isTrue = false) (hs : BetweenRuns o s)
    (c : Configuration) : BetweenRuns o (s.run c).1 := by
  obtain ⟨hserial, hoptions⟩ := serial_run s c
  have hmirrors := (run_mirrors h hs c).desk
  refine ⟨hoptions.trans hs.options, hmirrors.keeps', ?_, ?_⟩
  · rw [hserial]
    exact hmirrors.catalogue.before hs.keys
  · intro hzero
    omega

/-- The session after runs, one after the other; a run that ends in a fault does not stop them. -/
def afterRuns (s : Session) : List Configuration → Session
  | [] => s
  | c :: rest => (s.run c).1.afterRuns rest

theorem betweenRuns_afterRuns (h : o.dropRepeats.isTrue = false) (cs : List Configuration) :
    ∀ {s : Session}, BetweenRuns o s → BetweenRuns o (s.afterRuns cs) := by
  induction cs with
  | nil =>
    intro s hs
    exact hs
  | cons c rest ih =>
    intro s hs
    exact ih (betweenRuns_run h hs c)

/-! ## What a run adds -/

/-- What happens to the session `s` is what happens to a new one: it ends in the same way and adds
the same findings, lines, outcomes and number of kept enumerations. -/
structure Adds (s : Session) (fresh used : Session × Except Fault Unit) : Prop where
  result : used.2 = fresh.2
  findings : used.1.findings = s.findings ++ fresh.1.findings
  log : used.1.desk.log = s.desk.log ++ fresh.1.desk.log
  tally : ∀ out, used.1.desk.tally.get out = s.desk.tally.get out + fresh.1.desk.tally.get out
  size : used.1.desk.catalogue.size = s.desk.catalogue.size + fresh.1.desk.catalogue.size

/-- If two sessions differ by `s`, and the same is added to both, then they still differ by `s`. -/
theorem Adds.trans {fresh used added fresh' used' : Session × Except Fault Unit}
    (h : Adds s fresh used) (hused : Adds used.1 added used') (hfresh : Adds fresh.1 added fresh') :
    Adds s fresh' used' where
  result := hused.result.trans hfresh.result.symm
  findings := by rw [hused.findings, hfresh.findings, h.findings, List.append_assoc]
  log := by rw [hused.log, hfresh.log, h.log, List.append_assoc]
  tally := by
    intro out
    rw [hused.tally, hfresh.tally, h.tally, Nat.add_assoc]
  size := by rw [hused.size, hfresh.size, h.size, Nat.add_assoc]

theorem adds_run (h : o.dropRepeats.isTrue = false) (hs : BetweenRuns o s) (c : Configuration) :
    Adds s ((new o).run c) (s.run c) := by
  obtain ⟨hdesk, hresult⟩ := run_mirrors h hs c
  refine ⟨hresult, hdesk.findings, hdesk.log, hdesk.tally, ?_⟩
  obtain ⟨added, hadded, htwins⟩ := hdesk.catalogue
  show (s.run c).1.desk.catalogue.entries.length = _
  rw [hadded, List.length_append, ← htwins.length_eq]
  rfl

/-! ## Many runs -/

theorem runAll_cons (s : Session) (c : Configuration) (rest : List Configuration) :
    s.runAll (c :: rest) =
      match s.run c with
      | (s, .ok ()) => s.runAll rest
      | (s, .error f) => (s, .error f) := rfl

theorem runAll_append (s : Session) (a b : List Configuration) :
    s.runAll (a ++ b) =
      match s.runAll a with
      | (s, .ok ()) => s.runAll b
      | (s, .error f) => (s, .error f) := by
  induction a generalizing s with
  | nil => rfl
  | cons c rest ih =>
    rw [List.cons_append, runAll_cons, runAll_cons]
    cases s.run c with
    | mk s' result =>
      cases result with
      | error f => rfl
      | ok u => exact ih s'

/-- Runs of `a` and then of `b` are completed if those of `a` are and then those of `b`. -/
theorem runAll_append_ok_iff {s : Session} {a b : List Configuration} :
    (s.runAll (a ++ b)).2 = .ok () ↔
      (s.runAll a).2 = .ok () ∧ ((s.runAll a).1.runAll b).2 = .ok () := by
  rw [runAll_append]
  cases s.runAll a with
  | mk s' result =>
    cases result with
    | error f => simp
    | ok u => simp

theorem runAll_append_of_ok {s : Session} {a : List Configuration} (h : (s.runAll a).2 = .ok ())
    (b : List Configuration) : s.runAll (a ++ b) = (s.runAll a).1.runAll b := by
  rw [runAll_append]
  generalize s.runAll a = step at h ⊢
  obtain ⟨s', result⟩ := step
  obtain rfl : result = .ok () := h
  rfl

theorem betweenRuns_runAll (h : o.dropRepeats.isTrue = false) (cs : List Configuration) :
    ∀ {s : Session}, BetweenRuns o s → BetweenRuns o (s.runAll cs).1 := by
  induction cs with
  | nil =>
    intro s hs
    exact hs
  | cons c rest ih =>
    intro s hs
    have hnext := betweenRuns_run h hs c
    rw [runAll_cons]
    cases hrun : s.run c with
    | mk s' result =>
      rw [hrun] at hnext
      cases result with
      | error f => exact hnext
      | ok u => exact ih hnext

/-- Runs one after the other do to a session what they do to a new one. -/
theorem adds_runAll (h : o.dropRepeats.isTrue = false) (cs : List Configuration) :
    ∀ {s : Session}, BetweenRuns o s → Adds s ((new o).runAll cs) (s.runAll cs) := by
  induction cs with
  | nil =>
    intro s _
    refine ⟨rfl, (List.append_nil _).symm, (List.append_nil _).symm, ?_, rfl⟩
    intro out
    cases out <;> rfl
  | cons c rest ih =>
    intro s hs
    have hadds := adds_run h hs c
    have hused := betweenRuns_run h hs c
    have hfresh := betweenRuns_run h (betweenRuns_new h) c
    rw [runAll_cons, runAll_cons]
    generalize s.run c = used at hadds hused ⊢
    generalize (new o).run c = fresh at hadds hfresh ⊢
    obtain ⟨s₁, result⟩ := used
    obtain ⟨n₁, result'⟩ := fresh
    obtain rfl : result = result' := hadds.result
    cases result with
    | error f => exact hadds
    | ok u =>
      -- the rest adds the same to both sessions
      exact hadds.trans (ih hused) (ih hfresh)

end Session

/-! ## Reports -/

/-- The number under a name of the statistics.  Before anything is checked there are no outcomes in
them, and the number is `0`. -/
def Report.number (r : Report) (name : String) : Int :=
  match r.stats.lookup name with
  | some (.int n) => n
  | _ => 0

namespace Session

variable {o : Options} {s : Session}

/-- When there is a report, and what is in it. -/
theorem report_eq_ok_iff {clock : Clock} {readings : Nat} {cs : List Configuration} {r : Report} :
    (s.report clock readings cs).2 = .ok r ↔
      (s.runAll cs).2 = .ok () ∧
        r = { findings := (s.runAll cs).1.findings
              stats := (s.runAll cs).1.stats ++
                [("enums_cached", .int (s.runAll cs).1.desk.catalogue.size),
                  ("elapsed_ms", clock.elapsed readings (readings + 1))] } := by
  unfold report
  cases s.runAll cs with
  | mk s' result =>
    cases result with
    | error f => simp
    | ok u => simp [eq_comm]

theorem serial_le_runAll (s : Session) (cs : List Configuration) :
    s.serial ≤ (s.runAll cs).1.serial := by
  induction cs generalizing s with
  | nil => exact le_refl _
  | cons c rest ih =>
    have hserial := (serial_run s c).1
    rw [runAll_cons]
    generalize s.run c = step at hserial ⊢
    obtain ⟨s', result⟩ := step
    cases result with
    | error f => exact (Nat.le_succ _).trans_eq hserial.symm
    | ok u => exact ((Nat.le_succ _).trans_eq hserial.symm).trans (ih s')

/-- Once a configuration was run, a realm was opened. -/
theorem isConfigured_runAll (s : Session) {cs : List Configuration} (h : cs ≠ []) :
    (s.runAll cs).1.isConfigured = true := by
  obtain ⟨c, rest, rfl⟩ := List.exists_cons_of_ne_nil h
  have hserial := (serial_run s c).1
  have hpos : 0 < (s.runAll (c :: rest)).1.serial := by
    rw [runAll_cons]
    generalize s.run c = step at hserial ⊢
    obtain ⟨s', result⟩ := step
    have hpos : 0 < s'.serial := hserial ▸ Nat.succ_pos _
    cases result with
    | error f => exact hpos
    | ok u => exact hpos.trans_le (serial_le_runAll s' rest)
  simpa [isConfigured] using hpos.ne'

/-- The statistics of a session with a realm have all outcomes. -/
theorem lookup_stats (hs : s.isConfigured = true) (tail : List (String × Datum)) (out : Outcome) :
    (s.stats ++ tail).lookup out.word = some (.int (s.desk.tally.get out)) := by
  simp only [stats, hs, if_true]
  cases out <;> rfl

/-- The statistics tell the tally. -/
theorem number_word (hs : BetweenRuns o s) {r : Report} {tail : List (String × Datum)}
    (hstats : r.stats = s.stats ++ tail) (htail : ∀ out : Outcome, tail.lookup out.word = none)
    (out : Outcome) : r.number out.word = s.desk.tally.get out := by
  unfold Report.number
  rw [hstats]
  by_cases hserial : s.serial = 0
  · have hnone : s.stats = [] := by simp [stats, isConfigured, hserial]
    have hzero : s.desk.tally.get out = 0 := by
      rw [hs.untouched hserial]
      cases out <;> rfl
    rw [hnone, List.nil_append, htail out, hzero]
    rfl
  · rw [lookup_stats (by simpa [isConfigured] using hserial)]

/-- What a report on new runs says. -/
theorem report_spec (h : o.dropRepeats.isTrue = false) {clock : Clock} {readings : Nat}
    {cs : List Configuration} {r : Report} (hr : ((new o).report clock readings cs).2 = .ok r) :
    r.findings = ((new o).runAll cs).1.findings ∧
      (∀ out : Outcome, r.number out.word = ((new o).runAll cs).1.desk.tally.get out) ∧
      r.number "enums_cached" = ((new o).runAll cs).1.desk.catalogue.size := by
  obtain ⟨-, rfl⟩ := report_eq_ok_iff.1 hr
  refine ⟨rfl, ?_, ?_⟩
  · refine number_word (betweenRuns_runAll h cs (betweenRuns_new h)) rfl ?_
    intro out
    cases out <;> rfl
  · generalize ((new o).runAll cs).1 = s
    unfold Report.number
    cases hconfigured : s.isConfigured with
    | false =>
      simp only [stats, hconfigured]
      rfl
    | true =>
      simp only [stats, hconfigured]
      rfl

/-- **Runs do not influence each other.**  Whatever was run before, completely or not, a run does to
the session what it does to a new one.  So a report on runs of `a` and then of `b` is there if there
are reports on both, and then it has the findings of the one before those of the other, and all
outcomes and kept enumerations of both.  A report on at least one configuration has a number for
every outcome. -/
theorem runs_isolated (h : o.dropRepeats.isTrue = false) :
    (∀ (history : List Configuration) (c : Configuration),
      Adds ((new o).afterRuns history) ((new o).run c) (((new o).afterRuns history).run c)) ∧
    (∀ (clock : Clock) (readings : Nat) (cs : List Configuration) (r : Report), cs ≠ [] →
      ((new o).report clock readings cs).2 = .ok r →
      ∀ out : Outcome, r.stats.lookup out.word = some (.int (r.number out.word))) ∧
    ∀ (clock : Clock) (readings : Nat) (a b : List Configuration),
      ((∃ r, ((new o).report clock readings (a ++ b)).2 = .ok r) ↔
        (∃ r, ((new o).report clock readings a).2 = .ok r) ∧
          ∃ r, ((new o).report clock readings b).2 = .ok r) ∧
      ∀ r ra rb, ((new o).report clock readings (a ++ b)).2 = .ok r →
        ((new o).report clock readings a).2 = .ok ra →
        ((new o).report clock readings b).2 = .ok rb →
        r.findings = ra.findings ++ rb.findings ∧
          (∀ out : Outcome, r.number out.word = ra.number out.word + rb.number out.word) ∧
          r.number "enums_cached" = ra.number "enums_cached" + rb.number "enums_cached" := by
  refine ⟨fun history c => adds_run h (betweenRuns_afterRuns h history (betweenRuns_new h)) c,
    ?_, ?_⟩
  · intro clock readings cs r hcs hr out
    rw [(report_spec h hr).2.1]
    obtain ⟨-, rfl⟩ := report_eq_ok_iff.1 hr
    exact lookup_stats (isConfigured_runAll _ hcs) _ out
  · intro clock readings a b
    have hadds := adds_runAll h b (betweenRuns_runAll h a (betweenRuns_new h))
    refine ⟨?_, ?_⟩
    · simp only [report_eq_ok_iff, exists_and_left, exists_eq, and_true]
      rw [runAll_append_ok_iff, hadds.result]
    · intro r ra rb hr hra hrb
      obtain ⟨hfindings, houtcomes, hsize⟩ := report_spec h hr
      obtain ⟨hfindingsA, houtcomesA, hsizeA⟩ := report_spec h hra
      obtain ⟨hfindingsB, houtcomesB, hsizeB⟩ := report_spec h hrb
      have hdone := (report_eq_ok_iff.1 hra).1
      rw [runAll_append_of_ok hdone] at hfindings houtcomes hsize
      refine ⟨?_, ?_, ?_⟩
      · rw [hfindings, hadds.findings, hfindingsA, hfindingsB]
      · intro out
        rw [houtcomes, hadds.tally, houtcomesA, houtcomesB]
        push_cast
        rfl
      · rw [hsize, hadds.size, hsizeA, hsizeB]
        push_cast
        rfl

end Session

/-- An enumeration of one value and a cast of `4` to it.  Its scope has the same identifier whatever
the value is. -/
def Configuration.castOfFour (value : Int) : Configuration where
  tokens := #[
    { str := some (.text "A"), knownValue := some (.int value) },
    { str := some (.text "("), isCast := some (.bool true), operand1 := some 2,
      valueType := some { scope := some 0 } },
    { str := some (.text "x"), valueType := some { type := some (.text "int") },
      facts := [{ value := some (.int 4), kind := some (.text "known") }] }]
  scopes := #[{ id := some (.text "s1"), type := some (.text "Enum"), nameTokens := [some 0] }]
  listed := [0, 1, 2]

/-- The cast is safe in the first configuration and dead in the second, although both enumerations
have the same identifier. -/
theorem Session.runs_isolated_castOfFour :
    let o : Options := { dropRepeats := .bool false }
    let s := (new o).afterRuns [.castOfFour 4]
    s.findings = [] ∧ (s.run (.castOfFour 5)).1.findings.length = 1 ∧
      Adds s ((new o).run (.castOfFour 5)) (s.run (.castOfFour 5)) ∧
      ((∃ r, ((new o).report (.ticking (.finite 1)) 0 ([.castOfFour 4] ++ [.castOfFour 5])).2 =
          .ok r) ↔
        (∃ r, ((new o).report (.ticking (.finite 1)) 0 [.castOfFour 4]).2 = .ok r) ∧
          ∃ r, ((new o).report (.ticking (.finite 1)) 0 [.castOfFour 5]).2 = .ok r) := by
  refine ⟨by cbv, by cbv, ?_, ?_⟩
  · exact (runs_isolated rfl).1 [.castOfFour 4] (.castOfFour 5)
  · exact ((runs_isolated rfl).2.2 _ 0 [.castOfFour 4] [.castOfFour 5]).1

end DeadCast

import DeadCast.Proofs.Finding.Line
import DeadCast.Proofs.Run.Completion
import DeadCast.Run.Addon
import Mathlib

/-!
# The addon makes one flat run

The addon takes one path after the other, passes over some of them, and after each dump replaces its
report by the one on the session so far.  What it comes to is described without any of that
(`runAddon_flat`): it is one run of a new session over all configurations of the dumps that can be
loaded, in the order of the paths, and its findings are printed (`Printed`).

Between two paths, the session is that of the flat run over what was loaded so far, up to log lines,
and the report has all its findings (`AddonState.Reflects`).  Log lines have no influence on a run
(`Session.runAll_unlogged`), and a run that completes on its own completes after others too, so the
next path keeps it so (`AddonState.Reflects.check`), whether it is checked or passed over.

The exit code depends on which configurations warn, and hence neither on the order of the paths nor
on the options about output, repetitions and range faults.  Whether it is returned does depend on
the output: a finding without a line ends the addon with a fault (`runAddon_unwritable_line`).
-/

namespace DeadCast

/-! ## Looks -/

/-- A look at a path, and the configurations of the dump if it can be loaded. -/
structure Look where
  path : String
  dump : Option (List Configuration)

namespace Files

/-- The configurations of the dump at a path, if there is a file that can be loaded. -/
def open? (fs : Files) (k : Nat) (path : String) : Option (List Configuration) :=
  if fs.isFile k path then (fs.load k path).toOption else none

/-- The looks at paths, one after the other; `k` were made before. -/
def looks (fs : Files) (k : Nat) : List String → List Look
  | [] => []
  | path :: rest => ⟨path, fs.open? k path⟩ :: fs.looks (k + 1) rest

/-- Looks at the same path find the same, whenever they are made. -/
def Steady (fs : Files) : Prop := ∀ k path, fs.lookUp k path = fs.lookUp 0 path

/-- A dump that cannot be loaded is reported as such. -/
def Reporting (fs : Files) : Prop :=
  ∀ k path f, fs.load k path = .error f → ∃ p cause, f = .dump p cause

end Files

/-- All configurations of the dumps that can be loaded, in order. -/
def loadedConfigurations (ls : List Look) : List Configuration := ls.flatMap fun l => l.dump.getD []

/-- The paths of the dumps that can be loaded, in order. -/
def loadedPaths (ls : List Look) : List String := (ls.filter (·.dump.isSome)).map Look.path

/-- The exit code that belongs to looks at paths and to the findings in what they found. -/
def exitCodeOf (ls : List Look) (findings : List Finding) : Nat :=
  if ls.any (·.dump.isNone) then 2 else if findings.any (·.id == deadCastId) then 1 else 0

/-! ## Log lines have no influence -/

/-- The desk without its log. -/
def Desk.unlogged {σ : Type} (d : Desk σ) : Desk σ := { d with log := [] }

/-- The session without its log. -/
def Session.unlogged (s : Session) : Session := { s with desk := s.desk.unlogged }

theorem Desk.visit_unlogged {τ ω π σ : Type} (front : FrontEnd τ ω π σ) (o : Options)
    (site : Site τ ω) (state : π) {d d' : Desk σ} (h : d.unlogged = d'.unlogged) :
    (d.visit front o site state).1.unlogged = (d'.visit front o site state).1.unlogged ∧
      (d.visit front o site state).2 = (d'.visit front o site state).2 := by
  simp only [unlogged, Desk.mk.injEq, and_true] at h ⊢
  obtain ⟨hcatalogue, hledger, htally⟩ := h
  have hresult : (d.visit front o site state).2 = (d'.visit front o site state).2 := by
    rw [result_visit, result_visit, hcatalogue, hledger]
  refine ⟨⟨?_, ?_, ?_⟩, hresult⟩
  · rw [catalogue_visit_eq, catalogue_visit_eq, hcatalogue]
  · rw [ledger_visit, ledger_visit, hcatalogue, hledger]
  · rw [tally_visit, tally_visit, hresult, htally]

namespace Session

theorem visitAll_unlogged (realm : Datum) (o : Options) (sites : List CastSite) :
    ∀ {d d' : Desk DumpScope}, d.unlogged = d'.unlogged →
      (visitAll realm o d sites).1.unlogged = (visitAll realm o d' sites).1.unlogged ∧
        (visitAll realm o d sites).2 = (visitAll realm o d' sites).2 := by
  induction sites with
  | nil =>
    intro d d' h
    exact ⟨h, rfl⟩
  | cons s rest ih =>
    intro d d' h
    obtain ⟨hdesk, hresult⟩ := Desk.visit_unlogged (frontEnd realm) o s.site (.int s.path) h
    rw [visitAll_cons, visitAll_cons]
    generalize d.visit (frontEnd realm) o s.site (.int s.path) = step at hdesk hresult ⊢
    generalize d'.visit (frontEnd realm) o s.site (.int s.path) = step' at hdesk hresult ⊢
    obtain ⟨next, result⟩ := step
    obtain ⟨next', result'⟩ := step'
    obtain rfl : result = result' := hresult
    cases result with
    | error f => exact ⟨hdesk, rfl⟩
    | ok out => exact ih hdesk

theorem run_unlogged (c : Configuration) {s s' : Session} (h : s.unlogged = s'.unlogged) :
    (s.run c).1.unlogged = (s'.run c).1.unlogged ∧ (s.run c).2 = (s'.run c).2 := by
  obtain ⟨o, serial, realm, pending, d⟩ := s
  obtain ⟨o', serial', realm', pending', d'⟩ := s'
  simp only [unlogged, Session.mk.injEq] at h
  obtain ⟨rfl, rfl, rfl, rfl, hdesk⟩ := h
  rw [run_eq, run_eq]
  dsimp only
  cases c.castSites o with
  | mk sites listing =>
    cases listing with
    | error f => exact ⟨by simp only [unlogged, configure, hdesk], rfl⟩
    | ok u =>
      have hnoted : (d.note [collectedLine sites]).unlogged =
          (d'.note [collectedLine sites]).unlogged := hdesk
      obtain ⟨hvisits, hresult⟩ := visitAll_unlogged (realmOf (serial + 1) c) o sites hnoted
      dsimp only
      generalize visitAll (realmOf (serial + 1) c) o (d.note _) sites = step at hvisits hresult ⊢
      generalize visitAll (realmOf (serial + 1) c) o (d'.note _) sites = step' at hvisits hresult ⊢
      obtain ⟨next, result⟩ := step
      obtain ⟨next', result'⟩ := step'
      obtain rfl : result = result' := hresult
      cases result with
      | error f => exact ⟨by simp only [unlogged, configure, hvisits], rfl⟩
      | ok u => exact ⟨by simp only [unlogged, configure, hvisits], rfl⟩

theorem runAll_unlogged (cs : List Configuration) :
    ∀ {s s' : Session}, s.unlogged = s'.unlogged →
      (s.runAll cs).1.unlogged = (s'.runAll cs).1.unlogged ∧
        (s.runAll cs).2 = (s'.runAll cs).2 := by
  induction cs with
  | nil =>
    intro s s' h
    exact ⟨h, rfl⟩
  | cons c rest ih =>
    intro s s' h
    obtain ⟨hsession, hresult⟩ := run_unlogged c h
    rw [runAll_cons, runAll_cons]
    generalize s.run c = step at hsession hresult ⊢
    generalize s'.run c = step' at hsession hresult ⊢
    obtain ⟨next, result⟩ := step
    obtain ⟨next', result'⟩ := step'
    obtain rfl : result = result' := hresult
    cases result with
    | error f => exact ⟨hsession, rfl⟩
    | ok u => exact ih hsession

end Session

/-! ## One path after the other -/

namespace AddonState

/-- The addon after some looks: the session is that of the flat run, up to the log, and the report
is complete. -/
structure Reflects (o : Options) (a : AddonState) (ls : List Look) : Prop where
  session : a.session.unlogged = ((Session.new o).runAll (loadedConfigurations ls)).1.unlogged
  findings : a.report.findings = a.session.findings
  files : a.report.files = loadedPaths ls
  failed : a.failed = ls.any (·.dump.isNone)
  looks : a.looks = ls.length

variable {o : Options} {fs : Files} {a : AddonState} {ls : List Look}

theorem reflects_start (o : Options) (readings : Nat) :
    Reflects o { session := .new o, readings := readings } [] where
  session := rfl
  findings := rfl
  files := rfl
  failed := rfl
  looks := rfl

/-- A path that is passed over changes nothing but the log. -/
theorem Reflects.passOver (h : Reflects o a ls) (path text : String) :
    Reflects o ({ a with looks := a.looks + 1 }.passOver text) (ls ++ [⟨path, none⟩]) where
  session := by
    have hsame : loadedConfigurations (ls ++ [⟨path, none⟩]) = loadedConfigurations ls := by
      simp [loadedConfigurations]
    rw [hsame]
    exact h.session
  findings := h.findings
  files := by
    have hsame : loadedPaths (ls ++ [⟨path, none⟩]) = loadedPaths ls := by simp [loadedPaths]
    rw [hsame]
    exact h.files
  failed := by simp [AddonState.passOver]
  looks := by
    rw [List.length_append, ← h.looks]
    rfl

/-- **One path.**  The addon gets over it without a fault, and afterwards reflects one more look. -/
theorem Reflects.check (h : Reflects o a ls) (hfs : fs.Reporting) (clock : Clock) (path : String)
    (hdone : ((Session.new o).runAll
      (loadedConfigurations (ls ++ [⟨path, fs.open? ls.length path⟩]))).2 = .ok ()) :
    (a.check fs clock path).2 = .ok () ∧
      Reflects o (a.check fs clock path).1 (ls ++ [⟨path, fs.open? ls.length path⟩]) := by
  rw [← h.looks] at hdone ⊢
  cases hfile : fs.isFile a.looks path with
  | false =>
    simp only [AddonState.check, Files.open?, hfile]
    exact ⟨rfl, h.passOver path _⟩
  | true =>
    cases hload : fs.load a.looks path with
    | error f =>
      obtain ⟨p, cause, rfl⟩ := hfs _ _ _ hload
      simp only [AddonState.check, Files.open?, hfile, hload]
      exact ⟨rfl, h.passOver path _⟩
    | ok cs =>
      have hopen : fs.open? a.looks path = some cs := by
        simp only [Files.open?, hfile, hload]
        rfl
      have hadded : loadedConfigurations (ls ++ [⟨path, some cs⟩]) =
          loadedConfigurations ls ++ cs := by
        simp [loadedConfigurations]
      rw [hopen, hadded] at hdone
      obtain ⟨hbefore, hafter⟩ := Session.runAll_append_ok_iff.1 hdone
      -- the line about the path has no influence on the runs
      let noted := { a with looks := a.looks + 1 }.note .info ("checking " ++ path)
      have hnoted : noted.session.unlogged = _ := h.session
      obtain ⟨hsession, hresult⟩ := Session.runAll_unlogged cs hnoted
      rw [hafter] at hresult
      rw [← Session.runAll_append_of_ok hbefore, ← hadded] at hsession
      cases hruns : noted.session.runAll cs with
      | mk session result =>
        rw [hruns] at hsession hresult
        obtain rfl : result = .ok () := hresult
        simp only [AddonState.check, hfile, hload, Session.report, hopen]
        rw [hruns]
        refine ⟨rfl, hsession, rfl, ?_, ?_, ?_⟩
        · show a.report.files ++ [path] = _
          simp [h.files, loadedPaths]
        · show a.failed = _
          simp [h.failed]
        · show a.looks + 1 = _
          simp [h.looks]

/-- **Any number of paths.** -/
theorem Reflects.checkAll (hfs : fs.Reporting) (clock : Clock) (paths : List String) :
    ∀ {a : AddonState} {ls : List Look}, Reflects o a ls →
      (∀ c ∈ loadedConfigurations (ls ++ fs.looks ls.length paths),
        ((Session.new o).run c).2 = .ok ()) →
      (a.checkAll fs clock paths).2 = .ok () ∧
        Reflects o (a.checkAll fs clock paths).1 (ls ++ fs.looks ls.length paths) := by
  induction paths with
  | nil =>
    intro a ls h _
    rw [Files.looks, List.append_nil]
    exact ⟨rfl, h⟩
  | cons path rest ih =>
    intro a ls h hruns
    rw [Files.looks, List.append_cons] at hruns ⊢
    have hfirst : ∀ c ∈ loadedConfigurations (ls ++ [⟨path, fs.open? ls.length path⟩]),
        ((Session.new o).run c).2 = .ok () := by
      intro c hc
      refine hruns c ?_
      rw [loadedConfigurations, List.flatMap_append]
      exact List.mem_append_left _ hc
    obtain ⟨hresult, hnext⟩ := h.check hfs clock path
      (Session.Ready.runAll hfirst (Session.ready_new o)).1
    have hlength : ls.length + 1 = (ls ++ [Look.mk path (fs.open? ls.length path)]).length := by
      simp
    rw [hlength] at hruns ⊢
    have hrest := ih hnext hruns
    rw [AddonState.checkAll]
    generalize a.check fs clock path = step at hresult hrest ⊢
    obtain ⟨a', result⟩ := step
    obtain rfl : result = .ok () := hresult
    exact hrest

/-- The exit code, from what the addon reflects. -/
theorem Reflects.exitCode_eq (h : Reflects o a ls) :
    a.exitCode = exitCodeOf ls a.report.findings := by
  have hdead : a.report.deadCasts = 0 ↔ a.report.findings.any (·.id == deadCastId) = false := by
    rw [Report.deadCasts, List.length_eq_zero_iff, List.filter_eq_nil_iff, List.any_eq_false]
  rw [exitCode, exitCodeOf, h.failed]
  congr 1
  cases hany : a.report.findings.any (·.id == deadCastId) with
  | false => simp [hdead.2 hany]
  | true => simp [hdead, hany]

/-- The report has the findings of the flat run. -/
theorem Reflects.findings_eq (h : Reflects o a ls) :
    a.report.findings = ((Session.new o).runAll (loadedConfigurations ls)).1.findings := by
  have hsame : a.session.unlogged.findings = _ := congrArg Session.findings h.session
  exact h.findings.trans hsame

end AddonState

/-! ## The exit code -/

/-- The exit code of a flat run tells whether a configuration warns. -/
theorem any_dead_iff_warns {o : Options} {cs : List Configuration}
    (hruns : ∀ c ∈ cs, ((Session.new o).run c).2 = .ok ()) :
    ((Session.new o).runAll cs).1.findings.any (·.id == deadCastId) = true ↔
      ∃ c ∈ cs, c.Warns o := by
  have hdead := (Session.Ready.runAll hruns (Session.ready_new o)).2.2
  have hnew : ¬ (Session.new o).desk.ledger.HasId deadCastId := by simp [Session.new, Ledger.HasId]
  rw [or_iff_right hnew] at hdead
  rw [← hdead, List.any_eq_true]
  simp [Ledger.HasId, Session.findings]

/-- Neither the order of the looks nor the options, the kinds of casts apart, have an influence on
the exit code. -/
theorem exitCodeOf_congr {o o' : Options} {ls ls' : List Look} (hkinds : o'.castKinds = o.castKinds)
    (hperm : ls.Perm ls')
    (hruns : ∀ c ∈ loadedConfigurations ls, ((Session.new o).run c).2 = .ok ())
    (hruns' : ∀ c ∈ loadedConfigurations ls', ((Session.new o').run c).2 = .ok ()) :
    exitCodeOf ls' ((Session.new o').runAll (loadedConfigurations ls')).1.findings =
      exitCodeOf ls ((Session.new o).runAll (loadedConfigurations ls)).1.findings := by
  have hfailed : ls'.any (·.dump.isNone) = ls.any (·.dump.isNone) := hperm.symm.any_eq
  have hmem : ∀ c, c ∈ loadedConfigurations ls' ↔ c ∈ loadedConfigurations ls :=
    fun c => (hperm.symm.flatMap_right _).mem_iff
  have hdead : ((Session.new o').runAll (loadedConfigurations ls')).1.findings.any
        (·.id == deadCastId) =
      ((Session.new o).runAll (loadedConfigurations ls)).1.findings.any (·.id == deadCastId) := by
    rw [Bool.eq_iff_iff, any_dead_iff_warns hruns, any_dead_iff_warns hruns']
    simp only [hmem, Configuration.warns_congr _ hkinds]
  rw [exitCodeOf, exitCodeOf, hfailed, hdead]

theorem Files.Steady.looks_eq {fs : Files} (h : fs.Steady) (paths : List String) :
    ∀ k, fs.looks k paths = paths.map fun path => ⟨path, fs.open? 0 path⟩ := by
  have hopen : ∀ k path, fs.open? k path = fs.open? 0 path := by
    intro k path
    rw [open?, open?, isFile, isFile, load, load, h k path]
  induction paths with
  | nil =>
    intro k
    rfl
  | cons path rest ih =>
    intro k
    rw [looks, ih, hopen, List.map_cons]

/-! ## What the addon comes to -/

/-- The addon ends with its report printed in the chosen form. -/
theorem runAddon_eq {fs : Files} {o : Options} {paths : List String} (hfs : fs.Reporting)
    (hruns : ∀ c ∈ loadedConfigurations (fs.looks 0 paths), ((Session.new o).run c).2 = .ok ())
    (encoder : JsonEncoder) (clock : Clock) :
    ∃ stats, let findings := ((Session.new o).runAll
        (loadedConfigurations (fs.looks 0 paths))).1.findings
      let printed := Report.printed ⟨findings, stats, loadedPaths (fs.looks 0 paths)⟩ encoder o
      (runAddon encoder fs clock o paths).output = printed.1 ∧
        (runAddon encoder fs clock o paths).result =
          printed.2.map fun _ => exitCodeOf (fs.looks 0 paths) findings := by
  obtain ⟨hresult, hreflects⟩ :=
    (AddonState.reflects_start o 1).checkAll hfs clock paths hruns
  simp only [runAddon]
  generalize AddonState.checkAll _ fs clock paths = step at hresult hreflects ⊢
  obtain ⟨a, result⟩ := step
  obtain rfl : result = .ok () := hresult
  have hfindings : a.report.findings =
      ((Session.new o).runAll (loadedConfigurations (fs.looks 0 paths))).1.findings :=
    hreflects.findings_eq
  have hfiles : a.report.files = loadedPaths (fs.looks 0 paths) := hreflects.files
  have hcode : a.exitCode = exitCodeOf (fs.looks 0 paths) a.report.findings :=
    hreflects.exitCode_eq
  refine ⟨(a.report.setStat "elapsed_ms" (clock.elapsed 0 a.readings)).stats, ?_⟩
  dsimp only
  rw [← hfindings, ← hfiles, ← hcode]
  exact ⟨rfl, rfl⟩

/-- The first line of a summary. -/
def headLine (found dumps : Nat) : String :=
  "enum cast check: " ++ Nat.repr found ++ " finding(s) in " ++ Nat.repr dumps ++ " dump file(s)"

/-- What is printed about findings in a number of dumps, by the output option, and how printing
ends: a line for each finding, or a count of the dead casts and of the dumps, and statistics below.
Only lines can fail. -/
inductive Printed (encoder : JsonEncoder) (findings : List Finding) (dumps : Nat) :
    Datum → String → Except Fault Unit → Prop
  | json {text : String} {result : Except Fault Unit}
    (hlines : Prints (Finding.jsonLine encoder) findings text result) :
    Printed encoder findings dumps (.text "json") text result
  | plain {text : String} {result : Except Fault Unit}
    (hlines : Prints Finding.plainLine findings text result) :
    Printed encoder findings dumps (.text "gcc") text result
  | summary {output : Datum} (hjson : output ≠ .text "json") (hplain : output ≠ .text "gcc")
    (stats : List (String × Datum)) :
    Printed encoder findings dumps output
      (terminated (headLine (findings.filter (·.id == deadCastId)).length dumps ::
        stats.map Report.statLine)) (.ok ())

theorem Report.printed_spec (r : Report) (encoder : JsonEncoder) (o : Options) :
    Printed encoder r.findings r.files.length o.output (r.printed encoder o).1
      (r.printed encoder o).2 := by
  unfold printed
  split
  next hjson =>
    rw [Datum.isText_iff.1 hjson]
    exact .json (prints_writeLines (.json encoder) r.findings)
  next hjson =>
    split
    next hplain =>
      rw [Datum.isText_iff.1 hplain]
      exact .plain (prints_writeLines .plain r.findings)
    next hplain =>
      rw [Datum.isText_iff] at hjson hplain
      rw [summary, intercalate_newline (List.cons_ne_nil _ _)]
      exact .summary hjson hplain _

/-- Any other output option stands for a summary, which is printed in full. -/
theorem Printed.summary_inv {encoder : JsonEncoder} {findings : List Finding} {dumps : Nat}
    {output : Datum} {text : String} {result : Except Fault Unit} (hjson : output ≠ .text "json")
    (hplain : output ≠ .text "gcc") (h : Printed encoder findings dumps output text result) :
    result = .ok () ∧ ∃ stats : List (String × Datum), text =
      terminated (headLine (findings.filter (·.id == deadCastId)).length dumps ::
        stats.map Report.statLine) := by
  cases h with
  | json => exact absurd rfl hjson
  | plain => exact absurd rfl hplain
  | summary _ _ stats => exact ⟨rfl, stats, rfl⟩

/-- What the addon prints, and how it ends, by the report of the flat run. -/
theorem runAddon_printed {fs : Files} {o : Options} {paths : List String} (hfs : fs.Reporting)
    (hruns : ∀ c ∈ loadedConfigurations (fs.looks 0 paths), ((Session.new o).run c).2 = .ok ())
    (encoder : JsonEncoder) (clock : Clock) :
    let ls := fs.looks 0 paths
    ∃ r written, ((Session.new o).report clock 0 (loadedConfigurations ls)).2 = .ok r ∧
      r.findings = ((Session.new o).runAll (loadedConfigurations ls)).1.findings ∧
      Printed encoder r.findings (loadedPaths ls).length o.output
        (runAddon encoder fs clock o paths).output written ∧
      (runAddon encoder fs clock o paths).result =
        written.map fun _ => exitCodeOf ls r.findings := by
  intro ls
  have hdone := (Session.Ready.runAll hruns (Session.ready_new o)).1
  obtain ⟨stats, houtput, hresult⟩ := runAddon_eq hfs hruns encoder clock
  refine ⟨_, _, Session.report_eq_ok_iff.2 ⟨hdone, rfl⟩, rfl, ?_, hresult⟩
  rw [houtput]
  exact Report.printed_spec ⟨_, stats, loadedPaths ls⟩ encoder o

/-- **The addon makes one flat run.**  Dumps that cannot be loaded are reported as such, and no
configuration has a run that ends in a fault.  Then one run of a new session over the configurations
of all dumps that can be loaded, in the order of the paths, has a report.  The addon prints a line
for each finding of that report, in order, or a summary that counts its dead casts and the loaded
dumps.  The exit code is `2` if a path was passed over, else `1` if there is a finding about a dead
cast, else `0`; it is returned unless there is a finding that has no line.

If looks at the same path always find the same, the exit code is the same for any order of the paths
and any options about output, repetitions and range faults. -/
theorem runAddon_flat {fs : Files} {o : Options} {paths : List String} (hfs : fs.Reporting)
    (hruns : ∀ c ∈ loadedConfigurations (fs.looks 0 paths), ((Session.new o).run c).2 = .ok ())
    (encoder : JsonEncoder) (clock : Clock) :
    ∃ r code, ((Session.new o).report clock 0 (loadedConfigurations (fs.looks 0 paths))).2 = .ok r ∧
      code = exitCodeOf (fs.looks 0 paths) r.findings ∧
      (∃ written, Printed encoder r.findings (loadedPaths (fs.looks 0 paths)).length o.output
          (runAddon encoder fs clock o paths).output written ∧
        (runAddon encoder fs clock o paths).result = written.map fun _ => code) ∧
      ∀ (output drops reports : Datum) (paths' : List String),
        let o' := { o with output := output, dropRepeats := drops, reportFaults := reports }
        fs.Steady → paths.Perm paths' →
        (∀ c ∈ loadedConfigurations (fs.looks 0 paths'), ((Session.new o').run c).2 = .ok ()) →
        ∃ r' written, ((Session.new o').report clock 0
            (loadedConfigurations (fs.looks 0 paths'))).2 = .ok r' ∧
          Printed encoder r'.findings (loadedPaths (fs.looks 0 paths')).length output
            (runAddon encoder fs clock o' paths').output written ∧
          (runAddon encoder fs clock o' paths').result = written.map fun _ => code := by
  obtain ⟨r, written, hr, hfindings, hprinted, hresult⟩ := runAddon_printed hfs hruns encoder clock
  refine ⟨r, _, hr, rfl, ⟨written, hprinted, hresult⟩, ?_⟩
  intro output drops reports paths' o' hsteady hperm hruns'
  obtain ⟨r', written', hr', hfindings', hprinted', hresult'⟩ :=
    runAddon_printed hfs hruns' encoder clock
  have hlooks : (fs.looks 0 paths).Perm (fs.looks 0 paths') := by
    rw [hsteady.looks_eq, hsteady.looks_eq]
    exact hperm.map _
  have hcode : exitCodeOf (fs.looks 0 paths') r'.findings =
      exitCodeOf (fs.looks 0 paths) r.findings := by
    rw [hfindings, hfindings']
    exact exitCodeOf_congr rfl hlooks hruns hruns'
  rw [hcode] at hresult'
  exact ⟨r', written', hr', hprinted', hresult'⟩

/-- The dump of a safe cast and the dump of a dead one. -/
def Files.twoDumps : Files where
  lookUp _ path :=
    if path = "a" then .parsed [.castOfFour 4]
    else if path = "b" then .parsed [.castOfFour 5]
    else .missing

namespace Files

theorem reporting_twoDumps : twoDumps.Reporting := by
  intro k path f hload
  by_cases ha : path = "a"
  · simp [load, twoDumps, ha] at hload
  · by_cases hb : path = "b"
    · simp [load, twoDumps, hb] at hload
    · simp only [load, twoDumps, ha, hb, if_true, if_false] at hload
      exact ⟨_, _, (Except.error.inj hload).symm⟩

theorem run_twoDumps {c : Configuration} (hc : c ∈ [.castOfFour 4, .castOfFour 5])
    (output : Datum) : ((Session.new { output := output }).run c).2 = .ok () := by
  rcases List.mem_cons.1 hc with rfl | hlast
  · cbv
  · obtain rfl := List.mem_singleton.1 hlast
    cbv

end Files

/-- With a missing dump between the two others the summary counts one dead cast in two dumps and the
exit code is `2`.  If the paths come in another order and the findings are printed as JSON, the exit
code is the same if there is one. -/
theorem runAddon_flat_twoDumps :
    let fs := Files.twoDumps
    let clock := Clock.ticking (.finite 1)
    let o : Options := { output := .text "summary" }
    let paths := ["a", "gone", "b"]
    (runAddon {} fs clock o paths).result = .ok 2 ∧
      (∃ stats : List (String × Datum), (runAddon {} fs clock o paths).output = terminated
        ("enum cast check: 1 finding(s) in 2 dump file(s)" :: stats.map Report.statLine)) ∧
      ∃ r written, ((Session.new {}).report clock 0 [.castOfFour 5, .castOfFour 4]).2 = .ok r ∧
        Printed {} r.findings 2 (.text "json") (runAddon {} fs clock {} ["b", "a", "gone"]).output
          written ∧
        (runAddon {} fs clock {} ["b", "a", "gone"]).result = written.map fun _ => 2 := by
  intro fs clock o paths
  have hruns : ∀ c ∈ loadedConfigurations (fs.looks 0 paths),
      ((Session.new o).run c).2 = .ok () := fun c hc => Files.run_twoDumps hc _
  have hruns' : ∀ c ∈ loadedConfigurations (fs.looks 0 ["b", "a", "gone"]),
      ((Session.new {}).run c).2 = .ok () := by
    intro c hc
    have hswapped : c ∈ [Configuration.castOfFour 5, .castOfFour 4] := hc
    exact Files.run_twoDumps (by simpa [or_comm] using hswapped) _
  obtain ⟨r, code, hr, hcode, ⟨written, hprinted, hresult⟩, hinvariant⟩ :=
    runAddon_flat Files.reporting_twoDumps hruns {} clock
  have htwo : code = 2 := hcode
  have hfindings : r.findings =
      ((Session.new o).runAll [.castOfFour 4, .castOfFour 5]).1.findings := by
    rw [(Session.report_eq_ok_iff.1 hr).2]
    rfl
  have hone : (r.findings.filter (·.id == deadCastId)).length = 1 := by
    rw [hfindings]
    cbv
  obtain ⟨rfl, stats, houtput⟩ := hprinted.summary_inv (by simp [o]) (by simp [o])
  have hdumps : (loadedPaths (fs.looks 0 paths)).length = 2 := rfl
  have hhead : headLine 1 2 = "enum cast check: 1 finding(s) in 2 dump file(s)" := by decide
  rw [hone, hdumps, hhead] at houtput
  rw [htwo] at hresult hinvariant
  have hsteady : fs.Steady := fun _ _ => rfl
  have hperm : paths.Perm ["b", "a", "gone"] := by decide
  exact ⟨hresult, ⟨stats, houtput⟩,
    hinvariant (.text "json") (.bool true) (.bool false) _ hsteady hperm hruns'⟩

/-! ## Lines that cannot be written -/

/-- A dead cast of `4` in a given line. -/
def Configuration.deadCastAt (line : Datum) : Configuration where
  tokens := #[
    { str := some (.text "A"), knownValue := some (.int 5) },
    { str := some (.text "("), file := some (.text "a.c"), line := some line,
      isCast := some (.bool true), operand1 := some 2, valueType := some { scope := some 0 } },
    { str := some (.text "x"), valueType := some { type := some (.text "int") },
      facts := [{ value := some (.int 4), kind := some (.text "known") }] }]
  scopes := #[{ id := some (.text "s1"), type := some (.text "Enum"), nameTokens := [some 0] }]
  listed := [0, 1, 2]

/-- The finding about the cast. -/
def Finding.deadCastAt (line : Datum) : Finding where
  id := deadCastId
  category := "Enum cast out of range"
  message := "The value provided to the cast expression is not in the valid range " ++
    "of values for the enum."
  severity := .severity .warning
  location := { file := .text "a.c", line := line }
  path := .int 0
  cwe := .int 704
  evidence := [("enum", .text "enum <anonymous>"), ("enumerators", .list [.int 5]),
    ("ranges", .list [.text "[4, 4]"]), ("path", .int 0)]

/-- The dump of the cast at every path. -/
def Files.deadCastAt (line : Datum) : Files where
  lookUp _ _ := .parsed [.deadCastAt line]

theorem Files.reporting_deadCastAt (line : Datum) : (deadCastAt line).Reporting := by
  intro k path f hload
  cases hload

/-- How the addon ends on the dump, if the finding about the cast is the only one. -/
theorem runAddon_deadCastAt {line output : Datum}
    (hrun : ((Session.new { output := output }).run (.deadCastAt line)).2 = .ok ())
    (hfindings : ((Session.new { output := output }).runAll [.deadCastAt line]).1.findings =
      [.deadCastAt line]) (encoder : JsonEncoder) (clock : Clock) :
    (runAddon encoder (.deadCastAt line) clock { output := output } ["d"]).result =
      match LineFormat.ofDatum encoder output with
      | .ok format => (format.line (.deadCastAt line)).map fun _ => 1
      | .error _ => .ok 1 := by
  have hruns : ∀ c ∈ loadedConfigurations ((Files.deadCastAt line).looks 0 ["d"]),
      ((Session.new { output := output }).run c).2 = .ok () := by
    intro c hc
    obtain rfl : c = .deadCastAt line := List.mem_singleton.1 hc
    exact hrun
  have hone : ∀ format : LineFormat, (writeLines format [.deadCastAt line]).2.map (fun _ => 1) =
      (format.line (.deadCastAt line)).map fun _ => 1 := by
    intro format
    rw [writeLines]
    cases format.line (.deadCastAt line) <;> rfl
  obtain ⟨stats, -, hresult⟩ := runAddon_eq (Files.reporting_deadCastAt line) hruns encoder clock
  have hloaded : loadedConfigurations ((Files.deadCastAt line).looks 0 ["d"]) =
      [.deadCastAt line] := rfl
  have hcode : exitCodeOf ((Files.deadCastAt line).looks 0 ["d"]) [.deadCastAt line] = 1 := rfl
  rw [hresult, hloaded, hfindings, hcode, Report.printed, LineFormat.ofDatum]
  split
  · exact hone _
  · split
    · exact hone _
    · rfl

/-- The finding as one of texts and integers. -/
def PlainFinding.deadCastAt (line : Int) : PlainFinding where
  id := deadCastId
  category := (Finding.deadCastAt (.int line)).category
  message := (Finding.deadCastAt (.int line)).message
  severity := .warning
  file := "a.c"
  line := line
  column := 0
  cwe := 704
  evidence := (Finding.deadCastAt (.int line)).evidence

theorem PlainFinding.finding_deadCastAt (line : Int) :
    (deadCastAt line).finding = .deadCastAt (.int line) := rfl

/-- An integer that is too long is written in neither format. -/
theorem LineFormat.line_deadCastAt {n : Int} (hn : isWritable n = false) :
    (LineFormat.json {}).line (.deadCastAt (.int n)) = .error .longInteger ∧
      LineFormat.plain.line (.deadCastAt (.int n)) = .error .longInteger := by
  have hnot : ¬ (PlainFinding.deadCastAt n).IsWritable {} := fun h =>
    absurd (hn.symm.trans h.1) (by decide)
  have hplace : (Finding.deadCastAt (.int n)).location.isWritable = false := by
    simp [Finding.deadCastAt, Location.isWritable, Datum.isWritable, hn]
  constructor
  · rw [← PlainFinding.finding_deadCastAt, LineFormat.line, PlainFinding.jsonLine_eq, if_neg hnot]
  · simp only [LineFormat.line, Finding.plainLine, Location.text?, hplace]
    rfl

/-- The addon fails on a finding whose line cannot be written, and its exit code depends on the form
of output: a line that is no integer is not written as JSON, and one with too many digits not at
all, while the summary is printed and the exit code is `1`. -/
theorem runAddon_unwritable_line :
    let code := fun line output =>
      (runAddon {} (.deadCastAt line) (.ticking (.finite 1)) { output := output } ["d"]).result
    (code .aboveAll (.text "json") = .error (.unwritable "_Unbounded") ∧
      code .aboveAll (.text "gcc") = .ok 1 ∧ code .aboveAll (.text "summary") = .ok 1) ∧
    code (.int (10 ^ digitLimit)) (.text "json") = .error .longInteger ∧
      code (.int (10 ^ digitLimit)) (.text "gcc") = .error .longInteger ∧
      code (.int (10 ^ digitLimit)) (.text "summary") = .ok 1 := by
  intro code
  have hinfinite : ∀ output, code .aboveAll output = _ := fun output =>
    runAddon_deadCastAt (by cbv) (by cbv) {} (.ticking (.finite 1))
  have hpositive : ∀ k : Nat, ∀ output, code (.int (Int.ofNat (k + 1))) output = _ :=
    fun k output => runAddon_deadCastAt (by cbv) (by cbv) {} (.ticking (.finite 1))
  -- for evaluation it is enough that the line is not zero
  obtain ⟨k, hk⟩ : ∃ k : Nat, 10 ^ digitLimit = k + 1 :=
    Nat.exists_eq_succ_of_ne_zero (pow_ne_zero digitLimit (by decide))
  have hlong : (10 ^ digitLimit : Int) = Int.ofNat (k + 1) := by
    rw [← hk]
    exact (Nat.cast_pow 10 digitLimit).symm
  have hunwritable : isWritable (Int.ofNat (k + 1)) = false := by
    rw [Bool.eq_false_iff, ne_eq, isWritable_iff, hk]
    exact lt_irrefl _
  obtain ⟨hjson, hplain⟩ := LineFormat.line_deadCastAt hunwritable
  rw [hlong]
  refine ⟨⟨?_, ?_, ?_⟩, ?_, ?_, ?_⟩
  · rw [hinfinite]
    rfl
  · rw [hinfinite]
    rfl
  · rw [hinfinite]
    rfl
  · rw [hpositive]
    exact congrArg (Except.map fun _ => 1) hjson
  · rw [hpositive]
    exact congrArg (Except.map fun _ => 1) hplain
  · rw [hpositive]
    rfl

end DeadCast

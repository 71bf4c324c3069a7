import DeadCast.Proofs.Run.Completion
import DeadCast.Proofs.Run.Exactness
import Mathlib

/-!
# Calls of the three steps in any order

`configure`, `collect` and `diagnose` can be called one by one, in any order and for different
configurations, whose scopes may have the same identifiers.  When is every cast judged by what its
own target declares (`CastSite.JudgedRightly`)?

It is not enough that the casts of a configuration are collected before it is diagnosed.  `diagnose`
opens a realm only if there is none yet, so two configurations can be diagnosed in one realm, and
then a cast of the second is judged by a scope of the first that has the same identifier
(`Session.diagnose_mistaken`).  And a collection that ends in a fault leaves the casts of another
configuration pending, which are then visited instead (`Session.diagnose_stale`).

It is enough if the casts of each configuration are collected without a fault before it is
diagnosed, and if all configurations that are diagnosed in one realm are the same (`Trail.Allows`).
Then the entries of the catalogue under keys of the realm are those of this configuration, and all
others have older serial numbers and are never found (`Session.Follows`); each call keeps it so, and
all casts are judged rightly (`Session.judged_of_orderly`).
-/

namespace DeadCast

/-! ## One cast -/

/-- The cast, visited at the desk, is judged by what its target declares: that is what is fetched,
and the visit warns exactly if the cast is dead. -/
structure CastSite.JudgedRightly (s : CastSite) (realm : Datum) (o : Options) (d : Desk DumpScope) :
    Prop where
  values : ∀ ref e, (frontEnd realm).classify s.site.target = .ok (.plainEnum ref) →
    (d.catalogue.fetch (frontEnd realm).constants ref).result = .ok e →
    ∃ k scope, s.CastsTo k scope ∧ Lists e.values (scope.Declares s.configuration)
  verdict : ∀ out, (d.visit (frontEnd realm) o s.site (.int s.path)).2 = .ok out →
    (out = .warn ↔ s.IsDead)

namespace CastSite

variable {s : CastSite} {realm : Datum} {o : Options} {foreign : Datum → Prop}

/-- With the values of its target, a visit warns exactly if the cast is dead. -/
theorem outcome_endingWith_iff {k : Nat} {scope : Scope} {e : EnumValues DumpScope} {out : Outcome}
    (hcast : s.CastsTo k scope) (hlists : Lists e.values (scope.Declares s.configuration))
    (h : (endingWith o s.site e
      ((frontEnd realm).assess s.site (.int s.path))).2.outcome = .ok out) :
    out = .warn ↔ s.IsDead := by
  generalize hassess : (frontEnd realm).assess s.site (.int s.path) = answer at h
  cases answer with
  | ok range =>
    cases range with
    | none =>
      cases h
      have hdead : ¬ s.IsDead := not_isDead_of_assess hassess (by simp) (by simp)
      simp [hdead]
    | some r =>
      rw [isDead_iff hcast hlists hassess]
      simp only [endingWith] at h
      cases hverdict : Verdict.decide e.values r with
      | safe =>
        rw [hverdict] at h
        cases h
        simp
      | warn =>
        rw [hverdict] at h
        cases hwrite : r.isWritable with
        | false =>
          simp only [hwrite] at h
          cases h
        | true =>
          simp only [hwrite] at h
          cases h
          simp
  | error f =>
    cases f with
    | range f =>
      have hdead : ¬ s.IsDead := not_isDead_of_assess hassess (by simp) (by simp)
      simp only [endingWith] at h
      cases hreport : o.reportFaults.isTrue with
      | false =>
        simp only [hreport] at h
        cases h
        simp [hdead]
      | true =>
        simp only [hreport] at h
        cases h
        simp [hdead]
    | _ => cases h

/-- **One visit.**  If the catalogue is faithful to the configuration of the cast, apart from keys
that are never found, then the cast is judged rightly. -/
theorem judgedRightly_of_faithfulApart {d : Desk DumpScope}
    (h : d.catalogue.FaithfulApart foreign s.configuration realm)
    (hforeign : ∀ key own, foreign key → key.sameKey (.tuple [realm, own]) = false)
    (hids : s.configuration.ScopesIdentified) (hrealm : realm.isNothing = false) (o : Options) :
    s.JudgedRightly realm o d := by
  have hvalues : ∀ ref e, (frontEnd realm).classify s.site.target = .ok (.plainEnum ref) →
      (d.catalogue.fetch (frontEnd realm).constants ref).result = .ok e →
      ∃ k scope, s.CastsTo k scope ∧ Lists e.values (scope.Declares s.configuration) := by
    intro ref e htarget hfetch
    obtain ⟨k, scope, hcast, rfl⟩ := classify_iff.1 (Except.ok.inj htarget)
    refine ⟨k, scope, hcast, ?_⟩
    obtain ⟨-, -, -, -, -, -, hk, henum⟩ := hcast
    exact (h.fetch hforeign hids hrealm hk henum).2 e hfetch
  refine ⟨hvalues, ?_⟩
  intro out hout
  rw [Desk.result_visit] at hout
  have houtcome := Ending.outcome_eq_of_result hout
  cases htarget : (frontEnd realm).classify s.site.target with
  | error f => cases htarget
  | ok kind =>
    cases kind with
    | notEnum =>
      simp only [Catalogue.course, htarget] at houtcome
      cases houtcome
      have hdead := not_isDead_of_notEnum (Except.ok.inj htarget)
      simp [hdead]
    | plainEnum ref =>
      cases hfetch : (d.catalogue.fetch (frontEnd realm).constants ref).result with
      | error f =>
        simp only [Catalogue.course, htarget, hfetch] at houtcome
        cases houtcome
      | ok e =>
        simp only [Catalogue.course, htarget, hfetch] at houtcome
        obtain ⟨k, scope, hcast, hlists⟩ := hvalues ref e htarget hfetch
        exact outcome_endingWith_iff hcast hlists houtcome

/-- A visit to a cast of the configuration leaves the catalogue faithful. -/
theorem faithfulApart_visit {d : Desk DumpScope}
    (h : d.catalogue.FaithfulApart foreign s.configuration realm)
    (hrealm : realm.isNothing = false) (o : Options) :
    (d.visit (frontEnd realm) o s.site (.int s.path)).1.catalogue.FaithfulApart foreign
      s.configuration realm := by
  rw [Desk.catalogue_visit_eq]
  refine Catalogue.course_forall
    (fun key e => foreign key ∨ EnumValues.KeptUnder s.configuration realm key e) h ?_ o _
  intro ref found htarget hfound
  obtain ⟨k, scope, hcast, rfl⟩ := classify_iff.1 (Except.ok.inj htarget)
  obtain ⟨-, -, -, -, -, -, hk, henum⟩ := hcast
  exact Or.inr (Catalogue.keptUnder_ofConstants hrealm hk henum hfound)

end CastSite

namespace Session

/-! ## The visits of one call -/

/-- The visits that are made until one ends in a fault: each cast with the desk at which it is
visited. -/
def visits (realm : Datum) (o : Options) (d : Desk DumpScope) :
    List CastSite → List (CastSite × Desk DumpScope)
  | [] => []
  | s :: rest =>
    (s, d) ::
      match d.visit (frontEnd realm) o s.site (.int s.path) with
      | (d, .ok _) => visits realm o d rest
      | (_, .error _) => []

/-- If no visit ends in a fault, all casts are visited. -/
theorem visits_of_ok {realm : Datum} {o : Options} {sites : List CastSite} :
    ∀ {d : Desk DumpScope}, (visitAll realm o d sites).2 = .ok () →
      (visits realm o d sites).map Prod.fst = sites := by
  induction sites with
  | nil =>
    intro d _
    rfl
  | cons s rest ih =>
    intro d h
    rw [visitAll_cons] at h
    rw [visits, List.map_cons]
    generalize d.visit (frontEnd realm) o s.site (.int s.path) = step at h ⊢
    obtain ⟨next, result⟩ := step
    cases result with
    | error f => cases h
    | ok out => exact congrArg (s :: ·) (ih h)

/-- **The visits to casts of one configuration** judge them rightly, and leave the catalogue
faithful, whether or not the last of them ends in a fault. -/
theorem judged_visits {c : Configuration} {realm : Datum} {foreign : Datum → Prop}
    (hforeign : ∀ key own, foreign key → key.sameKey (.tuple [realm, own]) = false)
    (hids : c.ScopesIdentified) (hrealm : realm.isNothing = false) (o : Options) :
    ∀ {sites : List CastSite} {d : Desk DumpScope}, (∀ s ∈ sites, s.configuration = c) →
      d.catalogue.FaithfulApart foreign c realm →
      (∀ v ∈ visits realm o d sites, v.1.configuration = c ∧ v.1.JudgedRightly realm o v.2) ∧
        (visitAll realm o d sites).1.catalogue.FaithfulApart foreign c realm := by
  intro sites
  induction sites with
  | nil =>
    intro d _ h
    exact ⟨fun v hv => absurd hv List.not_mem_nil, h⟩
  | cons s rest ih =>
    intro d hsites h
    obtain ⟨hs, hrest⟩ := List.forall_mem_cons.1 hsites
    subst hs
    have hjudged := CastSite.judgedRightly_of_faithfulApart h hforeign hids hrealm o
    have hnext := CastSite.faithfulApart_visit h hrealm o
    rw [visits, visitAll_cons, List.forall_mem_cons]
    generalize d.visit (frontEnd realm) o s.site (.int s.path) = step at hnext ⊢
    obtain ⟨next, result⟩ := step
    cases result with
    | error f => exact ⟨⟨⟨rfl, hjudged⟩, fun v hv => absurd hv List.not_mem_nil⟩, hnext⟩
    | ok out =>
      obtain ⟨hall, hlast⟩ := ih hrest hnext
      exact ⟨⟨⟨rfl, hjudged⟩, hall⟩, hlast⟩

/-! ## Calls -/

/-- A call of one of the three steps. -/
inductive Call where
  | configure (c : Configuration)
  | collect (c : Configuration)
  | diagnose (c : Configuration)

/-- The session after a call, whether or not it ends in a fault. -/
def perform (s : Session) : Call → Session
  | .configure c => s.configure c
  | .collect c => (s.collect c).1
  | .diagnose c => (s.diagnose c).1

/-- The session after calls, one after the other. -/
def afterCalls (s : Session) (calls : List Call) : Session := calls.foldl perform s

/-- The session as `diagnose` visits casts in it, with a realm. -/
def inRealm (s : Session) (c : Configuration) : Session :=
  if s.isConfigured then s else s.configure c

/-- The visits that a call of `diagnose` makes. -/
def visitsOf (s : Session) (c : Configuration) : List (CastSite × Desk DumpScope) :=
  visits (s.inRealm c).realm s.options s.desk s.pending

/-- What `diagnose` does. -/
theorem diagnose_eq (s : Session) (c : Configuration) :
    s.diagnose c =
      match visitAll (s.inRealm c).realm s.options s.desk s.pending with
      | (desk, .ok ()) => ({ s.inRealm c with desk := desk, pending := [] }, .ok ())
      | (desk, .error f) => ({ s.inRealm c with desk := desk, pending := s.pending }, .error f) := by
  unfold diagnose inRealm
  cases s.isConfigured <;> rfl

theorem visitsOf_of_ok {s : Session} {c : Configuration} (h : (s.diagnose c).2 = .ok ()) :
    (s.visitsOf c).map Prod.fst = s.pending := by
  refine visits_of_ok ?_
  rw [diagnose_eq] at h
  generalize visitAll (s.inRealm c).realm s.options s.desk s.pending = step at h ⊢
  obtain ⟨desk, result⟩ := step
  cases result with
  | error f => exact h
  | ok u => rfl

theorem options_perform (s : Session) (call : Call) : (s.perform call).options = s.options := by
  cases call with
  | configure c => rfl
  | collect c =>
    simp only [perform, Session.collect]
    split <;> rfl
  | diagnose c =>
    simp only [perform, diagnose_eq, Session.inRealm]
    split <;> split <;> rfl

theorem options_afterCalls (s : Session) (calls : List Call) :
    (s.afterCalls calls).options = s.options := by
  induction calls generalizing s with
  | nil => rfl
  | cons call rest ih => exact (ih (s.perform call)).trans (options_perform s call)

/-- What calls leave behind that decides which configuration may be diagnosed next. -/
structure Trail where
  /-- Whose casts are pending: those of the last configuration that was collected without a fault. -/
  collected : Option Configuration := none
  /-- What was diagnosed since the last call of `configure`. -/
  diagnosed : List Configuration := []

namespace Trail

/-- The trail after one more call. -/
def add (o : Options) (t : Trail) : Call → Trail
  | .configure _ => { t with diagnosed := [] }
  | .collect c =>
    match (c.castSites o).2 with
    | .ok () => { t with collected := some c }
    | .error _ => t
  | .diagnose c => { t with diagnosed := c :: t.diagnosed }

/-- The trail after calls, one after the other. -/
def after (o : Options) (t : Trail) (calls : List Call) : Trail := calls.foldl (Trail.add o) t

/-- The configuration may be diagnosed: its casts are pending, and no other configuration was
diagnosed in the realm. -/
def Allows (t : Trail) (c : Configuration) : Prop :=
  t.collected = some c ∧ ∀ c' ∈ t.diagnosed, c' = c

end Trail

/-- Whatever is diagnosed may be. -/
def Orderly (o : Options) (t : Trail) : List Call → Prop
  | [] => True
  | call :: rest => (∀ c, call = .diagnose c → t.Allows c) ∧ Orderly o (t.add o call) rest

/-- Of two parts of orderly calls, the first is orderly, and so is the second after it. -/
theorem orderly_append {o : Options} {before rest : List Call} :
    ∀ {t : Trail}, Orderly o t (before ++ rest) ↔
      Orderly o t before ∧ Orderly o (t.after o before) rest := by
  induction before with
  | nil => simp [Orderly, Trail.after]
  | cons call before ih =>
    intro t
    rw [List.cons_append, Orderly, Orderly, ih, and_assoc]
    rfl

/-! ## What calls keep -/

/-- The session is as the trail of its calls says. -/
structure Follows (o : Options) (t : Trail) (s : Session) : Prop where
  options : s.options = o
  pending : ∀ site ∈ s.pending, t.collected = some site.configuration
  realm : s.isConfigured = true → ∃ name, s.realm = .tuple [.int s.serial, name]
  empty : s.isConfigured = false → s.desk.catalogue.entries = []
  kept : ∀ entry ∈ s.desk.catalogue.entries, KeyBefore s.serial entry.1 ∨
    ∃ c ∈ t.diagnosed, EnumValues.KeptUnder c s.realm entry.1 entry.2

variable {o : Options} {t : Trail} {s : Session}

theorem follows_new (o : Options) : Follows o {} (new o) where
  options := rfl
  pending := by
    intro site hsite
    cases hsite
  realm := by
    intro h
    cases h
  empty := fun _ => rfl
  kept := by
    intro entry hentry
    cases hentry

/-- A new realm makes all kept values old. -/
theorem Follows.configure (h : Follows o t s) (c : Configuration) :
    Follows o (t.add o (.configure c)) (s.configure c) where
  options := h.options
  pending := h.pending
  realm := fun _ => ⟨_, rfl⟩
  empty := by
    intro hno
    simp [isConfigured, Session.configure] at hno
  kept := by
    intro entry hentry
    refine Or.inl ?_
    cases hconfigured : s.isConfigured with
    | false =>
      have hentry' : entry ∈ s.desk.catalogue.entries := hentry
      rw [h.empty hconfigured] at hentry'
      cases hentry'
    | true =>
      obtain ⟨name, hrealm⟩ := h.realm hconfigured
      rcases h.kept entry hentry with ⟨k, name', own, hkey, hlt⟩ | ⟨c', -, k, scope, -, -, hkey, -⟩
      · exact ⟨k, name', own, hkey, Nat.lt_succ_of_lt hlt⟩
      · exact ⟨s.serial, name, _, hrealm ▸ hkey, Nat.lt_succ_self _⟩

/-- Collected casts are those of the configuration. -/
theorem Follows.collect (h : Follows o t s) (c : Configuration) :
    Follows o (t.add o (.collect c)) (s.collect c).1 := by
  cases hsites : c.castSites o with
  | mk sites listing =>
    simp only [Trail.add, Session.collect, h.options, hsites]
    cases listing with
    | error f => exact h
    | ok u =>
      have horder : c.InTokenOrder c.listed sites := Configuration.sitesFrom_inTokenOrder hsites
      refine ⟨rfl, ?_, h.realm, h.empty, h.kept⟩
      intro site hsite
      rw [horder.configuration_eq site hsite]

theorem Follows.inRealm (h : Follows o t s) {c : Configuration} (hallows : t.Allows c) :
    (∃ name, (s.inRealm c).realm = .tuple [.int (s.inRealm c).serial, name]) ∧
      s.desk.catalogue.FaithfulApart (KeyBefore (s.inRealm c).serial) c (s.inRealm c).realm := by
  unfold Session.inRealm
  cases hconfigured : s.isConfigured with
  | false =>
    refine ⟨⟨_, rfl⟩, ?_⟩
    intro entry hentry
    rw [h.empty hconfigured] at hentry
    cases hentry
  | true =>
    refine ⟨h.realm hconfigured, ?_⟩
    intro entry hentry
    rcases h.kept entry hentry with hold | ⟨c', hc', hkept⟩
    · exact Or.inl hold
    · exact Or.inr (hallows.2 c' hc' ▸ hkept)

/-- **One call of `diagnose`** that is allowed judges all casts rightly. -/
theorem Follows.judged (h : Follows o t s) {c : Configuration} (hallows : t.Allows c)
    (hids : c.ScopesIdentified) :
    (∀ v ∈ s.visitsOf c, v.1.configuration = c ∧
      v.1.JudgedRightly (s.inRealm c).realm o v.2) ∧
      (visitAll (s.inRealm c).realm o s.desk s.pending).1.catalogue.FaithfulApart
        (KeyBefore (s.inRealm c).serial) c (s.inRealm c).realm := by
  obtain ⟨⟨name, hrealm⟩, hfaithful⟩ := h.inRealm hallows
  have hforeign : ∀ key own, KeyBefore (s.inRealm c).serial key →
      key.sameKey (.tuple [(s.inRealm c).realm, own]) = false := by
    intro key own hold
    rw [hrealm]
    exact hold.sameKey_eq_false name own
  have hpending : ∀ site ∈ s.pending, site.configuration = c := by
    intro site hsite
    exact Option.some.inj ((h.pending site hsite).symm.trans hallows.1)
  have hnothing : (s.inRealm c).realm.isNothing = false := by
    rw [hrealm]
    rfl
  rw [visitsOf, h.options]
  exact judged_visits hforeign hids hnothing o hpending hfaithful

/-- After visits in the realm, some or all casts are no longer pending. -/
theorem Follows.visited (h : Follows o t s) {c : Configuration} (hallows : t.Allows c)
    {desk : Desk DumpScope} {pending : List CastSite}
    (hdesk : desk.catalogue.FaithfulApart (KeyBefore (s.inRealm c).serial) c (s.inRealm c).realm)
    (hpending : ∀ site ∈ pending, site ∈ s.pending) :
    Follows o (t.add o (.diagnose c)) { s.inRealm c with desk := desk, pending := pending } where
  options := by
    show (s.inRealm c).options = o
    unfold Session.inRealm
    split
    · exact h.options
    · exact h.options
  pending := fun site hsite => h.pending site (hpending site hsite)
  realm := fun _ => (h.inRealm hallows).1
  empty := by
    intro hno
    have hyes : (s.inRealm c).isConfigured = true := by
      unfold Session.inRealm
      split
      · assumption
      · simp [isConfigured, Session.configure]
    have hno' : (s.inRealm c).isConfigured = false := hno
    rw [hyes] at hno'
    cases hno'
  kept := by
    intro entry hentry
    refine (hdesk entry hentry).imp_right ?_
    intro hkept
    exact ⟨c, List.mem_cons_self .., hkept⟩

theorem Follows.diagnose (h : Follows o t s) {c : Configuration} (hallows : t.Allows c)
    (hids : c.ScopesIdentified) : Follows o (t.add o (.diagnose c)) (s.diagnose c).1 := by
  have hfaithful := (h.judged hallows hids).2
  rw [diagnose_eq, h.options]
  generalize visitAll (s.inRealm c).realm o s.desk s.pending = step at hfaithful ⊢
  obtain ⟨desk, result⟩ := step
  cases result with
  | error f => exact h.visited hallows hfaithful fun _ hsite => hsite
  | ok u => exact h.visited hallows hfaithful fun _ hsite => absurd hsite List.not_mem_nil

/-- **What calls keep.** -/
theorem Follows.afterCalls {calls : List Call} :
    ∀ {t : Trail} {s : Session}, Follows o t s → Orderly o t calls →
      (∀ c, .diagnose c ∈ calls → c.ScopesIdentified) →
      Follows o (t.after o calls) (s.afterCalls calls) := by
  induction calls with
  | nil =>
    intro t s h _ _
    exact h
  | cons call rest ih =>
    intro t s h horderly hids
    obtain ⟨hallows, hrest⟩ := horderly
    have hnext : Follows o (t.add o call) (s.perform call) := by
      cases call with
      | configure c => exact h.configure c
      | collect c => exact h.collect c
      | diagnose c => exact h.diagnose (hallows c rfl) (hids c (List.mem_cons_self ..))
    exact ih hnext hrest fun c hc => hids c (List.mem_cons_of_mem _ hc)

end Session

/-! ## Configurations with equal identifiers -/

/-- The cast in a configuration of `Configuration.castOfFour`. -/
def CastSite.ofFour (value : Int) : CastSite where
  configuration := .castOfFour value
  position := 1
  operand := 2
  path := 0
  location := ⟨.text "", .int 0, .int 0⟩

theorem Configuration.castSites_castOfFour (value : Int) :
    (castOfFour value).castSites {} = ([.ofFour value], .ok ()) := by
  rfl

theorem Configuration.scopesIdentified_castOfFour (value : Int) :
    (castOfFour value).ScopesIdentified := by
  intro j k s t hs ht
  rcases j with _ | j <;> rcases k with _ | k <;> simp_all [castOfFour]

/-- A cast that cannot be collected: a fact about its operand has an infinite path. -/
def Configuration.uncollectable : Configuration where
  tokens := #[
    { str := some (.text "("), isCast := some (.bool true), operand1 := some 1 },
    { str := some (.text "x"),
      facts := [{ value := some (.int 4), path := some (.real (.infinite false)) }] }]
  listed := [0]

namespace Session

/-- The cast is pending after it was collected, and the next call of `diagnose` visits it. -/
theorem ofFour_mem_visitsOf (calls : List Call) (value : Int) :
    let s := (new {}).afterCalls (calls ++ [.collect (.castOfFour value)])
    (.ofFour value, s.desk) ∈ s.visitsOf (.castOfFour value) := by
  have hoptions : ((new {}).afterCalls calls).options = {} := options_afterCalls _ calls
  have hlast : (new {}).afterCalls (calls ++ [.collect (.castOfFour value)]) =
      (((new {}).afterCalls calls).collect (.castOfFour value)).1 := by
    rw [afterCalls, List.foldl_append]
    rfl
  simp only [hlast, Session.collect, hoptions, Configuration.castSites_castOfFour, visitsOf, visits,
    List.mem_cons, true_or]

/-! ## The law and its limit -/

/-- **Casts are judged by their own targets.**  Let scopes be identified inside each configuration,
but not between them.  If every configuration that is diagnosed was the last one to be collected,
and if no two different ones are diagnosed in one realm, then each visit of each call of `diagnose`
is to a cast of that configuration and judges it rightly; and all pending casts are visited, unless
the call ends in a fault. -/
theorem judged_of_orderly {o : Options} {calls : List Call} (horderly : Orderly o {} calls)
    (hids : ∀ c, .diagnose c ∈ calls → c.ScopesIdentified) :
    ∀ before c after, calls = before ++ .diagnose c :: after →
      let s := (new o).afterCalls before
      ((s.diagnose c).2 = .ok () → (s.visitsOf c).map Prod.fst = s.pending) ∧
        ∀ v ∈ s.visitsOf c, v.1.configuration = c ∧
          v.1.JudgedRightly (s.inRealm c).realm o v.2 := by
  rintro before c after rfl
  obtain ⟨hbefore, hallows, -⟩ := orderly_append.1 horderly
  have hfollows := (follows_new o).afterCalls hbefore fun c' hc' =>
    hids c' (List.mem_append_left _ hc')
  exact ⟨visitsOf_of_ok, (hfollows.judged (hallows c rfl) (hids c (by simp))).1⟩

/-- Two configurations with the same identifier for their scopes, and a realm for each of them: the
second cast is judged rightly. -/
theorem judged_of_orderly_castOfFour :
    let c := Configuration.castOfFour 4
    let c' := Configuration.castOfFour 5
    let before : List Call := [.collect c, .diagnose c, .configure c'] ++ [.collect c']
    let s := (new {}).afterCalls before
    Orderly {} {} (before ++ [.diagnose c']) ∧ (.ofFour 5, s.desk) ∈ s.visitsOf c' ∧
      (CastSite.ofFour 5).JudgedRightly (s.inRealm c').realm {} s.desk := by
  intro c c' before s
  have horderly : Orderly {} {} (before ++ [.diagnose c']) := by
    refine ⟨fun x hx => ?_, fun x hx => ?_, fun x hx => ?_, fun x hx => ?_, fun x hx => ?_, trivial⟩
    · cases hx
    · cases hx
      exact ⟨rfl, fun _ h => absurd h List.not_mem_nil⟩
    · cases hx
    · cases hx
    · cases hx
      exact ⟨rfl, fun _ h => absurd h List.not_mem_nil⟩
  have hids : ∀ x, .diagnose x ∈ before ++ [.diagnose c'] → x.ScopesIdentified := by
    intro x hx
    have hcases : x = c ∨ x = c' := by simpa [before] using hx
    rcases hcases with rfl | rfl
    · exact Configuration.scopesIdentified_castOfFour 4
    · exact Configuration.scopesIdentified_castOfFour 5
  have hvisited : (.ofFour 5, s.desk) ∈ s.visitsOf c' := ofFour_mem_visitsOf _ 5
  exact ⟨horderly, hvisited, ((judged_of_orderly horderly hids before c' [] rfl).2 _ hvisited).2⟩

/-- **Two configurations in one realm.**  The casts of each configuration are collected before it is
diagnosed, and `diagnose` opens a realm for the first one only.  The cast of the second
configuration is dead, but it is judged by the values of the first one, and counts as safe. -/
theorem diagnose_mistaken :
    let c := Configuration.castOfFour 4
    let c' := Configuration.castOfFour 5
    let before : List Call := [.collect c, .diagnose c] ++ [.collect c']
    let s := (new {}).afterCalls before
    (Trail.after {} {} [.collect c]).collected = some c ∧
      (Trail.after {} {} before).collected = some c' ∧
      c.ScopesIdentified ∧ c'.ScopesIdentified ∧
      ∃ v ∈ s.visitsOf c', v.1.IsDead ∧
        (v.2.visit (frontEnd (s.inRealm c').realm) {} v.1.site (.int v.1.path)).2 = .ok .safe := by
  intro c c' before s
  refine ⟨rfl, rfl, Configuration.scopesIdentified_castOfFour 4,
    Configuration.scopesIdentified_castOfFour 5, _, ofFour_mem_visitsOf _ 5, ?_, ?_⟩
  · -- at a new desk the cast is judged rightly, and the visit warns
    have hfaithful : ({} : Catalogue DumpScope).FaithfulApart (fun _ => False) c' (realmOf 1 c') :=
      fun _ hentry => absurd hentry List.not_mem_nil
    have hjudged := CastSite.judgedRightly_of_faithfulApart (s := .ofFour 5) (d := {}) hfaithful
      (fun _ _ hno => hno.elim) (Configuration.scopesIdentified_castOfFour 5) rfl {}
    refine (hjudged.verdict .warn ?_).1 rfl
    cbv
  · dsimp only [s, before, c, c']
    cbv

/-- A collection that ends in a fault leaves the session as it was. -/
theorem perform_collect_of_error {s : Session} {c : Configuration} {f : Fault}
    (h : (c.castSites s.options).2 = .error f) : s.perform (.collect c) = s := by
  rw [perform, collect]
  cases hsites : c.castSites s.options with
  | mk sites result =>
    rw [hsites] at h
    obtain rfl : result = .error f := h
    rfl

/-- **Casts of another configuration.**  Each configuration is collected before it is diagnosed, in
a realm of its own, but the collection of the second one ends in a fault.  The cast of the first one
stays pending, and it is what is visited, and found dead, when the second one is diagnosed. -/
theorem diagnose_stale :
    let c := Configuration.castOfFour 5
    let c' := Configuration.uncollectable
    let before : List Call := [.configure c, .collect c, .configure c']
    let s := (new {}).afterCalls (before ++ [.collect c'])
    (c'.castSites {}).2 = .error .infiniteInteger ∧ (CastSite.ofFour 5).configuration ≠ c' ∧
      (s.diagnose c').2 = .ok () ∧ (s.visitsOf c').map Prod.fst = [.ofFour 5] ∧
      (s.diagnose c').1.findings.length = 1 := by
  intro c c' before s
  have hsame : s = (new {}).afterCalls before := by
    show (new {}).afterCalls (before ++ [_]) = _
    rw [afterCalls, List.foldl_append]
    exact perform_collect_of_error (f := .infiniteInteger) rfl
  have hdone : (((new {}).afterCalls before).diagnose c').2 = .ok () := by
    dsimp only [before, c, c']
    cbv
  rw [hsame]
  refine ⟨rfl, ?_, hdone, visitsOf_of_ok hdone, ?_⟩
  · intro heq
    have hsize : 3 = 2 := congrArg (fun c => c.tokens.size) heq
    cases hsize
  · dsimp only [before, c, c']
    cbv

end Session

end DeadCast

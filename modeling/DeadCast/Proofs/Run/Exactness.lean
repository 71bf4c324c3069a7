import DeadCast.Proofs.Run.Session
import Mathlib

/-!
# A run reports exactly the dead casts

A new session that keeps repetitions and does not report range faults is run on a configuration.
If the run completes, its findings are the dead casts of the configuration: all of them, no others,
each once for every path, in the order of the tokens and by ascending path
(`Session.findings_run_new`).

The argument follows the visits one by one.  What has to hold between them is that the catalogue is
*faithful*: whatever it keeps under the key of an enumeration of this configuration are the values
that the enumeration declares (`Catalogue.Faithful`).  Fetching keeps it so
(`Catalogue.Faithful.fetch`), and under a faithful catalogue a visit adds a finding exactly if the
cast is dead (`CastSite.visit_spec`).
-/

namespace DeadCast

/-- Enumerations of the configuration that have equal identifiers are the same. -/
def Configuration.ScopesIdentified (c : Configuration) : Prop :=
  ∀ (j k : Nat) (s t : Scope), c.scopes[j]? = some s → c.scopes[k]? = some t →
    s.IsEnum → t.IsEnum → s.ownKey.sameKey t.ownKey = true → s = t

/-! ## Faithful catalogues -/

/-- The values are those of an enumeration of the configuration, and this is its key. -/
def EnumValues.KeptUnder (c : Configuration) (realm key : Datum) (e : EnumValues DumpScope) :
    Prop :=
  ∃ (k : Nat) (scope : Scope), c.scopes[k]? = some scope ∧ scope.IsEnum ∧
    key = .tuple [realm, scope.ownKey] ∧ Lists e.values (scope.Declares c)

/-- All kept values are those of an enumeration of the configuration, under its key. -/
def Catalogue.Faithful (cat : Catalogue DumpScope) (c : Configuration) (realm : Datum) : Prop :=
  ∀ entry ∈ cat.entries, EnumValues.KeptUnder c realm entry.1 entry.2

theorem Scope.declares_iff {c : Configuration} {scope : Scope} {values : List (Option Int)}
    (h : scope.constants c = .ok values) (n : Int) : scope.Declares c n ↔ some n ∈ values := by
  simp [Declares, h]

namespace Catalogue

variable {cat : Catalogue DumpScope} {c : Configuration} {realm : Datum}

theorem faithful_of_entries_eq_nil (h : cat.entries = []) : cat.Faithful c realm := by
  intro entry hentry
  rw [h] at hentry
  cases hentry

/-- The values that are worked out for an enumeration of the configuration are those that it
declares. -/
theorem keptUnder_ofConstants (hrealm : realm.isNothing = false) {k : Nat} {scope : Scope}
    (hk : c.scopes[k]? = some scope) (henum : scope.IsEnum) {found : List Datum}
    (hfound : (frontEnd realm).constants (DumpType.enumRef c realm k scope) >>= Datum.items =
      .ok found) :
    EnumValues.KeptUnder c realm (DumpType.enumRef c realm k scope).key
      (.ofConstants (DumpType.enumRef c realm k scope) found) := by
  rw [constants_frontEnd] at hfound
  cases hconstants : scope.constants c with
  | error f => simp [DumpType.enumRef, hconstants, Except.map] at hfound
  | ok values =>
    simp only [DumpType.enumRef, hconstants, Except.map, Except.ok.injEq] at hfound
    subst hfound
    refine ⟨k, scope, hk, henum, DumpType.key_enumRef hrealm c k scope,
      (EnumValues.values_ofOptions _ values).congr ?_⟩
    intro n
    rw [Scope.declares_iff hconstants]

/-- Apart from entries under foreign keys, all kept values are those of an enumeration of the
configuration, under its key. -/
def FaithfulApart (foreign : Datum → Prop) (cat : Catalogue DumpScope) (c : Configuration)
    (realm : Datum) : Prop :=
  ∀ entry ∈ cat.entries, foreign entry.1 ∨ EnumValues.KeptUnder c realm entry.1 entry.2

/-- Foreign entries are never found in the realm. -/
theorem FaithfulApart.fetch {foreign : Datum → Prop} (h : cat.FaithfulApart foreign c realm)
    (hforeign : ∀ key own, foreign key → key.sameKey (.tuple [realm, own]) = false)
    (hids : c.ScopesIdentified) (hrealm : realm.isNothing = false) {k : Nat} {scope : Scope}
    (hk : c.scopes[k]? = some scope) (henum : scope.IsEnum) :
    (cat.fetch (frontEnd realm).constants
        (DumpType.enumRef c realm k scope)).catalogue.FaithfulApart foreign c realm ∧
      ∀ e, (cat.fetch (frontEnd realm).constants (DumpType.enumRef c realm k scope)).result =
        .ok e → Lists e.values (scope.Declares c) := by
  obtain ⟨hkept, hgiven⟩ :=
    fetch_forall (fun key e => foreign key ∨ EnumValues.KeptUnder c realm key e) h
      fun found hfound => Or.inr (keptUnder_ofConstants hrealm hk henum hfound)
  refine ⟨hkept, ?_⟩
  intro e he
  obtain ⟨key, hsame, hkey⟩ := hgiven e he
  rw [DumpType.key_enumRef hrealm c k scope] at hsame
  rcases hkey with hold | ⟨j, other, hj, hother, rfl, hlists⟩
  · rw [hforeign key _ hold] at hsame
    cases hsame
  · -- kept under an equal key, hence the values of the same scope
    rw [Datum.sameKey_pair, Bool.and_eq_true] at hsame
    obtain rfl := hids j k other scope hj hk hother henum hsame.2
    exact hlists

/-- Fetching the values of an enumeration of the configuration keeps the catalogue faithful, and
gives the values that the enumeration declares. -/
theorem Faithful.fetch (h : cat.Faithful c realm) (hids : c.ScopesIdentified)
    (hrealm : realm.isNothing = false) {k : Nat} {scope : Scope} (hk : c.scopes[k]? = some scope)
    (henum : scope.IsEnum) :
    (cat.fetch (frontEnd realm).constants (DumpType.enumRef c realm k scope)).catalogue.Faithful c
        realm ∧
      ∀ e, (cat.fetch (frontEnd realm).constants (DumpType.enumRef c realm k scope)).result =
        .ok e → Lists e.values (scope.Declares c) := by
  have hapart : cat.FaithfulApart (fun _ => False) c realm :=
    fun entry hentry => Or.inr (h entry hentry)
  obtain ⟨hkept, hgiven⟩ := hapart.fetch (fun _ _ hno => hno.elim) hids hrealm hk henum
  exact ⟨fun entry hentry => (hkept entry hentry).resolve_left id, hgiven⟩

end Catalogue

/-! ## One cast -/

namespace CastSite

variable {s : CastSite} {c : Configuration} {realm : Datum} {o : Options}

/-- Once the values of the target and the range of the operand are there, the verdict says whether
the cast is dead. -/
theorem isDead_iff {k : Nat} {scope : Scope} {e : EnumValues DumpScope} {r : IntervalSet}
    (hcast : s.CastsTo k scope) (hlists : Lists e.values (scope.Declares s.configuration))
    (hassess : (frontEnd realm).assess s.site (.int s.path) = .ok (some r)) :
    s.IsDead ↔ Verdict.decide e.values r = .warn := by
  obtain ⟨operand, hoperand, hint, hrange⟩ := assess_some hassess
  rw [hlists.decide_eq_warn_iff]
  constructor
  · rintro ⟨k', scope', operand', hcast', hoperand', -, -, hnone⟩ n hn
    obtain ⟨-, rfl⟩ := hcast.unique hcast'
    obtain rfl : operand = operand' := Option.some.inj (hoperand.symm.trans hoperand')
    exact hnone n ((hrange n).1 hn)
  · intro hwarn
    refine ⟨k, scope, operand, hcast, hoperand, hint, ?_, ?_⟩
    · -- a set is never empty
      obtain ⟨n, hn⟩ := r.exists_mem
      exact ⟨n, (hrange n).1 hn⟩
    · intro n hn
      exact hwarn n ((hrange n).2 hn)

/-- A cast whose target is no enumeration is not dead. -/
theorem not_isDead_of_notEnum (h : s.target.classify realm = .notEnum) : ¬ s.IsDead := by
  rintro ⟨k, scope, -, hcast, -⟩
  rw [classify_iff.2 ⟨k, scope, hcast, rfl⟩] at h
  cases h

/-- A cast without a range, or with facts that contradict each other, is not dead. -/
theorem not_isDead_of_assess {answer : Except Fault (Option IntervalSet)}
    (hassess : (frontEnd realm).assess s.site (.int s.path) = answer)
    (hsome : ∀ r, answer ≠ .ok (some r)) (herror : answer ≠ .error .infiniteInteger) :
    ¬ s.IsDead := by
  rintro ⟨-, -, operand, -, hoperand, hint, ⟨n, hn⟩, -⟩
  subst hassess
  rcases assess_of_possible hoperand hint hn with ⟨r, hr⟩ | hinf
  · exact hsome r hr
  · exact herror hinf

/-- What tells the finding about a cast from others. -/
def findingKey (s : CastSite) : Finding.Key := ⟨deadCastId, s.location, .int s.path⟩

open Classical in
/-- The key of the finding about a cast, if it is dead. -/
noncomputable def reported (s : CastSite) : List Finding.Key :=
  if s.IsDead then [s.findingKey] else []

open Classical in
theorem flatMap_reported (sites : List CastSite) :
    sites.flatMap reported = (sites.filter fun s => s.IsDead).map findingKey := by
  induction sites with
  | nil => rfl
  | cons s rest ih =>
    by_cases hdead : s.IsDead
    · simp [reported, hdead, ih]
    · simp [reported, hdead, ih]

/-- Fetching the values of the target keeps the catalogue faithful, and gives the values that the
target declares. -/
theorem fetch_target {cat : Catalogue DumpScope} {ref : EnumRef DumpScope}
    (hids : s.configuration.ScopesIdentified) (hrealm : realm.isNothing = false)
    (hfaithful : cat.Faithful s.configuration realm)
    (htarget : (frontEnd realm).classify s.site.target = .ok (.plainEnum ref)) :
    ∃ k scope, s.CastsTo k scope ∧
      (cat.fetch (frontEnd realm).constants ref).catalogue.Faithful s.configuration realm ∧
      ∀ e, (cat.fetch (frontEnd realm).constants ref).result = .ok e →
        Lists e.values (scope.Declares s.configuration) := by
  obtain ⟨k, scope, hcast, rfl⟩ := classify_iff.1 (Except.ok.inj htarget)
  refine ⟨k, scope, hcast, ?_⟩
  obtain ⟨-, -, -, -, -, -, hk, henum⟩ := hcast
  exact hfaithful.fetch hids hrealm hk henum

/-- **One visit.**  With a faithful catalogue, a visit that ends without a fault adds the finding
about a dead cast and nothing else. -/
theorem visit_spec {d d' : Desk DumpScope} {out : Outcome} (hids : c.ScopesIdentified)
    (hrealm : realm.isNothing = false) (hsilent : o.reportFaults.isTrue = false)
    (hs : s.configuration = c) (hfaithful : d.catalogue.Faithful c realm)
    (hkeeps : d.ledger.dropRepeats = false)
    (h : d.visit (frontEnd realm) o s.site (.int s.path) = (d', .ok out)) :
    d'.catalogue.Faithful c realm ∧ d'.ledger.dropRepeats = false ∧
      d'.ledger.findings.map Finding.key = d.ledger.findings.map Finding.key ++ s.reported := by
  subst hs
  generalize hvisit : (d', Except.ok out) = result at h
  cases Desk.ends_iff.2 h with
  | unclassified htarget => cases hvisit
  | notEnum htarget =>
    cases hvisit
    refine ⟨hfaithful, hkeeps, ?_⟩
    have hdead := not_isDead_of_notEnum (Except.ok.inj htarget)
    simp [reported, hdead]
  | unfetched htarget hfetch => cases hvisit
  | failed htarget hfetch hassess hother => cases hvisit
  | breached htarget hfetch hassess =>
    rw [Desk.breach_of_silent hsilent] at hvisit
    cases hvisit
    obtain ⟨k, scope, hcast, hfaithful', -⟩ := fetch_target hids hrealm hfaithful htarget
    have hdead : ¬ s.IsDead := not_isDead_of_assess hassess (by simp) (by simp)
    exact ⟨hfaithful', hkeeps, by simp [reported, hdead]⟩
  | abstained htarget hfetch hassess =>
    cases hvisit
    obtain ⟨k, scope, hcast, hfaithful', -⟩ := fetch_target hids hrealm hfaithful htarget
    have hdead : ¬ s.IsDead := not_isDead_of_assess hassess (by simp) (by simp)
    exact ⟨hfaithful', hkeeps, by simp [reported, hdead]⟩
  | safe htarget hfetch hassess hverdict =>
    cases hvisit
    obtain ⟨k, scope, hcast, hfaithful', hlists⟩ := fetch_target hids hrealm hfaithful htarget
    have hdead : ¬ s.IsDead := by
      rw [isDead_iff hcast (hlists _ hfetch) hassess, hverdict]
      simp
    exact ⟨hfaithful', hkeeps, by simp [reported, hdead]⟩
  | unwritable htarget hfetch hassess hverdict hwrite => cases hvisit
  | dead htarget hfetch hassess hverdict hwrite =>
    simp only [Desk.enter_of_keeps, Desk.ledger_note, Desk.ledger_fetched, hkeeps] at hvisit
    cases hvisit
    obtain ⟨k, scope, hcast, hfaithful', hlists⟩ := fetch_target hids hrealm hfaithful htarget
    have hdead : s.IsDead := (isDead_iff hcast (hlists _ hfetch) hassess).2 hverdict
    refine ⟨hfaithful', rfl, ?_⟩
    simp [reported, hdead, findingKey, deadCast, Finding.key, site]

end CastSite

/-! ## All casts of a configuration -/

namespace Session

/-- **Visiting casts one after the other** reports exactly the dead ones among them. -/
theorem visitAll_spec {c : Configuration} {realm : Datum} {o : Options}
    (hids : c.ScopesIdentified) (hrealm : realm.isNothing = false)
    (hsilent : o.reportFaults.isTrue = false) :
    ∀ {sites : List CastSite} {d d' : Desk DumpScope}, (∀ s ∈ sites, s.configuration = c) →
      d.catalogue.Faithful c realm → d.ledger.dropRepeats = false →
      visitAll realm o d sites = (d', .ok ()) →
      d'.ledger.findings.map Finding.key =
        d.ledger.findings.map Finding.key ++ sites.flatMap CastSite.reported := by
  intro sites
  induction sites with
  | nil =>
    intro d d' _ _ _ h
    cases h
    simp
  | cons s rest ih =>
    intro d d' hsites hfaithful hkeeps h
    rw [visitAll_cons] at h
    cases hvisit : d.visit (frontEnd realm) o s.site (.int s.path) with
    | mk next result =>
      rw [hvisit] at h
      cases result with
      | error f => cases h
      | ok out =>
        obtain ⟨hfaithful', hkeeps', hfindings⟩ := CastSite.visit_spec hids hrealm hsilent
          (hsites s (List.mem_cons_self ..)) hfaithful hkeeps hvisit
        have hrest := ih (fun t ht => hsites t (List.mem_cons_of_mem s ht)) hfaithful' hkeeps' h
        rw [hrest, hfindings, List.flatMap_cons, List.append_assoc]

open Classical in
/-- **A run reports exactly the dead casts.**  A completed run of a new session on a configuration
leaves one finding for every dead cast and path, in the order of the tokens and by ascending path,
with the location of the token and the path, and no other finding. -/
theorem findings_run_new {c : Configuration} {o : Options}
    (hkeeps : o.dropRepeats.isTrue = false) (hsilent : o.reportFaults.isTrue = false)
    (hids : c.ScopesIdentified) (hrun : ((new o).run c).2 = .ok ()) :
    c.InTokenOrder c.listed (c.castSites o).1 ∧
      ((new o).run c).1.findings.map Finding.key =
        ((c.castSites o).1.filter fun s => s.IsDead).map fun s =>
          ⟨deadCastId, s.location, .int s.path⟩ := by
  rw [run_eq] at hrun ⊢
  have hoptions : (new o).options = o := rfl
  rw [hoptions] at hrun ⊢
  cases hsites : c.castSites o with
  | mk sites listing =>
    rw [hsites] at hrun
    cases listing with
    | error f => cases hrun
    | ok u =>
      have horder : c.InTokenOrder c.listed sites := Configuration.sitesFrom_inTokenOrder hsites
      refine ⟨horder, ?_⟩
      cases hvisits : visitAll (realmOf ((new o).serial + 1) c) o
          ((new o).desk.note [collectedLine sites]) sites with
      | mk d result =>
        simp only [hvisits] at hrun ⊢
        cases result with
        | error f => cases hrun
        | ok u =>
          have hfindings := visitAll_spec hids (isNothing_realmOf _ _) hsilent
            horder.configuration_eq (Catalogue.faithful_of_entries_eq_nil rfl) hkeeps hvisits
          rw [CastSite.flatMap_reported] at hfindings
          exact hfindings

end Session

/-- `enum E { A, B = 4 }` and a cast `(E) x`, where `x` is from `1` to `3` on path `1` and `4` on
path `2`. -/
def Configuration.twoPaths : Configuration where
  tokens := #[
    { str := some (.text "\x7b"), next := some 1 },
    { str := some (.text "A"), isName := some (.bool true), next := some 2 },
    { str := some (.text ","), next := some 3 },
    { str := some (.text "B"), isName := some (.bool true), knownValue := some (.int 4),
      next := some 4 },
    { str := some (.text "\x7d") },
    { str := some (.text "("), line := some (.int 7), isCast := some (.bool true),
      operand1 := some 6, valueType := some { scope := some 0 } },
    { str := some (.text "x"), valueType := some { type := some (.text "int") },
      facts := [
        { value := some (.int 0), kind := some (.text "impossible"), bound := some (.text "Upper"),
          path := some (.int 1) },
        { value := some (.int 4), kind := some (.text "impossible"), bound := some (.text "Lower"),
          path := some (.int 1) },
        { value := some (.int 4), kind := some (.text "known"), path := some (.int 2) }] }]
  scopes := #[
    { id := some (.text "s1"), type := some (.text "Enum"), bodyStart := some 0,
      bodyEnd := some 4 }]
  listed := [0, 1, 2, 3, 4, 5, 6]

open Classical in
/-- On path `1` the cast is dead, on path `2` it is not. -/
theorem Session.findings_run_twoPaths :
    let o : Options := { dropRepeats := .bool false }
    let c := Configuration.twoPaths
    ((new o).run c).1.findings.map Finding.key =
        [⟨deadCastId, ⟨.text "", .int 7, .int 0⟩, .int 1⟩] ∧
      c.InTokenOrder c.listed (c.castSites o).1 ∧
      ((new o).run c).1.findings.map Finding.key =
        ((c.castSites o).1.filter fun s => s.IsDead).map fun s =>
          ⟨deadCastId, s.location, .int s.path⟩ := by
  have hids : Configuration.twoPaths.ScopesIdentified := by
    intro j k s t hs ht
    rcases j with _ | j <;> rcases k with _ | k <;> simp_all [Configuration.twoPaths]
  have hrun : ((new { dropRepeats := .bool false }).run Configuration.twoPaths).2 = .ok () := by
    cbv
  exact ⟨by cbv, findings_run_new rfl rfl hids hrun⟩

end DeadCast

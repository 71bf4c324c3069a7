import DeadCast.Proofs.Audit.Course
import DeadCast.Proofs.Run.Session
import Mathlib.Tactic

/-!
# The same visits in two realms

The casts of a configuration are visited twice: on a desk at its start, and on a desk that was used
before.  Each time they get a realm of their own, with another serial number.

The two desks keep in step (`Desk.Mirrors`).  The used desk has, behind all that it had at first,
what the fresh desk has: the same findings, as many outcomes of each kind, the same lines, and for
every enumeration that the fresh desk keeps a *twin*, which differs from it in the serial number of
its key and in nothing else.  Older entries are never found, because no older key has the new serial
number (`Catalogue.find?_mirrors`).  So every fetch, every visit (`Desk.Mirrors.visit`) and every
list of visits (`Desk.Mirrors.visitAll`) comes to the same on both desks.
-/

namespace DeadCast

open Session (realmOf)

variable {c : Configuration} {m n : Nat}

/-! ## Twins -/

/-- Values that differ at most in the key of their enumeration. -/
structure EnumValues.Alike (e e' : EnumValues DumpScope) : Prop where
  name : e'.ref.name = e.ref.name
  values : e'.values = e.values
  unresolved : e'.unresolved = e.unresolved

namespace EnumValues.Alike

variable {e e' : EnumValues DumpScope}

theorem display (h : e.Alike e') : e'.ref.display = e.ref.display := by
  simp [EnumRef.display, h.name]

theorem builtLine (h : e.Alike e') : e'.builtLine = e.builtLine := by
  simp [EnumValues.builtLine, h.display, h.values]

theorem skippedLine (h : e.Alike e') : e'.skippedLine = e.skippedLine := by
  simp [EnumValues.skippedLine, h.display, h.unresolved]

/-- Findings say nothing about keys. -/
theorem deadCast {τ ω : Type} (h : e.Alike e') (o : Options) (site : Site τ ω) (r : IntervalSet) :
    deadCast o site e' r = deadCast o site e r := by
  simp [DeadCast.deadCast, h.display, h.values]

theorem deadLine {τ ω : Type} (h : e.Alike e') (site : Site τ ω) :
    deadLine site e' = deadLine site e := by
  simp [DeadCast.deadLine, h.display]

/-- Nor do visits say anything about keys. -/
theorem endingWith {τ ω : Type} (h : e.Alike e') (o : Options) (site : Site τ ω)
    (answer : Except Fault (Option IntervalSet)) :
    endingWith o site e' answer = endingWith o site e answer := by
  cases answer with
  | error f => cases f <;> rfl
  | ok range =>
    cases range with
    | none => rfl
    | some r => simp only [DeadCast.endingWith, h.values, h.deadLine, h.deadCast]

end EnumValues.Alike

/-- An entry under serial number `m` and the same entry under serial number `n`. -/
structure Twins (c : Configuration) (m n : Nat) (a b : Datum × EnumValues DumpScope) : Prop where
  key : ∃ own, a.1 = .tuple [realmOf m c, own] ∧ b.1 = .tuple [realmOf n c, own]
  alike : a.2.Alike b.2

/-- The key has a serial number below `n`. -/
def KeyBefore (n : Nat) (key : Datum) : Prop :=
  ∃ (k : Nat) (name own : Datum), key = .tuple [.tuple [.int k, name], own] ∧ k < n

/-- A key with an older serial number equals no key of the realm. -/
theorem KeyBefore.sameKey_eq_false {key : Datum} (h : KeyBefore n key) (name own : Datum) :
    key.sameKey (.tuple [.tuple [.int n, name], own]) = false := by
  obtain ⟨k, name', own', rfl, hlt⟩ := h
  have hserial : Datum.sameKey (.int k) (.int n) = false := by
    rw [Bool.eq_false_iff, ne_eq, Datum.sameKey_int]
    omega
  rw [Datum.sameKey_pair, Datum.sameKey_pair, hserial, Bool.false_and, Bool.false_and]

/-- All keys have a serial number below `n`. -/
def Catalogue.Before (n : Nat) (cat : Catalogue DumpScope) : Prop :=
  ∀ entry ∈ cat.entries, KeyBefore n entry.1

/-- One catalogue has, behind the entries of `base`, the twins of the entries of the other. -/
def Catalogue.Mirrors (c : Configuration) (m n : Nat) (base cat cat' : Catalogue DumpScope) :
    Prop :=
  ∃ added, cat'.entries = base.entries ++ added ∧ List.Forall₂ (Twins c m n) cat.entries added

/-! ## Looking up -/

/-- Twins are found together. -/
theorem find?_twins {entries added : List (Datum × EnumValues DumpScope)}
    (h : List.Forall₂ (Twins c m n) entries added) (own : Datum) :
    Option.Rel (Twins c m n)
      (entries.find? fun entry => entry.1.sameKey (.tuple [realmOf m c, own]))
      (added.find? fun entry => entry.1.sameKey (.tuple [realmOf n c, own])) := by
  induction h with
  | nil => exact .none
  | @cons a b entries added htwins _ ih =>
    obtain ⟨own', ha, hb⟩ := htwins.key
    have hsame : a.1.sameKey (.tuple [realmOf m c, own]) = own'.sameKey own := by
      rw [ha, Datum.sameKey_pair, Datum.sameKey_refl, Bool.true_and]
    have hsame' : b.1.sameKey (.tuple [realmOf n c, own]) = own'.sameKey own := by
      rw [hb, Datum.sameKey_pair, Datum.sameKey_refl, Bool.true_and]
    cases hown : own'.sameKey own with
    | true =>
      rw [List.find?_cons_of_pos (by rw [hsame, hown]),
        List.find?_cons_of_pos (by rw [hsame', hown])]
      exact .some htwins
    | false =>
      rw [List.find?_cons_of_neg (by simp [hsame, hown]),
        List.find?_cons_of_neg (by simp [hsame', hown])]
      exact ih

theorem key_of_twins {entries added : List (Datum × EnumValues DumpScope)}
    (h : List.Forall₂ (Twins c m n) entries added) :
    ∀ entry ∈ added, ∃ own, entry.1 = .tuple [realmOf n c, own] := by
  induction h with
  | nil =>
    intro entry hentry
    cases hentry
  | cons htwins _ ih =>
    intro entry hentry
    rcases List.mem_cons.1 hentry with rfl | hrest
    · obtain ⟨own, -, hkey⟩ := htwins.key
      exact ⟨own, hkey⟩
    · exact ih entry hrest

namespace Catalogue

variable {base cat cat' : Catalogue DumpScope}

/-- Under the new serial number nothing old is found. -/
theorem find?_before (h : base.Before n) (own : Datum) :
    base.entries.find? (fun entry => entry.1.sameKey (.tuple [realmOf n c, own])) = none := by
  rw [List.find?_eq_none]
  intro entry hentry hsame
  rw [realmOf, (h entry hentry).sameKey_eq_false] at hsame
  cases hsame

/-- Both catalogues find the same, up to the key. -/
theorem find?_mirrors (hbase : base.Before n) (h : Mirrors c m n base cat cat') (own : Datum) :
    Option.Rel EnumValues.Alike (cat.find? (.tuple [realmOf m c, own]))
      (cat'.find? (.tuple [realmOf n c, own])) := by
  obtain ⟨added, hadded, htwins⟩ := h
  have hvalues : ∀ {x y}, Option.Rel (Twins c m n) x y →
      Option.Rel EnumValues.Alike (x.map Prod.snd) (y.map Prod.snd) := by
    intro x y hxy
    cases hxy with
    | none => exact .none
    | some hpair => exact .some hpair.alike
  rw [find?, find?, hadded, List.find?_append, find?_before hbase, Option.none_or]
  exact hvalues (find?_twins htwins own)

/-- The keys of twins have the new serial number, all others are older. -/
theorem Mirrors.before (hbase : base.Before n) (h : Mirrors c m n base cat cat') :
    cat'.Before (n + 1) := by
  obtain ⟨added, hadded, htwins⟩ := h
  intro entry hentry
  rcases List.mem_append.1 (hadded ▸ hentry) with hold | hnew
  · obtain ⟨k, name, own, hkey, hlt⟩ := hbase entry hold
    exact ⟨k, name, own, hkey, Nat.lt_succ_of_lt hlt⟩
  · obtain ⟨own, hkey⟩ := key_of_twins htwins entry hnew
    exact ⟨n, _, own, hkey, Nat.lt_succ_self n⟩

/-! ## Fetching -/

theorem isHashable_realmOf (own : Datum) :
    (Datum.tuple [realmOf n c, own]).isHashable = (Datum.tuple [realmOf m c, own]).isHashable := by
  simp [realmOf, Datum.isHashable, Datum.areHashable]

theorem Mirrors.keep (h : Mirrors c m n base cat cat') {e e' : EnumValues DumpScope} {own : Datum}
    (hkey : e.ref.key = .tuple [realmOf m c, own]) (hkey' : e'.ref.key = .tuple [realmOf n c, own])
    (halike : e.Alike e') : Mirrors c m n base (cat.asked.keep e) (cat'.asked.keep e') := by
  obtain ⟨added, hadded, htwins⟩ := h
  refine ⟨added ++ [(e'.ref.key, e')], ?_, ?_⟩
  · show cat'.entries ++ [(e'.ref.key, e')] = _
    rw [hadded, List.append_assoc]
  · exact List.rel_append htwins (.cons ⟨⟨own, hkey, hkey'⟩, halike⟩ .nil)

/-- Two fetches in step: so are the catalogues, the lines are the same, and the results are the same
up to the key. -/
structure FetchMirrors (c : Configuration) (m n : Nat) (base : Catalogue DumpScope)
    (step step' : Step DumpScope (EnumValues DumpScope)) : Prop where
  catalogue : Mirrors c m n base step.catalogue step'.catalogue
  log : step'.log = step.log
  result : (∃ f, step.result = .error f ∧ step'.result = .error f) ∨
    ∃ e e', step.result = .ok e ∧ step'.result = .ok e' ∧ e.Alike e'

/-- **Fetching in two realms** keeps in step. -/
theorem Mirrors.fetch (hbase : base.Before n) (h : Mirrors c m n base cat cat')
    (declared : Configuration) (k : Nat) (scope : Scope) :
    FetchMirrors c m n base
      (cat.fetch (frontEnd (realmOf m c)).constants
        (DumpType.enumRef declared (realmOf m c) k scope))
      (cat'.fetch (frontEnd (realmOf n c)).constants
        (DumpType.enumRef declared (realmOf n c) k scope)) := by
  have hkey := DumpType.key_enumRef (Session.isNothing_realmOf m c) declared k scope
  have hkey' := DumpType.key_enumRef (Session.isNothing_realmOf n c) declared k scope
  have hhash := isHashable_realmOf (c := c) (m := m) (n := n) scope.ownKey
  have hfind := find?_mirrors hbase h scope.ownKey
  rw [← hkey, ← hkey'] at hhash hfind
  have hconstants : (frontEnd (realmOf n c)).constants
        (DumpType.enumRef declared (realmOf n c) k scope) >>= Datum.items =
      (frontEnd (realmOf m c)).constants
        (DumpType.enumRef declared (realmOf m c) k scope) >>= Datum.items := by
    rw [constants_frontEnd, constants_frontEnd]
    rfl
  rcases cat.fetch_cases (frontEnd (realmOf m c)).constants
      (DumpType.enumRef declared (realmOf m c) k scope) with
    ⟨hno, heq⟩ | ⟨hyes, e, hfound, heq⟩ | ⟨hyes, hnone, f, hf, heq⟩ | ⟨hyes, hnone, found, hf, heq⟩
  · rw [heq, fetch_unhashable (hhash.trans hno)]
    exact ⟨h, rfl, Or.inl ⟨_, rfl, rfl⟩⟩
  · rw [hfound] at hfind
    generalize hfound' : cat'.find? _ = found' at hfind
    cases hfind with
    | some halike =>
      rw [heq, fetch_hit (hhash.trans hyes) hfound']
      exact ⟨h, rfl, Or.inr ⟨_, _, rfl, rfl, halike⟩⟩
  · rw [hnone] at hfind
    generalize hfound' : cat'.find? _ = found' at hfind
    cases hfind with
    | none =>
      rw [heq, fetch_fails (hhash.trans hyes) hfound' (hconstants.trans hf)]
      exact ⟨h, rfl, Or.inl ⟨_, rfl, rfl⟩⟩
  · rw [hnone] at hfind
    generalize hfound' : cat'.find? _ = found' at hfind
    cases hfind with
    | none =>
      rw [heq, fetch_builds (hhash.trans hyes) hfound' (hconstants.trans hf)]
      have halike : (EnumValues.ofConstants (DumpType.enumRef declared (realmOf m c) k scope)
          found).Alike
          (EnumValues.ofConstants (DumpType.enumRef declared (realmOf n c) k scope) found) :=
        ⟨rfl, rfl, rfl⟩
      refine ⟨h.keep hkey hkey' halike, ?_, Or.inr ⟨_, _, rfl, rfl, halike⟩⟩
      simp only [halike.skippedLine, halike.builtLine]

/-! ## Visiting -/

/-- Two courses in step: so are the catalogues, and the lines and the endings are the same. -/
structure CourseMirrors (c : Configuration) (m n : Nat) (base : Catalogue DumpScope)
    (course course' : Course DumpScope) : Prop where
  catalogue : Mirrors c m n base course.catalogue course'.catalogue
  log : course'.log = course.log
  ending : course'.ending = course.ending

/-- **The courses of a visit in two realms** keep in step. -/
theorem Mirrors.course (hbase : base.Before n) (h : Mirrors c m n base cat cat') (o : Options)
    (s : CastSite) :
    CourseMirrors c m n base (cat.course (frontEnd (realmOf m c)) o s.site (.int s.path))
      (cat'.course (frontEnd (realmOf n c)) o s.site (.int s.path)) := by
  cases htarget : (frontEnd (realmOf m c)).classify s.site.target with
  | error f => cases htarget
  | ok kind =>
    cases kind with
    | notEnum =>
      have htarget' : (frontEnd (realmOf n c)).classify s.site.target = .ok .notEnum :=
        congrArg Except.ok (CastSite.classify_notEnum (Except.ok.inj htarget) _)
      simp only [Catalogue.course, htarget, htarget']
      exact ⟨h, rfl, rfl⟩
    | plainEnum ref =>
      obtain ⟨k, scope, rfl, hother⟩ :=
        CastSite.classify_plainEnum (Except.ok.inj htarget) (realmOf n c)
      have htarget' : (frontEnd (realmOf n c)).classify s.site.target =
          .ok (.plainEnum (DumpType.enumRef s.configuration (realmOf n c) k scope)) :=
        congrArg Except.ok hother
      have hfetch := h.fetch hbase s.configuration k scope
      rcases hfetch.result with ⟨f, hf, hf'⟩ | ⟨e, e', he, he', halike⟩
      · simp only [Catalogue.course, htarget, htarget', hf, hf']
        exact ⟨hfetch.catalogue, hfetch.log, rfl⟩
      · have hassess : (frontEnd (realmOf n c)).assess s.site (.int s.path) =
            (frontEnd (realmOf m c)).assess s.site (.int s.path) := rfl
        simp only [Catalogue.course, htarget, htarget', he, he', hassess, halike.endingWith,
          hfetch.log]
        exact ⟨hfetch.catalogue, rfl, rfl⟩

end Catalogue

/-! ## Desks -/

namespace Desk

/-- A used desk that has, behind what `base` has, all that the fresh desk `d` has. -/
structure Mirrors (c : Configuration) (m n : Nat) (base d d' : Desk DumpScope) : Prop where
  catalogue : Catalogue.Mirrors c m n base.catalogue d.catalogue d'.catalogue
  findings : d'.ledger.findings = base.ledger.findings ++ d.ledger.findings
  keeps : d.ledger.dropRepeats = false
  keeps' : d'.ledger.dropRepeats = false
  tally : ∀ out, d'.tally.get out = base.tally.get out + d.tally.get out
  log : d'.log = base.log ++ d.log

/-- The desks after two steps are in step, and the steps come to the same. -/
structure StepMirrors (c : Configuration) (m n : Nat) (base : Desk DumpScope) {α : Type}
    (step step' : Desk DumpScope × Except Fault α) : Prop where
  desk : Mirrors c m n base step.1 step'.1
  result : step'.2 = step.2

namespace Mirrors

variable {base d d' : Desk DumpScope}

theorem note (h : Mirrors c m n base d d') (lines : List LogLine) :
    Mirrors c m n base (d.note lines) (d'.note lines) where
  catalogue := h.catalogue
  findings := h.findings
  keeps := h.keeps
  keeps' := h.keeps'
  tally := h.tally
  log := by simp [h.log]

theorem count (h : Mirrors c m n base d d') (out : Outcome) :
    Mirrors c m n base (d.count out) (d'.count out) where
  catalogue := h.catalogue
  findings := h.findings
  keeps := h.keeps
  keeps' := h.keeps'
  tally := by
    intro other
    simp only [tally_count, Tally.get_count, h.tally, Nat.add_assoc]
  log := h.log

theorem enter (h : Mirrors c m n base d d') (f : Finding) (out : Outcome) :
    StepMirrors c m n base (d.enter f out) (d'.enter f out) := by
  rw [enter_of_keeps h.keeps, enter_of_keeps h.keeps']
  refine ⟨Mirrors.count ?_ out, rfl⟩
  exact { h with findings := by simp [h.findings] }

/-- **Visiting in two realms** keeps desks in step and ends in the same way. -/
theorem visit (hbase : base.catalogue.Before n) (h : Mirrors c m n base d d') (o : Options)
    (s : CastSite) :
    StepMirrors c m n base (d.visit (frontEnd (realmOf m c)) o s.site (.int s.path))
      (d'.visit (frontEnd (realmOf n c)) o s.site (.int s.path)) := by
  have hcourse := h.catalogue.course hbase o s
  rw [visit_eq_follow, visit_eq_follow]
  generalize d.catalogue.course (frontEnd (realmOf m c)) o s.site (.int s.path) = course
    at hcourse ⊢
  generalize d'.catalogue.course (frontEnd (realmOf n c)) o s.site (.int s.path) = course'
    at hcourse ⊢
  have hmoved : Mirrors c m n base { d with catalogue := course.catalogue }
      { d' with catalogue := course'.catalogue } := { h with catalogue := hcourse.catalogue }
  have hfollowed := hmoved.note course.log
  rw [follow, follow, hcourse.ending, hcourse.log]
  cases course.ending with
  | failing f => exact ⟨hfollowed, rfl⟩
  | counted out => exact ⟨hfollowed.count out, rfl⟩
  | reported f out => exact hfollowed.enter f out

/-- **Visiting one cast after the other in two realms.** -/
theorem visitAll (hbase : base.catalogue.Before n) (o : Options) :
    ∀ (sites : List CastSite) {d d' : Desk DumpScope}, Mirrors c m n base d d' →
      StepMirrors c m n base (Session.visitAll (realmOf m c) o d sites)
        (Session.visitAll (realmOf n c) o d' sites) := by
  intro sites
  induction sites with
  | nil =>
    intro d d' h
    exact ⟨h, rfl⟩
  | cons s rest ih =>
    intro d d' h
    have hvisit := h.visit hbase o s
    rw [Session.visitAll_cons, Session.visitAll_cons]
    generalize d.visit (frontEnd (realmOf m c)) o s.site (.int s.path) = step at hvisit ⊢
    generalize d'.visit (frontEnd (realmOf n c)) o s.site (.int s.path) = step' at hvisit ⊢
    obtain ⟨next, result⟩ := step
    obtain ⟨next', result'⟩ := step'
    obtain rfl : result' = result := hvisit.result
    cases result' with
    | error f => exact ⟨hvisit.desk, rfl⟩
    | ok out => exact ih hvisit.desk

end Mirrors

end Desk

end DeadCast

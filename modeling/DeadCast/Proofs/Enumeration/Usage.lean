import DeadCast.Proofs.Enumeration.Catalogue
import Mathlib.Tactic

/-!
# The use of a catalogue over time

A catalogue is used step after step: values are worked out or fetched, the catalogue is asked what
it keeps, it is cleared, and in between the front end may declare other constants (`Use.act`).  The
events of such a use are written down (`Use.history`), and they alone say what the next step comes
to (`Use.Lawful`):

* values fetched once stay the same until the catalogue is cleared;
* the front end is asked when values are worked out, or fetched for the first time, and only then;
* a failure changes nothing that is kept;
* the size of the catalogue is the number of distinct keys fetched since it was cleared;
* all values that are ever given are those of the constants that were declared when they were worked
  out.

The catalogue knows nothing of the events.  What ties it to them is that looking up a key finds what
the first successful fetch of an equal key since the last clearing gave (`Use.Agrees`).
-/

namespace DeadCast

namespace Catalogue

variable {σ : Type}

/-! ## Steps and events -/

/-- A step in the use of a catalogue; `redeclare` is one of the front end. -/
inductive Action (σ : Type) where
  | build (ref : EnumRef σ)
  | fetch (ref : EnumRef σ)
  | contains (key : Datum)
  | size
  | clear
  | redeclare (constants : EnumRef σ → Except Fault Datum)

/-- What a step is answered. -/
inductive Answer (σ : Type) where
  | values (result : Except Fault (EnumValues σ))
  | found (result : Except Fault Bool)
  | size (n : Nat)
  | done

/-- A catalogue in use, and the constants that the front end declares at the time. -/
structure Use (σ : Type) where
  catalogue : Catalogue σ
  declared : EnumRef σ → Except Fault Datum

/-- A step, and how things were before it. -/
structure Event (σ : Type) where
  before : Use σ
  action : Action σ

namespace Use

/-- A catalogue that was not used yet. -/
def start (declared : EnumRef σ → Except Fault Datum) : Use σ := ⟨{}, declared⟩

/-- Takes a step. -/
def act (u : Use σ) : Action σ → Use σ × Answer σ
  | .build ref =>
    let step := u.catalogue.build u.declared ref
    ({ u with catalogue := step.catalogue }, .values step.result)
  | .fetch ref =>
    let step := u.catalogue.fetch u.declared ref
    ({ u with catalogue := step.catalogue }, .values step.result)
  | .contains key => (u, .found (u.catalogue.contains key))
  | .size => (u, .size u.catalogue.size)
  | .clear => ({ u with catalogue := u.catalogue.clear }, .done)
  | .redeclare constants => ({ u with declared := constants }, .done)

/-- The use after some steps. -/
def after (u : Use σ) : List (Action σ) → Use σ
  | [] => u
  | a :: rest => (u.act a).1.after rest

/-- The events of some steps, from the first to the last. -/
def history (u : Use σ) : List (Action σ) → List (Event σ)
  | [] => []
  | a :: rest => ⟨u, a⟩ :: (u.act a).1.history rest

theorem after_concat (u : Use σ) (past : List (Action σ)) (a : Action σ) :
    u.after (past ++ [a]) = ((u.after past).act a).1 := by
  induction past generalizing u with
  | nil => rfl
  | cons b rest ih => exact ih (u.act b).1

theorem history_concat (u : Use σ) (past : List (Action σ)) (a : Action σ) :
    u.history (past ++ [a]) = u.history past ++ [⟨u.after past, a⟩] := by
  induction past generalizing u with
  | nil => rfl
  | cons b rest ih =>
    show _ :: (u.act b).1.history (rest ++ [a]) = _
    rw [ih]
    rfl

end Use

namespace Action

/-- Does the step clear the catalogue? -/
def isClear : Action σ → Bool
  | .clear => true
  | _ => false

/-- The key that is looked up can be a key, and it equals itself. -/
def Proper : Action σ → Prop
  | .fetch ref => ref.key.isHashable = true ∧ ref.key.isUndefined = false
  | .contains key => key.isHashable = true ∧ key.isUndefined = false
  | _ => True

end Action

/-! ## What was fetched -/

namespace Event

/-- What the step was answered. -/
def answer (ev : Event σ) : Answer σ := (ev.before.act ev.action).2

/-- What was fetched, and for which reference, if the step is a fetch that succeeded. -/
def fetched? (ev : Event σ) : Option (EnumRef σ × EnumValues σ) :=
  match ev.action, ev.answer with
  | .fetch ref, .values (.ok e) => some (ref, e)
  | _, _ => none

end Event

/-- The events since the catalogue was last cleared. -/
def sinceClear (events : List (Event σ)) : List (Event σ) :=
  (events.reverse.takeWhile fun ev => !ev.action.isClear).reverse

/-- What was fetched since the catalogue was last cleared. -/
def fetchedSinceClear (events : List (Event σ)) : List (EnumRef σ × EnumValues σ) :=
  (sinceClear events).filterMap Event.fetched?

/-- What the first successful fetch of an equal key since the last clearing gave. -/
def firstFetched (key : Datum) (events : List (Event σ)) : Option (EnumValues σ) :=
  ((fetchedSinceClear events).find? fun p => p.1.key.same key).map Prod.snd

theorem fetchedSinceClear_concat (events : List (Event σ)) (ev : Event σ) :
    fetchedSinceClear (events ++ [ev]) =
      if ev.action.isClear then [] else fetchedSinceClear events ++ ev.fetched?.toList := by
  unfold fetchedSinceClear sinceClear
  rw [List.reverse_append, List.reverse_singleton, List.singleton_append, List.takeWhile_cons]
  cases ev.action.isClear with
  | true => rfl
  | false =>
    have hlast : List.filterMap Event.fetched? [ev] = ev.fetched?.toList := by
      cases h : ev.fetched? <;> simp [h]
    simp [hlast]

/-! ## What is kept -/

/-- The catalogue keeps what was fetched: under each key what the first fetch gave, and each key
once. -/
structure Agrees (cat : Catalogue σ) (fetched : List (EnumRef σ × EnumValues σ)) : Prop where
  find : ∀ key, cat.find? key = (fetched.find? fun p => p.1.key.same key).map Prod.snd
  defined : ∀ p ∈ fetched, p.1.key.isUndefined = false
  kept : ∀ entry ∈ cat.entries, ∃ p ∈ fetched, p.1.key = entry.1
  distinct : cat.entries.Pairwise fun a b => a.1.same b.1 = false

namespace Agrees

variable {cat : Catalogue σ} {fetched : List (EnumRef σ × EnumValues σ)} {ref : EnumRef σ}
  {e : EnumValues σ}

theorem nil (h : cat.entries = []) : Agrees cat [] where
  find := by
    intro key
    rw [find?, h]
    rfl
  defined := by simp
  kept := by simp [h]
  distinct := by simp [h]

theorem defined_entry (h : Agrees cat fetched) {entry : Datum × EnumValues σ}
    (hentry : entry ∈ cat.entries) : entry.1.isUndefined = false := by
  obtain ⟨p, hp, hkey⟩ := h.kept entry hentry
  rw [← hkey]
  exact h.defined p hp

theorem defined_append (h : Agrees cat fetched) (hkey : ref.key.isUndefined = false) :
    ∀ p ∈ fetched ++ [(ref, e)], p.1.key.isUndefined = false := by
  intro p hp
  rcases List.mem_append.1 hp with hold | hnew
  · exact h.defined p hold
  · obtain rfl := List.mem_singleton.1 hnew
    exact hkey

/-- Only the entries count. -/
theorem congr (h : Agrees cat fetched) {cat' : Catalogue σ} (heq : cat'.entries = cat.entries) :
    Agrees cat' fetched where
  find := by
    intro key
    rw [← h.find, find?, find?, heq]
  defined := h.defined
  kept := by
    rw [heq]
    exact h.kept
  distinct := by
    rw [heq]
    exact h.distinct

/-- What is fetched again was fetched before. -/
theorem again (h : Agrees cat fetched) (hkey : ref.key.isUndefined = false)
    (hfind : cat.find? ref.key = some e) : Agrees cat (fetched ++ [(ref, e)]) where
  find := by
    intro key
    rw [h.find, List.find?_append]
    cases hfirst : fetched.find? fun p => p.1.key.same key with
    | some p => rfl
    | none =>
      -- then the key is not equal to the one that was found
      have hnot : ref.key.same key = false := by
        by_contra hsame
        rw [Bool.not_eq_false, ← Datum.sameKey_eq_same hkey] at hsame
        rw [cat.find?_congr hsame, h.find, hfirst] at hfind
        cases hfind
      simp [hnot]
  defined := h.defined_append hkey
  kept := by
    intro entry hentry
    obtain ⟨p, hp, hpkey⟩ := h.kept entry hentry
    exact ⟨p, List.mem_append_left _ hp, hpkey⟩
  distinct := h.distinct

/-- What is fetched for the first time is kept. -/
theorem keep (h : Agrees cat fetched) (hkey : ref.key.isUndefined = false)
    (href : e.ref = ref) (hfind : cat.find? ref.key = none) :
    Agrees (cat.keep e) (fetched ++ [(ref, e)]) where
  find := by
    intro key
    rw [find?_keep, h.find, List.find?_append, href, Datum.sameKey_eq_same hkey]
    cases hfirst : fetched.find? fun p => p.1.key.same key with
    | some p => rfl
    | none =>
      cases hsame : ref.key.same key with
      | true => simp [hsame]
      | false => simp [hsame]
  defined := h.defined_append hkey
  kept := by
    intro entry hentry
    rcases List.mem_append.1 hentry with hold | hnew
    · obtain ⟨p, hp, hpkey⟩ := h.kept entry hold
      exact ⟨p, List.mem_append_left _ hp, hpkey⟩
    · obtain rfl := List.mem_singleton.1 hnew
      subst href
      exact ⟨(e.ref, e), by simp, rfl⟩
  distinct := by
    refine List.pairwise_append.2 ⟨h.distinct, List.pairwise_singleton _ _, ?_⟩
    intro a ha b hb
    obtain rfl := List.mem_singleton.1 hb
    subst href
    rw [← Datum.sameKey_eq_same (h.defined_entry ha)]
    exact find?_eq_none_iff.1 hfind a ha

end Agrees

/-! ## Where values come from -/

/-- The values are the integers among the constants, each once and ascending, and all other
constants are counted as unresolved. -/
def Tells (e : EnumValues σ) (constants : List Datum) : Prop :=
  e.values.Pairwise (· < ·) ∧ (∀ n, n ∈ e.values ↔ .int n ∈ constants) ∧
    e.unresolved = constants.countP fun | .int _ => false | _ => true

theorem tells_ofConstants (ref : EnumRef σ) (constants : List Datum) :
    Tells (.ofConstants ref constants) constants := by
  obtain ⟨hasc, hmem⟩ := EnumValues.values_ofConstants ref constants
  refine ⟨hasc, hmem, ?_⟩
  show (constants.filter fun c => c.integer?.isNone).length = _
  rw [List.countP_eq_length_filter]
  congr 1
  refine List.filter_congr ?_
  intro d _
  cases d <;> rfl

/-- At one of the events the values were worked out from the constants that were declared then. -/
def WorkedOut (events : List (Event σ)) (e : EnumValues σ) : Prop :=
  ∃ ev ∈ events, ∃ ref found, (ev.action = .build ref ∨ ev.action = .fetch ref) ∧
    ev.before.declared ref >>= Datum.items = .ok found ∧ e.ref = ref ∧ Tells e found

theorem WorkedOut.append {events : List (Event σ)} {e : EnumValues σ} (h : WorkedOut events e)
    (more : List (Event σ)) : WorkedOut (events ++ more) e := by
  obtain ⟨ev, hev, hrest⟩ := h
  exact ⟨ev, List.mem_append_left _ hev, hrest⟩

theorem workedOut_now {u : Use σ} {a : Action σ} {ref : EnumRef σ} {found : List Datum}
    (events : List (Event σ)) (ha : a = .build ref ∨ a = .fetch ref)
    (hfound : u.declared ref >>= Datum.items = .ok found) :
    WorkedOut (events ++ [⟨u, a⟩]) (.ofConstants ref found) :=
  ⟨⟨u, a⟩, by simp, ref, found, ha, hfound, rfl, tells_ofConstants ref found⟩

/-! ## One step -/

/-- What holds of a catalogue in use after the events. -/
structure Explained (u : Use σ) (events : List (Event σ)) : Prop where
  agrees : Agrees u.catalogue (fetchedSinceClear events)
  workedOut : ∀ entry ∈ u.catalogue.entries, WorkedOut events entry.2

variable {u : Use σ} {events : List (Event σ)}

theorem fetched?_of_ok {ref : EnumRef σ} {e : EnumValues σ}
    (h : (u.catalogue.fetch u.declared ref).result = .ok e) :
    Event.fetched? ⟨u, .fetch ref⟩ = some (ref, e) := by
  simp [Event.fetched?, Event.answer, Use.act, h]

theorem fetched?_of_error {ref : EnumRef σ} {f : Fault}
    (h : (u.catalogue.fetch u.declared ref).result = .error f) :
    Event.fetched? ⟨u, .fetch ref⟩ = none := by
  simp [Event.fetched?, Event.answer, Use.act, h]

/-- A fetch keeps the catalogue in agreement with what was fetched. -/
theorem Agrees.fetch {ref : EnumRef σ} (h : Agrees u.catalogue (fetchedSinceClear events))
    (hkey : ref.key.isUndefined = false) :
    Agrees (u.catalogue.fetch u.declared ref).catalogue
      (fetchedSinceClear events ++ (Event.fetched? ⟨u, .fetch ref⟩).toList) := by
  have hasked : Agrees u.catalogue.asked (fetchedSinceClear events) := h.congr rfl
  rcases u.catalogue.fetch_cases u.declared ref with
    ⟨-, heq⟩ | ⟨-, e, hfind, heq⟩ | ⟨-, -, f, -, heq⟩ | ⟨-, hfind, found, -, heq⟩
  · rw [fetched?_of_error (by rw [heq]), heq, Option.toList_none, List.append_nil]
    exact h
  · rw [fetched?_of_ok (by rw [heq]), heq]
    exact h.again hkey hfind
  · rw [fetched?_of_error (by rw [heq]), heq, Option.toList_none, List.append_nil]
    exact hasked
  · rw [fetched?_of_ok (by rw [heq]), heq]
    exact hasked.keep hkey (EnumValues.ref_ofConstants ref found) hfind

/-- A step that neither fetches nor clears leaves the catalogue explained. -/
theorem Explained.unchanged (h : Explained u events) {a : Action σ}
    (hentries : (u.act a).1.catalogue.entries = u.catalogue.entries)
    (hfetched : Event.fetched? ⟨u, a⟩ = none) (hclear : a.isClear = false) :
    Explained (u.act a).1 (events ++ [⟨u, a⟩]) := by
  refine ⟨?_, ?_⟩
  · rw [fetchedSinceClear_concat, if_neg (by simp [hclear]), hfetched, Option.toList_none,
      List.append_nil]
    exact h.agrees.congr hentries
  · intro entry hentry
    rw [hentries] at hentry
    exact (h.workedOut entry hentry).append _

/-- All that is kept after a fetch, and what it gives, was worked out by then. -/
theorem workedOut_fetch (h : ∀ entry ∈ u.catalogue.entries, WorkedOut events entry.2)
    (ref : EnumRef σ) :
    (∀ entry ∈ (u.catalogue.fetch u.declared ref).catalogue.entries,
        WorkedOut (events ++ [⟨u, .fetch ref⟩]) entry.2) ∧
      ∀ e, (u.catalogue.fetch u.declared ref).result = .ok e →
        WorkedOut (events ++ [⟨u, .fetch ref⟩]) e := by
  have hkept : ∀ entry ∈ u.catalogue.entries,
      WorkedOut (events ++ [⟨u, .fetch ref⟩]) entry.2 :=
    fun entry hentry => (h entry hentry).append _
  obtain ⟨hall, hgiven⟩ := fetch_forall (fun _ e => WorkedOut (events ++ [⟨u, .fetch ref⟩]) e) hkept
    (fun found hfound => workedOut_now events (Or.inr rfl) hfound)
  refine ⟨hall, ?_⟩
  intro e he
  obtain ⟨-, -, hworked⟩ := hgiven e he
  exact hworked

theorem entries_build (cat : Catalogue σ) (constants : EnumRef σ → Except Fault Datum)
    (ref : EnumRef σ) : (cat.build constants ref).catalogue.entries = cat.entries := by
  unfold build
  split <;> rfl

/-- **One step.**  Every step leaves the catalogue explained by the events. -/
theorem Explained.act (h : Explained u events) {a : Action σ} (ha : a.Proper) :
    Explained (u.act a).1 (events ++ [⟨u, a⟩]) := by
  cases a with
  | fetch ref =>
    refine ⟨?_, (workedOut_fetch h.workedOut ref).1⟩
    rw [fetchedSinceClear_concat]
    exact h.agrees.fetch ha.2
  | clear =>
    refine ⟨?_, ?_⟩
    · rw [fetchedSinceClear_concat]
      exact Agrees.nil rfl
    · intro entry hentry
      cases hentry
  | build ref => exact h.unchanged (entries_build _ _ _) rfl rfl
  | contains key => exact h.unchanged rfl rfl rfl
  | size => exact h.unchanged rfl rfl rfl
  | redeclare constants => exact h.unchanged rfl rfl rfl

/-- **All steps.**  At any time the catalogue is explained by what happened. -/
theorem explained_after (declared : EnumRef σ → Except Fault Datum) (past : List (Action σ))
    (hpast : ∀ a ∈ past, a.Proper) :
    Explained ((Use.start declared).after past) ((Use.start declared).history past) := by
  induction past using List.reverseRecOn with
  | nil => exact ⟨Agrees.nil rfl, fun entry hentry => by cases hentry⟩
  | append_singleton past a ih =>
    rw [Use.after_concat, Use.history_concat]
    have hbefore := ih fun b hb => hpast b (List.mem_append_left _ hb)
    exact hbefore.act (hpast a (by simp))

/-! ## The contract -/

/-- Does the step ask the front end, after these events? -/
def Action.asks (events : List (Event σ)) : Action σ → Bool
  | .build _ => true
  | .fetch ref => (firstFetched ref.key events).isNone
  | _ => false

/-- One of each group of equal keys. -/
structure Represents (reps keys : List Datum) : Prop where
  distinct : reps.Pairwise fun a b => a.same b = false
  subset : ∀ rep ∈ reps, rep ∈ keys
  complete : ∀ key ∈ keys, ∃ rep ∈ reps, rep.same key = true

/-- What a step comes to, as the events before it say. -/
structure Use.Lawful (u : Use σ) (events : List (Event σ)) : Prop where
  /-- What was fetched since the last clearing is fetched again. -/
  again : ∀ ref e, (Action.fetch ref).Proper → firstFetched ref.key events = some e →
    (u.act (.fetch ref)).2 = .values (.ok e)
  /-- Else the values are worked out from the constants that are declared now, or the front end
  fails. -/
  first : ∀ a ref, a = .build ref ∨ a = .fetch ref ∧ firstFetched ref.key events = none →
    a.Proper → (u.act a).2 =
      .values ((u.declared ref >>= Datum.items).map (EnumValues.ofConstants ref))
  /-- The front end is asked once when values are worked out, and never else. -/
  queries : ∀ a : Action σ, a.Proper → (u.act a).1.catalogue.queries =
    u.catalogue.queries + if a.asks events then 1 else 0
  /-- A fetch that fails changes nothing that is kept, and the next one asks again. -/
  failure : ∀ ref f, (Action.fetch ref).Proper → (u.act (.fetch ref)).2 = .values (.error f) →
    (u.act (.fetch ref)).1.catalogue.entries = u.catalogue.entries ∧
      (Action.fetch ref).asks (events ++ [⟨u, .fetch ref⟩]) = true
  /-- The size is the number of distinct keys that were fetched since the last clearing. -/
  size : ∃ keys, Represents keys ((fetchedSinceClear events).map (·.1.key)) ∧
    (u.act .size).2 = .size keys.length
  /-- A key is contained if it was fetched since the last clearing. -/
  contains : ∀ key, (Action.contains key : Action σ).Proper →
    (u.act (.contains key)).2 = .found (.ok (firstFetched key events).isSome)
  /-- All values that are given are those of constants that were declared when the values were
  worked out. -/
  values : ∀ a e, (u.act a).2 = .values (.ok e) → WorkedOut (events ++ [⟨u, a⟩]) e

namespace Explained

variable {ref : EnumRef σ}

theorem find?_eq (h : Explained u events) (key : Datum) :
    u.catalogue.find? key = firstFetched key events := h.agrees.find key

theorem fetch_again (h : Explained u events) {e : EnumValues σ} (hkey : ref.key.isHashable = true)
    (hfirst : firstFetched ref.key events = some e) :
    u.catalogue.fetch u.declared ref = ⟨u.catalogue, [], .ok e⟩ :=
  fetch_hit hkey ((h.find?_eq ref.key).trans hfirst)

/-- A first fetch works the values out, or fails with the front end. -/
theorem fetch_first (h : Explained u events) (hkey : ref.key.isHashable = true)
    (hfirst : firstFetched ref.key events = none) :
    (u.catalogue.fetch u.declared ref).result =
        (u.declared ref >>= Datum.items).map (EnumValues.ofConstants ref) ∧
      (u.catalogue.fetch u.declared ref).catalogue.queries = u.catalogue.queries + 1 := by
  have hfind := (h.find?_eq ref.key).trans hfirst
  cases hf : u.declared ref >>= Datum.items with
  | error f =>
    rw [fetch_fails hkey hfind hf]
    exact ⟨rfl, rfl⟩
  | ok found =>
    rw [fetch_builds hkey hfind hf]
    exact ⟨rfl, rfl⟩

/-- A fetch that fails leaves the entries as they were, and was no fetch of a kept key. -/
theorem fetch_error (h : Explained u events) {f : Fault} (hkey : ref.key.isHashable = true)
    (herror : (u.catalogue.fetch u.declared ref).result = .error f) :
    (u.catalogue.fetch u.declared ref).catalogue.entries = u.catalogue.entries ∧
      firstFetched ref.key (events ++ [⟨u, .fetch ref⟩]) = none := by
  have hsame : firstFetched ref.key (events ++ [⟨u, .fetch ref⟩]) =
      firstFetched ref.key events := by
    unfold firstFetched
    rw [fetchedSinceClear_concat, fetched?_of_error herror, Option.toList_none, List.append_nil]
    rfl
  rw [hsame, ← h.find?_eq]
  rcases u.catalogue.fetch_cases u.declared ref with
    ⟨hno, -⟩ | ⟨-, e, -, heq⟩ | ⟨-, hfind, g, -, heq⟩ | ⟨-, -, found, -, heq⟩
  · rw [hkey] at hno
    cases hno
  · rw [heq] at herror
    cases herror
  · rw [heq]
    exact ⟨rfl, hfind⟩
  · rw [heq] at herror
    cases herror

/-- The keys of the entries are one of each group of equal keys that were fetched. -/
theorem represents (h : Explained u events) :
    Represents (u.catalogue.entries.map Prod.fst) ((fetchedSinceClear events).map (·.1.key)) where
  distinct := List.pairwise_map.2 h.agrees.distinct
  subset := by
    intro rep hrep
    obtain ⟨entry, hentry, rfl⟩ := List.mem_map.1 hrep
    obtain ⟨p, hp, hkey⟩ := h.agrees.kept entry hentry
    exact List.mem_map.2 ⟨p, hp, hkey⟩
  complete := by
    intro key hkey
    obtain ⟨p, hp, rfl⟩ := List.mem_map.1 hkey
    have hself : p.1.key.same p.1.key = true := by
      rw [← Datum.sameKey_eq_same (h.agrees.defined p hp), Datum.sameKey_refl]
    have hsome : (u.catalogue.find? p.1.key).isSome = true := by
      rw [h.agrees.find, Option.isSome_map, List.find?_isSome]
      exact ⟨p, hp, hself⟩
    obtain ⟨e, he⟩ := Option.isSome_iff_exists.1 hsome
    obtain ⟨rep, hentry, hrep⟩ := mem_of_find? he
    refine ⟨rep, List.mem_map.2 ⟨(rep, e), hentry, rfl⟩, ?_⟩
    rw [← Datum.sameKey_eq_same (h.agrees.defined_entry hentry)]
    exact hrep

/-- The front end is asked once for values that were not fetched since the last clearing, and never
else. -/
theorem queries_act (h : Explained u events) {a : Action σ} (ha : a.Proper) :
    (u.act a).1.catalogue.queries =
      u.catalogue.queries + if a.asks events then 1 else 0 := by
  cases a with
  | fetch ref =>
    show (u.catalogue.fetch u.declared ref).catalogue.queries = _
    cases hfirst : firstFetched ref.key events with
    | some e =>
      rw [h.fetch_again ha.1 hfirst]
      simp [Action.asks, hfirst]
    | none =>
      rw [(h.fetch_first ha.1 hfirst).2]
      simp [Action.asks, hfirst]
  | build ref =>
    show (u.catalogue.build u.declared ref).catalogue.queries = _
    unfold build
    split <;> rfl
  | contains key => rfl
  | size => rfl
  | clear => rfl
  | redeclare constants => rfl

/-- Values that a step gives were worked out in it or before it. -/
theorem workedOut_act (h : Explained u events) {a : Action σ} {e : EnumValues σ}
    (he : (u.act a).2 = .values (.ok e)) : WorkedOut (events ++ [⟨u, a⟩]) e := by
  cases a with
  | fetch ref => exact (workedOut_fetch h.workedOut ref).2 e (Answer.values.inj he)
  | build ref =>
    have hresult : (u.catalogue.build u.declared ref).result = .ok e := Answer.values.inj he
    unfold build at hresult
    split at hresult
    · cases hresult
    · rename_i found hfound
      cases hresult
      exact workedOut_now events (Or.inl rfl) hfound
  | contains key => cases he
  | size => cases he
  | clear => cases he
  | redeclare constants => cases he

end Explained

/-- **The contract of a catalogue.**  After any steps, with keys that can be keys and equal
themselves, the events say what the next step comes to. -/
theorem lawful_after (declared : EnumRef σ → Except Fault Datum) (past : List (Action σ))
    (hpast : ∀ a ∈ past, a.Proper) :
    ((Use.start declared).after past).Lawful ((Use.start declared).history past) := by
  have h := explained_after declared past hpast
  generalize (Use.start declared).after past = u at h ⊢
  generalize (Use.start declared).history past = events at h ⊢
  refine ⟨?_, ?_, fun a => h.queries_act, ?_, ?_, ?_, fun a e => h.workedOut_act⟩
  · intro ref e href hfirst
    show Answer.values (u.catalogue.fetch u.declared ref).result = _
    rw [h.fetch_again href.1 hfirst]
  · rintro a ref (rfl | ⟨rfl, hfirst⟩) ha
    · show Answer.values (u.catalogue.build u.declared ref).result = _
      unfold build
      cases u.declared ref >>= Datum.items <;> rfl
    · show Answer.values (u.catalogue.fetch u.declared ref).result = _
      rw [(h.fetch_first ha.1 hfirst).1]
  · intro ref f href herror
    obtain ⟨hentries, hnone⟩ := h.fetch_error href.1 (Answer.values.inj herror)
    exact ⟨hentries, by simp [Action.asks, hnone]⟩
  · refine ⟨u.catalogue.entries.map Prod.fst, h.represents, ?_⟩
    rw [List.length_map]
    rfl
  · intro key hkey
    show Answer.found (u.catalogue.contains key) = _
    rw [← h.find?_eq]
    unfold contains
    rw [Datum.asKey_of_isHashable hkey.1]
    rfl

/-- An enumeration without constants is fetched, gets a constant, is worked out, and is fetched
again under an equal key: it still has no values. -/
theorem lawful_after_redeclared :
    let ref : EnumRef Unit := ⟨.int 1, .text "E", ()⟩
    let past : List (Action Unit) :=
      [.fetch ref, .redeclare fun _ => .ok (.list [.int 7, .bool true]), .build ref]
    let u := (Use.start fun _ => .ok (.list [])).after past
    (u.act (.fetch ⟨.bool true, .text "E", ()⟩)).2 = .values (.ok ⟨ref, [], 0⟩) ∧
      (u.act (.build ref)).2 = .values (.ok ⟨ref, [7], 1⟩) ∧
      u.Lawful ((Use.start fun _ => .ok (.list [])).history past) := by
  intro ref past u
  have hpast : ∀ a ∈ past, a.Proper := by
    intro a ha
    simp only [past, List.mem_cons, List.not_mem_nil, or_false] at ha
    rcases ha with rfl | rfl | rfl
    · exact ⟨rfl, rfl⟩
    · trivial
    · trivial
  exact ⟨rfl, rfl, lawful_after _ past hpast⟩

end Catalogue

end DeadCast

import DeadCast.Proofs.Finding.Ledger
import Mathlib.Tactic

/-!
# A ledger without repetitions keeps the first of each key

A ledger that drops repetitions has two pieces of state, the findings and the keys it has seen, and
looks a finding up in the second to decide about the first.  What it should hold is said without
either: the findings at whose position no earlier finding has an equal key (`firstOccurrences`).

The ledger compares a key with the keys that it kept, while `firstOccurrences` compares it with the
keys of *all* earlier findings.  The two agree because equality of keys is an equivalence
(`Ledger.holds_foldl_offer`): what was dropped equals something that was kept, although the two may
be of different kinds, such as `1` and `True`.

A finding whose key cannot be looked up is refused.  It leaves no trace, so it does not count as an
earlier occurrence either.
-/

namespace DeadCast

/-! ## First occurrences -/

namespace Finding

/-- The findings at whose position no earlier finding has an equal key. -/
def firstOccurrences (fs : List Finding) : List Finding :=
  (List.range fs.length).filterMap fun k =>
    fs[k]?.filter fun f => !(fs.take k).any (·.key.same f.key)

/-- One more finding at the end is a first occurrence or not; the earlier ones do not change. -/
theorem firstOccurrences_concat (fs : List Finding) (f : Finding) :
    firstOccurrences (fs ++ [f]) =
      firstOccurrences fs ++ if fs.any (·.key.same f.key) then [] else [f] := by
  have hlast : ((fs ++ [f])[fs.length]?.filter
      fun g => !((fs ++ [f]).take fs.length).any (·.key.same g.key)) =
        if fs.any (·.key.same f.key) then none else some f := by
    cases hany : fs.any (·.key.same f.key) <;> simp [Option.filter, hany]
  unfold firstOccurrences
  rw [List.length_append, List.length_singleton, List.range_succ, List.filterMap_append]
  congr 1
  · refine List.filterMap_congr fun k hk => ?_
    have hlt : k < fs.length := List.mem_range.1 hk
    rw [List.getElem?_append_left hlt, List.take_append_of_le_length hlt.le]
  · rw [List.filterMap_cons, hlast]
    cases fs.any (·.key.same f.key) <;> rfl

/-- First occurrences keep their order. -/
theorem firstOccurrences_sublist (fs : List Finding) : (firstOccurrences fs).Sublist fs := by
  induction fs using List.reverseRecOn with
  | nil => exact List.Sublist.slnil
  | append_singleton fs f ih =>
    rw [firstOccurrences_concat]
    refine ih.append ?_
    split
    · exact List.nil_sublist _
    · exact List.Sublist.refl _

end Finding

/-! ## One offer -/

namespace Ledger

/-- A ledger that drops repetitions changes only for a key that can be looked up and that it has not
seen. -/
theorem offer_of_drops {l : Ledger} (h : l.dropRepeats = true) (f : Finding) :
    l.offer f = if f.key.isHashable = true ∧ l.seen.any (·.same f.key) = false then
      { l with findings := l.findings ++ [f], seen := l.seen ++ [f.key] } else l := by
  cases hkey : f.key.isHashable <;> cases hseen : l.seen.any (·.same f.key) <;>
    simp [offer, emit, h, hkey, hseen]

/-- An offer is a fault exactly if the ledger does not take it. -/
theorem emit_error_iff {l : Ledger} {f : Finding} :
    (∃ fault, l.emit f = .error fault) ↔ l.takes f = false := by
  rcases l.emit_cases f with
    ⟨htakes, heq⟩ | ⟨htakes, -, -, heq⟩ | ⟨htakes, -, heq⟩ | ⟨htakes, -, heq⟩ <;>
    simp [htakes, heq]

/-- What a proper ledger has seen is what it holds. -/
theorem Proper.any_seen_iff {l : Ledger} (hproper : l.Proper) (h : l.dropRepeats = true)
    (k : Finding.Key) : l.seen.any (·.same k) = true ↔ l.Holds k := by
  rw [hproper h, List.any_map, List.any_eq_true]
  rfl

/-- A finding that is refused, or whose key is held already, changes nothing. -/
theorem Proper.offer_eq_self {l : Ledger} (hproper : l.Proper) (h : l.dropRepeats = true)
    {f : Finding} (hf : f.key.isHashable = true → l.Holds f.key) : l.offer f = l := by
  rw [offer_of_drops h, if_neg]
  rintro ⟨hkey, hnew⟩
  rw [(hproper.any_seen_iff h f.key).2 (hf hkey)] at hnew
  cases hnew

/-- No two findings of the ledger have equal keys. -/
def Distinct (l : Ledger) : Prop := l.findings.Pairwise fun f g => f.key.same g.key = false

theorem Distinct.offer {l : Ledger} (hdistinct : l.Distinct) (hproper : l.Proper)
    (h : l.dropRepeats = true) (f : Finding) : (l.offer f).Distinct := by
  rw [offer_of_drops h]
  split
  · rename_i hnew
    refine List.pairwise_append.2 ⟨hdistinct, List.pairwise_singleton _ f, ?_⟩
    intro g hg f' hf'
    obtain rfl : f' = f := List.mem_singleton.1 hf'
    -- an equal key in the ledger would have been seen
    by_contra hsame
    have hheld : l.Holds f'.key := ⟨g, hg, by simpa using hsame⟩
    rw [(hproper.any_seen_iff h f'.key).2 hheld] at hnew
    cases hnew.2
  · exact hdistinct

/-! ## Many offers -/

@[simp]
theorem dropRepeats_foldl_offer (l : Ledger) (fs : List Finding) :
    (fs.foldl offer l).dropRepeats = l.dropRepeats := by
  induction fs generalizing l with
  | nil => rfl
  | cons f rest ih => rw [List.foldl_cons, ih, dropRepeats_offer]

/-- A ledger that nothing was offered to. -/
theorem proper_new (drop : Bool) : Proper { dropRepeats := drop } := fun _ => rfl

section Run

variable (fs : List Finding)

/-- The ledger without repetitions after some offers. -/
def withoutRepeats : Ledger := fs.foldl offer { dropRepeats := true }

theorem withoutRepeats_concat (f : Finding) :
    withoutRepeats (fs ++ [f]) = (withoutRepeats fs).offer f := by
  simp [withoutRepeats]

theorem dropRepeats_withoutRepeats : (withoutRepeats fs).dropRepeats = true :=
  dropRepeats_foldl_offer _ fs

theorem proper_withoutRepeats : (withoutRepeats fs).Proper := (proper_new true).foldl_offer fs

/-- It holds the keys of all offers that could be looked up. -/
theorem holds_withoutRepeats (k : Finding.Key) :
    (withoutRepeats fs).Holds k ↔
      ∃ f ∈ fs.filter (·.key.isHashable), f.key.same k = true := by
  have hempty : ¬ Holds { dropRepeats := true } k := by simp [Holds]
  rw [withoutRepeats, holds_foldl_offer (proper_new true)]
  simp only [hempty, false_or, takes, List.mem_filter, Bool.not_true, Bool.false_or, and_assoc]

theorem distinct_withoutRepeats : (withoutRepeats fs).Distinct := by
  induction fs using List.reverseRecOn with
  | nil => exact List.Pairwise.nil
  | append_singleton fs f ih =>
    rw [withoutRepeats_concat]
    exact ih.offer (proper_withoutRepeats fs) (dropRepeats_withoutRepeats fs) f

/-- **The first of each key is kept.** -/
theorem findings_withoutRepeats :
    (withoutRepeats fs).findings = Finding.firstOccurrences (fs.filter (·.key.isHashable)) := by
  induction fs using List.reverseRecOn with
  | nil => rfl
  | append_singleton fs f ih =>
    rw [withoutRepeats_concat, offer_of_drops (dropRepeats_withoutRepeats fs), List.filter_append]
    cases hkey : f.key.isHashable with
    | false => simp [hkey, ih]
    | true =>
      -- seen by the ledger means: an equal key among all earlier findings, kept or not
      have hseen : (withoutRepeats fs).seen.any (·.same f.key) =
          (fs.filter (·.key.isHashable)).any (·.key.same f.key) := by
        rw [Bool.eq_iff_iff, (proper_withoutRepeats fs).any_seen_iff
          (dropRepeats_withoutRepeats fs), holds_withoutRepeats, List.any_eq_true]
      have hlast : [f].filter (·.key.isHashable) = [f] := by simp [hkey]
      rw [hlast, Finding.firstOccurrences_concat, ← ih, hseen]
      cases (fs.filter (·.key.isHashable)).any (·.key.same f.key) <;> simp

/-- Offers that repeat earlier ones change nothing. -/
theorem foldl_offer_withoutRepeats {gs : List Finding} (hgs : ∀ g ∈ gs, g ∈ fs) :
    gs.foldl offer (withoutRepeats fs) = withoutRepeats fs := by
  induction gs with
  | nil => rfl
  | cons g rest ih =>
    have hheld : g.key.isHashable = true → (withoutRepeats fs).Holds g.key := by
      intro hkey
      have hoffered : g ∈ fs.filter (·.key.isHashable) :=
        List.mem_filter.2 ⟨hgs g (List.mem_cons_self ..), hkey⟩
      exact (holds_withoutRepeats fs g.key).2 ⟨g, hoffered, Finding.Key.same_refl _⟩
    rw [List.foldl_cons,
      (proper_withoutRepeats fs).offer_eq_self (dropRepeats_withoutRepeats fs) hheld]
    exact ih fun g hg => hgs g (List.mem_cons_of_mem _ hg)

end Run

/-- **The first of each key.**  After any findings were offered to a ledger that drops repetitions,

* it has those of them whose key could be looked up and equals the key of no earlier such finding, in
  order, and no two of them have equal keys;
* it has seen exactly the keys of its findings;
* the next offer is a fault exactly if its key cannot be looked up, and then findings and seen keys
  stay as they are;
* its findings are the first occurrences among those of a ledger that keeps repetitions;
* offering any of the same findings again, in any order, changes nothing.

Keys are equal if they have the same identifier and equal locations and paths; only what is not a
number has an equality of its own as a path. -/
theorem keeps_first_of_each_key (fs : List Finding) :
    let l := fs.foldl offer { dropRepeats := true }
    let accepted := fs.filter (·.key.isHashable)
    (l.findings = Finding.firstOccurrences accepted ∧ l.findings.Sublist accepted) ∧
    l.findings.Pairwise (fun f g => f.key.same g.key = false) ∧
    l.seen = l.findings.map Finding.key ∧
    (∀ f, (∃ fault, l.emit f = .error fault) ↔ f.key.isHashable = false) ∧
    (∀ f, f.key.isHashable = false → l.emit f = .error (.unhashable "list") ∧
      (l.offer f).findings = l.findings ∧ (l.offer f).seen = l.seen) ∧
    l.findings = Finding.firstOccurrences (accepted.foldl offer { dropRepeats := false }).findings ∧
    (∀ gs : List Finding, (∀ g ∈ gs, g ∈ fs) → gs.foldl offer l = l) ∧
    ∀ f g : Finding, f.path.isUndefined = false → (f.key.same g.key = true ↔
      f.id = g.id ∧ f.location.same g.location = true ∧ f.path.same g.path = true) := by
  intro l accepted
  have hdrop : l.dropRepeats = true := dropRepeats_withoutRepeats fs
  have hfindings : l.findings = Finding.firstOccurrences accepted := findings_withoutRepeats fs
  have hkept : (accepted.foldl offer { dropRepeats := false }).findings = accepted := by
    rw [findings_foldl_offer rfl, List.nil_append]
  refine ⟨⟨hfindings, ?_⟩, distinct_withoutRepeats fs, proper_withoutRepeats fs hdrop, ?_, ?_, ?_,
    fun gs hgs => foldl_offer_withoutRepeats fs hgs, ?_⟩
  · rw [hfindings]
    exact Finding.firstOccurrences_sublist accepted
  · intro f
    rw [emit_error_iff, takes, hdrop, Bool.not_true, Bool.false_or]
  · intro f hf
    have hrefused : l.emit f = .error (.unhashable "list") := by simp [emit, hdrop, hf]
    exact ⟨hrefused, by simp [offer, hrefused], by simp [offer, hrefused]⟩
  · rw [hkept, hfindings]
  · intro f g hpath
    rw [Finding.Key.same, Finding.key, Finding.key, Datum.sameKey_eq_same hpath]
    simp only [Bool.and_eq_true, beq_iff_eq, and_assoc]

/-- Paths that are equal across kinds: of `1`, `True`, a list, `(2, None)` and `(2.0, None)` the first
and the fourth are kept; the list is refused; and the tuples change nothing when they come again. -/
theorem keeps_first_of_each_key_acrossKinds :
    let on (path : Datum) : Finding :=
      { id := "enumCastOutOfRange", category := "", message := "",
        severity := .severity .warning, location := {}, path := path }
    let fs := [on (.int 1), on (.bool true), on (.list []), on (.tuple [.int 2, .nothing]),
      on (.tuple [.real (.finite 2), .nothing])]
    let l := fs.foldl offer { dropRepeats := true }
    l.findings = [on (.int 1), on (.tuple [.int 2, .nothing])] ∧
      (on (.list [])).key.isHashable = false ∧
      l.emit (on (.list [])) = .error (.unhashable "list") ∧
      (∀ g ∈ fs.drop 3, g ∈ fs) ∧ (fs.drop 3).foldl offer l = l ∧
      (on (.bool true)).path.isUndefined = false ∧
      (on (.bool true)).key.same (on (.int 1)).key = true := by
  intro on fs l
  obtain ⟨⟨hfindings, -⟩, -, -, -, hrefused, -, hagain, hsame⟩ := keeps_first_of_each_key fs
  have hdropped : ∀ g ∈ fs.drop 3, g ∈ fs := fun g hg => List.mem_of_mem_drop hg
  refine ⟨hfindings.trans rfl, rfl, (hrefused (on (.list [])) rfl).1, hdropped,
    hagain _ hdropped, rfl, (hsame _ _ rfl).2 ⟨rfl, rfl, rfl⟩⟩

end Ledger

end DeadCast

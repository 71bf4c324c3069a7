import DeadCast.Finding.Ledger
import DeadCast.Proofs.Datum.Equality
import Mathlib.Tactic

/-!
# What a ledger holds

A finding that is offered to a ledger meets one of four ends, and `Ledger.emit_cases` lists them: a
ledger that drops repetitions refuses it, has its key already, or takes it as new; any other ledger
takes it.  Whether it is refused depends on the kind of the ledger and on the key of the finding
alone, never on what was entered before.

After any number of offers (`List.foldl Ledger.offer`),

* a ledger that keeps repetitions has all of them, in order (`Ledger.findings_foldl_offer`);
* a ledger that drops them has, up to equality of keys, the keys of all that it did not refuse
  (`Ledger.holds_foldl_offer`), so the order of the offers has no influence on the keys it holds;
* any ledger has the identifiers of all that it did not refuse (`Ledger.hasId_foldl_offer`).
-/

namespace DeadCast

/-! ## Equality of keys -/

namespace Finding.Key

/-- One key of each group of equal keys. -/
def canonical (k : Key) : Key where
  id := k.id
  location := ⟨k.location.file.canonical, k.location.line.canonical, k.location.column.canonical⟩
  path := k.path.canonical

theorem same_iff {a b : Key} : a.same b = true ↔ a.canonical = b.canonical := by
  simp only [same, Location.same, Bool.and_eq_true, beq_iff_eq, Datum.sameKey_iff, canonical,
    Key.mk.injEq, Location.mk.injEq, and_assoc]

@[simp]
theorem same_refl (k : Key) : k.same k = true := same_iff.2 rfl

theorem same_trans {a b c : Key} (hab : a.same b = true) (hbc : b.same c = true) :
    a.same c = true :=
  same_iff.2 ((same_iff.1 hab).trans (same_iff.1 hbc))

theorem id_eq_of_same {a b : Key} (h : a.same b = true) : a.id = b.id := by
  have hid : a.canonical.id = b.canonical.id := by rw [same_iff.1 h]
  exact hid

end Finding.Key

/-! ## One offer -/

namespace Ledger

/-- Does the ledger take the finding, or drop it as a repetition, without a fault? -/
def takes (l : Ledger) (f : Finding) : Bool := !l.dropRepeats || f.key.isHashable

/-- **The four ends of an offer.** -/
theorem emit_cases (l : Ledger) (f : Finding) :
    (l.takes f = false ∧ l.emit f = .error (.unhashable "list")) ∨
    (l.takes f = true ∧ l.dropRepeats = true ∧ (∃ k ∈ l.seen, k.same f.key = true) ∧
      l.emit f = .ok l) ∨
    (l.takes f = true ∧ l.dropRepeats = true ∧
      l.emit f = .ok { l with findings := l.findings ++ [f], seen := l.seen ++ [f.key] }) ∨
    (l.takes f = true ∧ l.dropRepeats = false ∧
      l.emit f = .ok { l with findings := l.findings ++ [f] }) := by
  cases hdrop : l.dropRepeats with
  | false =>
    have htakes : l.takes f = true := by simp [takes, hdrop]
    exact Or.inr (Or.inr (Or.inr ⟨htakes, rfl, by simp [emit, hdrop]⟩))
  | true =>
    cases hkey : f.key.isHashable with
    | false =>
      have htakes : l.takes f = false := by simp [takes, hdrop, hkey]
      exact Or.inl ⟨htakes, by simp [emit, hdrop, hkey]⟩
    | true =>
      have htakes : l.takes f = true := by simp [takes, hkey]
      cases hseen : l.seen.any (·.same f.key) with
      | true =>
        have hrepeats : ∃ k ∈ l.seen, k.same f.key = true := List.any_eq_true.1 hseen
        exact Or.inr (Or.inl ⟨htakes, rfl, hrepeats, by simp [emit, hdrop, hkey, hseen]⟩)
      | false =>
        exact Or.inr (Or.inr (Or.inl ⟨htakes, rfl, by simp [emit, hdrop, hkey, hseen]⟩))

/-- The ledger after a finding was offered; one that it refuses changes nothing. -/
def offer (l : Ledger) (f : Finding) : Ledger :=
  match l.emit f with
  | .ok l' => l'
  | .error _ => l

theorem offer_eq {l l' : Ledger} {f : Finding} (h : l.emit f = .ok l') : l.offer f = l' := by
  simp [offer, h]

theorem offer_of_keeps {l : Ledger} (h : l.dropRepeats = false) (f : Finding) :
    l.offer f = { l with findings := l.findings ++ [f] } := by
  simp [offer, emit, h]

/-- A ledger stays of its kind. -/
@[simp]
theorem dropRepeats_offer (l : Ledger) (f : Finding) :
    (l.offer f).dropRepeats = l.dropRepeats := by
  rcases l.emit_cases f with ⟨-, heq⟩ | ⟨-, -, -, heq⟩ | ⟨-, -, heq⟩ | ⟨-, -, heq⟩ <;>
    simp [offer, heq]

/-! ## Keys -/

/-- A ledger that drops repetitions has seen the keys of its findings and no others. -/
def Proper (l : Ledger) : Prop := l.dropRepeats = true → l.seen = l.findings.map Finding.key

theorem Proper.offer {l : Ledger} (h : l.Proper) (f : Finding) : (l.offer f).Proper := by
  intro hkind
  rw [dropRepeats_offer] at hkind
  rcases l.emit_cases f with ⟨-, heq⟩ | ⟨-, -, -, heq⟩ | ⟨-, -, heq⟩ | ⟨-, hkeeps, -⟩
  · simp only [Ledger.offer, heq]
    exact h hkind
  · rw [offer_eq heq]
    exact h hkind
  · rw [offer_eq heq]
    simp [h hkind]
  · rw [hkeeps] at hkind
    cases hkind

/-- A finding of the ledger has an equal key. -/
def Holds (l : Ledger) (k : Finding.Key) : Prop := ∃ f ∈ l.findings, f.key.same k = true

/-- An offer adds the key of a finding that is not refused, and nothing else. -/
theorem holds_offer {l : Ledger} (h : l.Proper) (f : Finding) (k : Finding.Key) :
    (l.offer f).Holds k ↔ l.Holds k ∨ (l.takes f = true ∧ f.key.same k = true) := by
  have hadded : ∀ g ∈ l.findings ++ [f], g.key.same k = true →
      l.Holds k ∨ f.key.same k = true := by
    intro g hg hsame
    rcases List.mem_append.1 hg with hold | hnew
    · exact Or.inl ⟨g, hold, hsame⟩
    · exact Or.inr (List.mem_singleton.1 hnew ▸ hsame)
  have hheld : ∀ {l' : Ledger}, l'.findings = l.findings ++ [f] →
      (l'.Holds k ↔ l.Holds k ∨ f.key.same k = true) := by
    intro l' hfindings
    unfold Holds
    rw [hfindings]
    constructor
    · rintro ⟨g, hg, hsame⟩
      exact hadded g hg hsame
    · rintro (⟨g, hg, hsame⟩ | hsame)
      · exact ⟨g, List.mem_append_left _ hg, hsame⟩
      · exact ⟨f, List.mem_append_right _ (List.mem_singleton_self f), hsame⟩
  rcases l.emit_cases f with
    ⟨htakes, heq⟩ | ⟨htakes, hdrop, ⟨seen, hseen, hsame⟩, heq⟩ | ⟨htakes, -, heq⟩ | ⟨htakes, -, heq⟩
  · simp [offer, heq, htakes]
  · -- a repetition: its key is held already
    rw [offer_eq heq, htakes]
    rw [h hdrop] at hseen
    obtain ⟨g, hg, rfl⟩ := List.mem_map.1 hseen
    constructor
    · exact Or.inl
    · rintro (hheld | ⟨-, hkey⟩)
      · exact hheld
      · exact ⟨g, hg, Finding.Key.same_trans hsame hkey⟩
  · rw [offer_eq heq, htakes, hheld rfl]
    simp
  · rw [offer_eq heq, htakes, hheld rfl]
    simp

/-! ## Many offers -/

/-- A ledger that keeps repetitions has everything that was offered, in order. -/
theorem findings_foldl_offer {l : Ledger} (h : l.dropRepeats = false) (fs : List Finding) :
    (fs.foldl offer l).findings = l.findings ++ fs := by
  induction fs generalizing l with
  | nil => simp
  | cons f rest ih =>
    have hnext : (l.offer f).dropRepeats = false := by rw [dropRepeats_offer, h]
    rw [List.foldl_cons, ih hnext, offer_of_keeps h]
    simp

/-- A ledger holds the keys that it held, and those of all offers that it did not refuse. -/
theorem holds_foldl_offer {l : Ledger} (h : l.Proper) (fs : List Finding) (k : Finding.Key) :
    (fs.foldl offer l).Holds k ↔
      l.Holds k ∨ ∃ f ∈ fs, l.takes f = true ∧ f.key.same k = true := by
  induction fs generalizing l with
  | nil => simp
  | cons f rest ih =>
    have hkind : ∀ g, (l.offer f).takes g = l.takes g := by simp [takes]
    rw [List.foldl_cons, ih (h.offer f), holds_offer h]
    simp only [hkind, List.mem_cons, exists_eq_or_imp, or_assoc]

theorem Proper.foldl_offer {l : Ledger} (h : l.Proper) (fs : List Finding) :
    (fs.foldl Ledger.offer l).Proper := by
  induction fs generalizing l with
  | nil => exact h
  | cons f rest ih => exact ih (h.offer f)

/-! ## Identifiers -/

/-- The ledger has a finding with this identifier. -/
def HasId (l : Ledger) (id : String) : Prop := ∃ f ∈ l.findings, f.id = id

/-- Equal keys have the same identifier, so it does not matter which of them the ledger holds. -/
theorem hasId_iff {l : Ledger} {id : String} : l.HasId id ↔ ∃ k, l.Holds k ∧ k.id = id := by
  constructor
  · rintro ⟨f, hf, hid⟩
    exact ⟨f.key, ⟨f, hf, Finding.Key.same_refl _⟩, hid⟩
  · rintro ⟨k, ⟨f, hf, hsame⟩, hid⟩
    exact ⟨f, hf, (Finding.Key.id_eq_of_same hsame).trans hid⟩

/-- An identifier is in the ledger after offers if it was before, or is that of an offer which was
not refused. -/
theorem hasId_foldl_offer {l : Ledger} (h : l.Proper) (fs : List Finding) (id : String) :
    (fs.foldl offer l).HasId id ↔ l.HasId id ∨ ∃ f ∈ fs, l.takes f = true ∧ f.id = id := by
  simp only [hasId_iff, holds_foldl_offer h]
  constructor
  · rintro ⟨k, hold | ⟨f, hf, htakes, hsame⟩, hid⟩
    · exact Or.inl ⟨k, hold, hid⟩
    · exact Or.inr ⟨f, hf, htakes, (Finding.Key.id_eq_of_same hsame).trans hid⟩
  · rintro (⟨k, hold, hid⟩ | ⟨f, hf, htakes, hid⟩)
    · exact ⟨k, Or.inl hold, hid⟩
    · exact ⟨f.key, Or.inr ⟨f, hf, htakes, Finding.Key.same_refl _⟩, hid⟩

end Ledger

end DeadCast

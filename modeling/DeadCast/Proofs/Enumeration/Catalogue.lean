import DeadCast.Enumeration.Catalogue
import DeadCast.Proofs.Datum.Equality
import DeadCast.Proofs.Number.Ascending
import Mathlib.Tactic

/-!
# What the catalogue does in one step

The values of an enumeration are the distinct integers among its constants, ascending
(`EnumValues.values_ofConstants`), and every other constant is counted as unresolved.

A look at the catalogue ends in one of four ways, and `Catalogue.fetch_cases` says all that each of
them does: the key cannot be looked up; values are kept under it; the front end fails; or the values
are worked out and kept.  Everything that is known about longer uses of a catalogue is derived from
these four.
-/

namespace DeadCast

/-! ## Values -/

namespace Datum

@[simp]
theorem integer?_eq_some_iff {d : Datum} {n : Int} : d.integer? = some n ↔ d = .int n := by
  cases d <;> simp [integer?]

end Datum

namespace EnumValues

variable {σ : Type} (ref : EnumRef σ) (constants : List Datum)

@[simp]
theorem ref_ofConstants : (ofConstants ref constants).ref = ref := rfl

/-- The values are the integers among the constants, from least to greatest, each once. -/
theorem values_ofConstants :
    Lists (ofConstants ref constants).values fun n => .int n ∈ constants := by
  refine (lists_ascending _).congr ?_
  intro n
  simp

end EnumValues

/-- A constant as a value; what is not known is nothing. -/
def constantDatum : Option Int → Datum
  | some n => .int n
  | none => .nothing

theorem mem_map_constantDatum {values : List (Option Int)} {n : Int} :
    Datum.int n ∈ values.map constantDatum ↔ some n ∈ values := by
  rw [List.mem_map]
  constructor
  · rintro ⟨value, hmem, heq⟩
    cases value with
    | none => cases heq
    | some m =>
      cases heq
      exact hmem
  · intro h
    exact ⟨some n, h, rfl⟩

/-- Of constants that are integers or unknown, the values are the known ones. -/
theorem EnumValues.values_ofOptions {σ : Type} (ref : EnumRef σ) (values : List (Option Int)) :
    Lists (ofConstants ref (values.map constantDatum)).values fun n => some n ∈ values :=
  (values_ofConstants ref _).congr fun _ => mem_map_constantDatum

/-! ## Keys -/

namespace Datum

theorem asKey_of_isHashable {d : Datum} (h : d.isHashable = true) : d.asKey = .ok () := by
  rw [asKey, if_pos h]

theorem asKey_of_not_isHashable {d : Datum} (h : d.isHashable = false) :
    d.asKey = .error (.unhashable "list") := by
  rw [asKey, if_neg (by simp [h])]

end Datum

/-! ## Looking up -/

namespace Catalogue

variable {σ : Type}

/-- What is found under a key was kept under an equal one. -/
theorem mem_of_find? {c : Catalogue σ} {key : Datum} {e : EnumValues σ}
    (h : c.find? key = some e) : ∃ k, (k, e) ∈ c.entries ∧ k.sameKey key = true := by
  obtain ⟨⟨k, e'⟩, hfind, rfl⟩ := Option.map_eq_some_iff.1 h
  exact ⟨k, List.mem_of_find?_eq_some hfind, by simpa using List.find?_some hfind⟩

theorem find?_eq_none_iff {c : Catalogue σ} {key : Datum} :
    c.find? key = none ↔ ∀ entry ∈ c.entries, entry.1.sameKey key = false := by
  simp [find?]

/-- Equal keys find the same. -/
theorem find?_congr (c : Catalogue σ) {a b : Datum} (h : a.sameKey b = true) :
    c.find? a = c.find? b := by
  simp only [find?, Datum.sameKey_congr h]

/-- What is kept is found last: only if nothing was kept under the key before. -/
theorem find?_keep (c : Catalogue σ) (e : EnumValues σ) (key : Datum) :
    (c.keep e).find? key =
      (c.find? key).or (if e.ref.key.sameKey key then some e else none) := by
  simp only [find?, keep, List.find?_append]
  cases hfind : c.entries.find? fun entry => entry.1.sameKey key with
  | some entry => simp
  | none =>
    by_cases hkey : e.ref.key.sameKey key = true
    · simp [hkey]
    · simp [hkey]

/-! ## Fetching -/

variable {c : Catalogue σ} {constants : EnumRef σ → Except Fault Datum} {ref : EnumRef σ}

/-- A catalogue that asked the front end once more. -/
def asked (c : Catalogue σ) : Catalogue σ := { c with queries := c.queries + 1 }

theorem fetch_unhashable (h : ref.key.isHashable = false) :
    c.fetch constants ref = ⟨c, [], .error (.unhashable "list")⟩ := by
  simp [fetch, Datum.asKey_of_not_isHashable h]

theorem fetch_hit {e : EnumValues σ} (hkey : ref.key.isHashable = true)
    (h : c.find? ref.key = some e) : c.fetch constants ref = ⟨c, [], .ok e⟩ := by
  simp [fetch, Datum.asKey_of_isHashable hkey, h]

theorem fetch_fails {f : Fault} (hkey : ref.key.isHashable = true) (h : c.find? ref.key = none)
    (hf : constants ref >>= Datum.items = .error f) :
    c.fetch constants ref = ⟨c.asked, [], .error f⟩ := by
  simp [fetch, build, Datum.asKey_of_isHashable hkey, h, hf, asked]

theorem fetch_builds {found : List Datum} (hkey : ref.key.isHashable = true)
    (h : c.find? ref.key = none) (hf : constants ref >>= Datum.items = .ok found) :
    c.fetch constants ref =
      ⟨c.asked.keep (.ofConstants ref found),
        (EnumValues.ofConstants ref found).skippedLine ++
          [(EnumValues.ofConstants ref found).builtLine],
        .ok (.ofConstants ref found)⟩ := by
  simp [fetch, build, Datum.asKey_of_isHashable hkey, h, hf, asked]

/-- **The four ways in which a fetch ends.** -/
theorem fetch_cases (c : Catalogue σ) (constants : EnumRef σ → Except Fault Datum)
    (ref : EnumRef σ) :
    (ref.key.isHashable = false ∧
      c.fetch constants ref = ⟨c, [], .error (.unhashable "list")⟩) ∨
    (ref.key.isHashable = true ∧ ∃ e, c.find? ref.key = some e ∧
      c.fetch constants ref = ⟨c, [], .ok e⟩) ∨
    (ref.key.isHashable = true ∧ c.find? ref.key = none ∧ ∃ f,
      constants ref >>= Datum.items = .error f ∧
      c.fetch constants ref = ⟨c.asked, [], .error f⟩) ∨
    (ref.key.isHashable = true ∧ c.find? ref.key = none ∧ ∃ found,
      constants ref >>= Datum.items = .ok found ∧
      c.fetch constants ref =
        ⟨c.asked.keep (.ofConstants ref found),
          (EnumValues.ofConstants ref found).skippedLine ++
            [(EnumValues.ofConstants ref found).builtLine],
          .ok (.ofConstants ref found)⟩) := by
  cases hkey : ref.key.isHashable with
  | false => exact Or.inl ⟨rfl, fetch_unhashable hkey⟩
  | true =>
    cases hfind : c.find? ref.key with
    | some e => exact Or.inr (Or.inl ⟨rfl, e, rfl, fetch_hit hkey hfind⟩)
    | none =>
      cases hf : constants ref >>= Datum.items with
      | error f => exact Or.inr (Or.inr (Or.inl ⟨rfl, rfl, f, rfl, fetch_fails hkey hfind hf⟩))
      | ok found =>
        exact Or.inr (Or.inr (Or.inr ⟨rfl, rfl, found, rfl, fetch_builds hkey hfind hf⟩))

/-- **What holds of all kept values.**  If it holds of the values that may be worked out now, then
it holds of all that are kept after the fetch, and what the fetch gives was kept, with that
property, under an equal key. -/
theorem fetch_forall (P : Datum → EnumValues σ → Prop)
    (hkept : ∀ entry ∈ c.entries, P entry.1 entry.2)
    (hbuilt : ∀ found, constants ref >>= Datum.items = .ok found →
      P ref.key (.ofConstants ref found)) :
    (∀ entry ∈ (c.fetch constants ref).catalogue.entries, P entry.1 entry.2) ∧
      ∀ e, (c.fetch constants ref).result = .ok e →
        ∃ key, key.sameKey ref.key = true ∧ P key e := by
  rcases c.fetch_cases constants ref with
    ⟨-, heq⟩ | ⟨-, e, hfind, heq⟩ | ⟨-, -, f, -, heq⟩ | ⟨-, -, found, hfound, heq⟩
  · rw [heq]
    exact ⟨hkept, fun e he => by cases he⟩
  · rw [heq]
    refine ⟨hkept, ?_⟩
    intro e' he'
    cases he'
    obtain ⟨key, hmem, hsame⟩ := mem_of_find? hfind
    exact ⟨key, hsame, hkept _ hmem⟩
  · rw [heq]
    exact ⟨hkept, fun e he => by cases he⟩
  · rw [heq]
    refine ⟨?_, ?_⟩
    · intro entry hentry
      rcases List.mem_append.1 hentry with hold | hnew
      · exact hkept entry hold
      · obtain rfl := List.mem_singleton.1 hnew
        exact hbuilt found hfound
    · intro e he
      cases he
      exact ⟨ref.key, Datum.sameKey_refl _, hbuilt found hfound⟩

end Catalogue

end DeadCast

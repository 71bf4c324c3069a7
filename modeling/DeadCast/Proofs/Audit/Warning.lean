import DeadCast.Proofs.Audit.Visit
import DeadCast.Proofs.Verdict
import Mathlib

/-!
# What a warning says

Constants that do not resolve to an integer are left out of the values of an enumeration, and the
rest is used as if it were all.  So a warning says that no resolved constant is in the range
(`Desk.visit_warn`), and it says nothing about the others: give each of them a value, and the
warning is right exactly if none of these values is in the range.  It is right whatever they are
only if there are none, as a range is never empty.  With an unresolved constant a warning can be
wrong (`Desk.warn_of_unresolved`).
-/

namespace DeadCast

/-! ## Completions -/

/-- All constants, where `fill` gives the value of those that are not resolved. -/
def completion (fill : Nat → Int) (constants : List (Option Int)) : List Int :=
  constants.mapIdx fun k value => value.getD (fill k)

/-- A completion holds the resolved constants, and what was filled in for the others. -/
theorem mem_completion {fill : Nat → Int} {constants : List (Option Int)} {n : Int} :
    n ∈ completion fill constants ↔
      some n ∈ constants ∨ ∃ k, constants[k]? = some none ∧ fill k = n := by
  rw [completion, List.mem_iff_getElem?]
  constructor
  · rintro ⟨k, hk⟩
    rw [List.getElem?_mapIdx] at hk
    obtain ⟨value, hvalue, heq⟩ := Option.map_eq_some_iff.1 hk
    cases value with
    | none => exact Or.inr ⟨k, hvalue, heq⟩
    | some m =>
      obtain rfl : m = n := heq
      exact Or.inl (List.mem_of_getElem? hvalue)
  · rintro (hmem | ⟨k, hk, rfl⟩)
    · obtain ⟨k, hk⟩ := List.mem_iff_getElem?.1 hmem
      exact ⟨k, by rw [List.getElem?_mapIdx, hk]; rfl⟩
    · exact ⟨k, by rw [List.getElem?_mapIdx, hk]; rfl⟩

/-- If no resolved constant is in the range, then a completion avoids the range exactly if all that
was filled in does. -/
theorem completion_avoids_iff {fill : Nat → Int} {constants : List (Option Int)} {r : IntervalSet}
    (h : ∀ n ∈ r, some n ∉ constants) :
    (∀ n ∈ r, n ∉ completion fill constants) ↔
      ∀ k, constants[k]? = some none → fill k ∉ r := by
  constructor
  · intro havoids k hk hmem
    exact havoids (fill k) hmem (mem_completion.2 (Or.inr ⟨k, hk, rfl⟩))
  · intro hfill n hn hmem
    rcases mem_completion.1 hmem with hresolved | ⟨k, hk, rfl⟩
    · exact h n hn hresolved
    · exact hfill k hk hn

/-! ## The values behind a verdict -/

section Warning

variable {τ ω π σ : Type}

/-- Values under a key that equals `key` are the resolved ones among the constants. -/
def EnumValues.Resolves (key : Datum) (constants : List (Option Int)) (own : Datum)
    (e : EnumValues σ) : Prop :=
  own.sameKey key = true → Lists e.values fun n => some n ∈ constants

/-- All values that are kept under an equal key are the resolved ones among the constants. -/
def Catalogue.Resolves (cat : Catalogue σ) (key : Datum) (constants : List (Option Int)) : Prop :=
  ∀ entry ∈ cat.entries, EnumValues.Resolves key constants entry.1 entry.2

variable {front : FrontEnd τ ω π σ} {key : Datum} {constants : List (Option Int)}

/-- Fetching any values keeps those under the key the resolved ones. -/
theorem Catalogue.resolves_fetch {cat : Catalogue σ}
    (hconstants : ∀ ref, ref.key.sameKey key = true →
      front.constants ref >>= Datum.items = .ok (constants.map constantDatum))
    (h : cat.Resolves key constants) (ref : EnumRef σ) :
    (cat.fetch front.constants ref).catalogue.Resolves key constants ∧
      ∀ e, (cat.fetch front.constants ref).result = .ok e →
        ∃ own, own.sameKey ref.key = true ∧ EnumValues.Resolves key constants own e := by
  refine fetch_forall (EnumValues.Resolves key constants) h ?_
  intro found hfound hkey
  rw [hconstants ref hkey] at hfound
  cases hfound
  exact EnumValues.values_ofOptions ref constants

namespace Desk

variable {o : Options} {site : Site τ ω} {state : π} {d : Desk σ}

/-- After any visits, the values under the key are the resolved ones. -/
theorem resolves_afterVisits
    (hconstants : ∀ ref, ref.key.sameKey key = true →
      front.constants ref >>= Datum.items = .ok (constants.map constantDatum))
    (h : d.catalogue.Resolves key constants) (o : Options) (visits : List (Site τ ω × π)) :
    (d.afterVisits front o visits).catalogue.Resolves key constants := by
  refine afterVisits_induction (fun d => d.catalogue.Resolves key constants) ?_ visits d h
  intro d site state hd
  rcases catalogue_visit front o site state d with hsame | ⟨ref, -, hfetch⟩
  · rw [hsame]
    exact hd
  · rw [hfetch]
    exact (Catalogue.resolves_fetch hconstants hd ref).1

/-- **What a warning says.**  Visits start with nothing kept, and the enumeration of the cast has
the given constants whenever the front end is asked.  If a visit then warns, no resolved
constant is in the range of the operand; with values for the unresolved constants the warning is
right exactly if none of these is in the range; and it is right for all such values exactly if no
constant is unresolved. -/
theorem visit_warn {start : Desk σ} {visits : List (Site τ ω × π)} {ref : EnumRef σ}
    {r : IntervalSet} (hstart : start.catalogue.entries = [])
    (htarget : front.classify site.target = .ok (.plainEnum ref))
    (hconstants : ∀ other, other.key.sameKey ref.key = true →
      front.constants other >>= Datum.items = .ok (constants.map constantDatum))
    (hrange : front.rangeOf site.operand state = .ok (.ranges r))
    (hwarn : ((start.afterVisits front o visits).visit front o site state).2 = .ok .warn) :
    (∀ n ∈ r, some n ∉ constants) ∧
      (∀ fill, (∀ n ∈ r, n ∉ completion fill constants) ↔
        ∀ k, constants[k]? = some none → fill k ∉ r) ∧
      ((∀ fill, ∀ n ∈ r, n ∉ completion fill constants) ↔ none ∉ constants) := by
  have hempty : start.catalogue.Resolves ref.key constants := by
    simp [Catalogue.Resolves, hstart]
  have hkept := resolves_afterVisits hconstants hempty o visits
  obtain ⟨ref', e, r', htarget', hfetch, hassess, hverdict⟩ := visit_eq_warn hwarn
  rw [htarget] at htarget'
  cases htarget'
  rw [FrontEnd.assess_eq_some_iff, hrange] at hassess
  cases hassess
  obtain ⟨own, hown, hresolves⟩ := (Catalogue.resolves_fetch hconstants hkept ref).2 e hfetch
  have hresolved : ∀ n ∈ r, some n ∉ constants :=
    (hresolves hown).decide_eq_warn_iff.1 hverdict
  refine ⟨hresolved, fun fill => completion_avoids_iff hresolved, ?_⟩
  constructor
  · intro hall hnone
    -- fill in an element of the range
    obtain ⟨k, hk⟩ := List.mem_iff_getElem?.1 hnone
    obtain ⟨n, hn⟩ := r.exists_mem
    exact hall (fun _ => n) n hn (mem_completion.2 (Or.inr ⟨k, hk, rfl⟩))
  · intro hnone fill
    rw [completion_avoids_iff hresolved]
    intro k hk
    exact absurd (List.mem_of_getElem? hk) hnone

end Desk

end Warning

/-! ## An unresolved constant -/

/-- A front end that knows one enumeration and one range. -/
def FrontEnd.single (constants : List (Option Int)) (r : IntervalSet) :
    FrontEnd Unit Unit Unit Unit where
  classify _ := .ok (.plainEnum ⟨.text "E", .text "E", ()⟩)
  constants _ := .ok (.list (constants.map constantDatum))
  rangeOf _ _ := .ok (.ranges r)

/-- The integers from `5` to `9`. -/
def IntervalSet.fiveToNine : IntervalSet := .ofInterval ⟨.limit 5, .limit 9, by decide⟩

namespace Desk

/-- A second visit to a cast from `5` to `9` into an enumeration of `1` and an unresolved constant
warns; the warning is right unless the constant is one of the five. -/
theorem visit_warn_fiveToNine :
    let front := FrontEnd.single [some 1, none] .fiveToNine
    let site : Site Unit Unit := { target := (), operand := () }
    let start : Desk Unit := {}
    ((start.afterVisits front {} [(site, ())]).visit front {} site ()).2 = .ok .warn ∧
      (∀ n ∈ IntervalSet.fiveToNine, some n ∉ [some 1, none]) ∧
      (∀ fill, (∀ n ∈ IntervalSet.fiveToNine, n ∉ completion fill [some 1, none]) ↔
        ∀ k, [some (1 : Int), none][k]? = some none → fill k ∉ IntervalSet.fiveToNine) ∧
      ((∀ fill, ∀ n ∈ IntervalSet.fiveToNine, n ∉ completion fill [some 1, none]) ↔
        none ∉ [some (1 : Int), none]) := by
  intro front site start
  have hwarn : ((start.afterVisits front {} [(site, ())]).visit front {} site ()).2 =
      .ok .warn := by
    cbv
  exact ⟨hwarn, visit_warn rfl rfl (fun _ _ => rfl) rfl hwarn⟩

/-- **A warning can be wrong.**  The unresolved constant may be `7`, which is in the range. -/
theorem warn_of_unresolved :
    let front := FrontEnd.single [some 1, none] .fiveToNine
    (({} : Desk Unit).visit front {} { target := (), operand := () } ()).2 = .ok .warn ∧
      ∃ fill : Nat → Int, ∃ n ∈ IntervalSet.fiveToNine, n ∈ completion fill [some 1, none] := by
  refine ⟨by cbv, fun _ => 7, 7, ?_, ?_⟩
  · rw [← IntervalSet.contains_iff]
    decide
  · decide

end Desk

end DeadCast

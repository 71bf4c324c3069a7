import DeadCast.Fault
import Mathlib.Tactic

/-!
# Going over a list when a step may fault

A list is gone over item by item, and the first fault ends it.  If no step faults, the answers are
those of a plain `map` or `any`; a fault of the whole is a fault of one of the steps.
-/

namespace DeadCast

variable {α β γ : Type}

/-- Steps that all succeed. -/
theorem mapM_eq_ok {f : α → Except Fault β} {g : α → β} {as : List α}
    (h : ∀ a ∈ as, f a = .ok (g a)) : as.mapM f = .ok (as.map g) := by
  induction as with
  | nil => rfl
  | cons a rest ih =>
    rw [List.mapM_cons, h a (List.mem_cons_self ..),
      ih fun b hb => h b (List.mem_cons_of_mem a hb)]
    rfl

theorem mapM_map_eq_ok {g : α → β} {f : β → Except Fault γ} {k : α → γ} {as : List α}
    (h : ∀ a ∈ as, f (g a) = .ok (k a)) : (as.map g).mapM f = .ok (as.map k) := by
  rw [List.mapM_map]
  exact mapM_eq_ok h

/-- If all steps succeed, the first one does, and so do the others. -/
theorem mapM_cons_ok {g : α → Except Fault β} {a : α} {as : List α} {bs : List β}
    (h : (a :: as).mapM g = .ok bs) :
    ∃ b rest, g a = .ok b ∧ as.mapM g = .ok rest ∧ bs = b :: rest := by
  rw [List.mapM_cons] at h
  cases hb : g a with
  | error fault => rw [hb] at h; cases h
  | ok b =>
    cases hrest : as.mapM g with
    | error fault => rw [hb, hrest] at h; cases h
    | ok rest =>
      rw [hb, hrest] at h
      cases h
      exact ⟨b, rest, rfl, rfl, rfl⟩

/-- If all steps succeed, the answers are those of the items. -/
theorem mem_mapM_ok {g : α → Except Fault β} {as : List α} {bs : List β}
    (h : as.mapM g = .ok bs) {b : β} : b ∈ bs ↔ ∃ a ∈ as, g a = .ok b := by
  induction as generalizing bs with
  | nil =>
    cases h
    simp
  | cons a as ih =>
    obtain ⟨first, rest, hfirst, hrest, rfl⟩ := mapM_cons_ok h
    simp only [List.mem_cons, exists_eq_or_imp, hfirst, ih hrest, Except.ok.injEq,
      eq_comm (a := b)]

/-- If all steps succeed, each of them does. -/
theorem exists_ok_of_mapM {g : α → Except Fault β} {as : List α} {bs : List β}
    (h : as.mapM g = .ok bs) : ∀ a ∈ as, ∃ b, g a = .ok b := by
  induction as generalizing bs with
  | nil => simp
  | cons a as ih =>
    obtain ⟨first, rest, hfirst, hrest, rfl⟩ := mapM_cons_ok h
    rw [List.forall_mem_cons]
    exact ⟨⟨first, hfirst⟩, ih hrest⟩

/-- A fault comes from one of the steps. -/
theorem mapM_error {g : α → Except Fault β} {as : List α} {fault : Fault}
    (h : as.mapM g = .error fault) : ∃ a ∈ as, g a = .error fault := by
  induction as with
  | nil => cases h
  | cons a as ih =>
    rw [List.mapM_cons] at h
    cases ha : g a with
    | error f =>
      rw [ha] at h
      cases h
      exact ⟨a, List.mem_cons_self .., ha⟩
    | ok b =>
      cases has : as.mapM g with
      | error f =>
        rw [ha, has] at h
        cases h
        obtain ⟨x, hx, hgx⟩ := ih has
        exact ⟨x, List.mem_cons_of_mem _ hx, hgx⟩
      | ok bs => rw [ha, has] at h; cases h

/-- If there is one fault only that steps can have, it is that of the whole as soon as one step has
it. -/
theorem mapM_eq_error {g : α → Except Fault β} {as : List α} {fault : Fault}
    (honly : ∀ a ∈ as, ∀ other, g a = .error other → other = fault)
    (h : ∃ a ∈ as, g a = .error fault) : as.mapM g = .error fault := by
  obtain ⟨a, ha, hfault⟩ := h
  cases hall : as.mapM g with
  | error other =>
    obtain ⟨b, hb, hother⟩ := mapM_error hall
    rw [honly b hb other hother]
  | ok bs =>
    obtain ⟨b, hok⟩ := exists_ok_of_mapM hall a ha
    rw [hok] at hfault
    cases hfault

/-- Tests that all succeed. -/
theorem anyM_eq_ok {p : α → Except Fault Bool} {q : α → Bool} (h : ∀ a, p a = .ok (q a))
    (as : List α) : as.anyM p = .ok (as.any q) := by
  induction as with
  | nil => rfl
  | cons a rest ih =>
    rw [List.anyM, h, List.any_cons]
    cases q a with
    | true => rfl
    | false => exact ih

end DeadCast

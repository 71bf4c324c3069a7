import DeadCast.Number.Ascending
import Mathlib.Tactic

/-!
# Ascending lists hold the same integers, each once

`ascending` is used wherever a set of integers has to be listed: the values of an enumeration, the
holes of a range, the paths of a cast.  Two facts are all that its users need: it keeps the members
(`mem_ascending`) and puts them in strictly ascending order (`ascending_pairwise`).  `Lists` says
that a list is of that form, for the integers with a given property.
-/

namespace DeadCast

@[simp]
theorem mem_insertAscending {n m : Int} {ns : List Int} :
    m ∈ insertAscending n ns ↔ m = n ∨ m ∈ ns := by
  induction ns with
  | nil => simp [insertAscending]
  | cons k rest ih =>
    unfold insertAscending
    split
    · simp
    · split
      · rename_i h
        subst h
        simp
      · rw [List.mem_cons, ih, List.mem_cons]
        tauto

theorem insertAscending_pairwise {n : Int} {ns : List Int} (h : ns.Pairwise (· < ·)) :
    (insertAscending n ns).Pairwise (· < ·) := by
  induction ns with
  | nil => exact List.pairwise_singleton _ _
  | cons k rest ih =>
    obtain ⟨hk, hrest⟩ := List.pairwise_cons.1 h
    unfold insertAscending
    split
    · rename_i hnk
      refine List.pairwise_cons.2 ⟨?_, h⟩
      intro m hm
      rcases List.mem_cons.1 hm with rfl | hm
      · exact hnk
      · exact hnk.trans (hk m hm)
    · rename_i hnk
      split
      · exact h
      · rename_i hne
        refine List.pairwise_cons.2 ⟨?_, ih hrest⟩
        intro m hm
        rcases mem_insertAscending.1 hm with rfl | hm
        · omega
        · exact hk m hm

/-- Nothing is lost and nothing is added. -/
@[simp]
theorem mem_ascending {m : Int} {ns : List Int} : m ∈ ascending ns ↔ m ∈ ns := by
  induction ns with
  | nil => simp [ascending]
  | cons n rest ih =>
    have hstep : ascending (n :: rest) = insertAscending n (ascending rest) := rfl
    rw [hstep, mem_insertAscending, ih, List.mem_cons]

/-- Each member comes after all smaller ones, and once only. -/
theorem ascending_pairwise (ns : List Int) : (ascending ns).Pairwise (· < ·) := by
  induction ns with
  | nil => exact List.Pairwise.nil
  | cons n rest ih => exact insertAscending_pairwise ih

/-- The list holds exactly the integers with the property, ascending and each once. -/
def Lists (ns : List Int) (P : Int → Prop) : Prop :=
  ns.Pairwise (· < ·) ∧ ∀ n, n ∈ ns ↔ P n

theorem Lists.congr {ns : List Int} {P Q : Int → Prop} (h : Lists ns P) (hPQ : ∀ n, P n ↔ Q n) :
    Lists ns Q :=
  ⟨h.1, fun n => (h.2 n).trans (hPQ n)⟩

theorem lists_ascending (ns : List Int) : Lists (ascending ns) (· ∈ ns) :=
  ⟨ascending_pairwise ns, fun _ => mem_ascending⟩

end DeadCast

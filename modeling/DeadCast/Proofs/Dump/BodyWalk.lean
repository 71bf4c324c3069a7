import DeadCast.Dump.EnumBody
import DeadCast.Proofs.Datum.Equality
import Mathlib.Tactic

/-!
# Walks through an enumeration body

The walk through a body is cut off after a number of steps.  `EnumBody.Reaches` is the same walk
without the limit, for walks that come to an end, and `EnumBody.walkFrom_of_reaches` says that the
limit changes nothing if it allows more steps than the walk has visits.

Tokens that follow each other up to a token that is not among them are all different
(`nodup_of_isChain`), because each token has one successor.  So a walk along them has no more visits
than there are tokens, and the limit is never met (`Configuration.length_le_of_isChain`).

Of the visited tokens only the names have a part in the values (`EnumBody.valuesFrom_filter`).
-/

namespace DeadCast

/-! ## Tokens that follow each other -/

/-- If everything has at most one successor, there is one way from `a` to the first `stop`. -/
theorem eq_of_isChain {α : Type} {R : α → α → Prop} (hR : Relator.RightUnique R)
    {stop : α} {xs ys : List α} (hxstop : stop ∉ xs) (hystop : stop ∉ ys) {a : α}
    (hxs : (a :: (xs ++ [stop])).IsChain R) (hys : (a :: (ys ++ [stop])).IsChain R) : xs = ys := by
  induction xs generalizing a ys with
  | nil =>
    cases ys with
    | nil => rfl
    | cons y ys =>
      obtain rfl : stop = y := hR (List.isChain_cons_cons.1 hxs).1 (List.isChain_cons_cons.1 hys).1
      exact absurd (List.mem_cons_self ..) hystop
  | cons x xs ih =>
    obtain ⟨hax, hxs⟩ := List.isChain_cons_cons.1 hxs
    cases ys with
    | nil =>
      obtain rfl : x = stop := hR hax (List.isChain_cons_cons.1 hys).1
      exact absurd (List.mem_cons_self ..) hxstop
    | cons y ys =>
      obtain ⟨hay, hys⟩ := List.isChain_cons_cons.1 hys
      obtain rfl : x = y := hR hax hay
      rw [ih (List.not_mem_of_not_mem_cons hxstop) (List.not_mem_of_not_mem_cons hystop) hxs hys]

/-- So nothing is met twice on the way. -/
theorem nodup_of_isChain {α : Type} {R : α → α → Prop} (hR : Relator.RightUnique R)
    {stop : α} {xs : List α} (hstop : stop ∉ xs) (hxs : (xs ++ [stop]).IsChain R) : xs.Nodup := by
  induction xs with
  | nil => exact List.nodup_nil
  | cons x xs ih =>
    have hrest := List.not_mem_of_not_mem_cons hstop
    refine List.nodup_cons.2 ⟨fun hx => ?_, ih hrest (List.isChain_cons.1 hxs).2⟩
    -- from the second `x` on the way to `stop` would be shorter
    obtain ⟨front, back, rfl⟩ := List.append_of_mem hx
    have hback : (x :: (back ++ [stop])).IsChain R := by
      rw [← List.cons_append, List.append_assoc] at hxs
      exact hxs.right_of_append
    have hstopback : stop ∉ back := fun h => hrest (by simp [h])
    have hsame := eq_of_isChain hR hrest hstopback hxs hback
    have hlength := congrArg List.length hsame
    simp at hlength
    omega

namespace Configuration

/-- The token at position `k` comes next after that at position `j`. -/
def Follows (c : Configuration) (j k : Nat) : Prop := ∃ t, c.token? j = some t ∧ t.next = some k

/-- The token at position `k` is written `s`. -/
def Reads (c : Configuration) (k : Nat) (s : String) : Prop :=
  ∃ t, c.token? k = some t ∧ t.text = .text s

/-- The token at position `k` is a name. -/
def IsName (c : Configuration) (k : Nat) : Prop :=
  ∃ t, c.token? k = some t ∧ (t.isName.getD (.bool false)).isTrue = true

variable {c : Configuration}

theorem follows_rightUnique (c : Configuration) : Relator.RightUnique c.Follows := by
  intro j k l hk hl
  obtain ⟨t, ht, hk⟩ := hk
  obtain ⟨u, hu, hl⟩ := hl
  obtain rfl : t = u := Option.some.inj (ht.symm.trans hu)
  exact Option.some.inj (hk.symm.trans hl)

theorem Follows.next_eq {j k : Nat} (h : c.Follows j k) {t : Token} (ht : c.token? j = some t) :
    t.next = some k := by
  obtain ⟨u, hu, hk⟩ := h
  rwa [Option.some.inj (ht.symm.trans hu)]

theorem Follows.lt_size {j k : Nat} (h : c.Follows j k) : j < c.tokens.size := by
  obtain ⟨t, ht, -⟩ := h
  exact (Array.getElem?_eq_some_iff.1 ht).1

/-- What comes next on the way to `q`. -/
theorem exists_next {j q : Nat} {ps : List Nat} (h : (j :: (ps ++ [q])).IsChain c.Follows) :
    ∃ k, (ps ++ [q]).head? = some k ∧ c.Follows j k ∧ (ps ++ [q]).IsChain c.Follows := by
  obtain ⟨hnext, hrest⟩ := List.isChain_cons.1 h
  cases ps with
  | nil => exact ⟨q, rfl, hnext q rfl, hrest⟩
  | cons k ps => exact ⟨k, rfl, hnext k rfl, hrest⟩

/-- Different tokens are not more than there are. -/
theorem length_le_of_nodup {ps : List Nat} (hnodup : ps.Nodup)
    (htokens : ∀ k ∈ ps, k < c.tokens.size) : ps.length ≤ c.tokens.size := by
  have hrange : ∀ k ∈ ps, k ∈ List.range c.tokens.size :=
    fun k hk => List.mem_range.2 (htokens k hk)
  have hle := (List.subperm_of_subset hnodup hrange).length_le
  rwa [List.length_range] at hle

/-- Tokens that follow each other up to one that is not among them are not more than there are. -/
theorem length_le_of_isChain {ps : List Nat} {stop : Nat} (hchain : (ps ++ [stop]).IsChain c.Follows)
    (hstop : stop ∉ ps) : ps.length ≤ c.tokens.size := by
  apply length_le_of_nodup (nodup_of_isChain c.follows_rightUnique hstop hchain)
  intro k hk
  obtain ⟨front, back, rfl⟩ := List.append_of_mem hk
  rw [List.append_assoc, List.cons_append] at hchain
  have hback := hchain.right_of_append
  cases back with
  | nil => exact (List.isChain_cons_cons.1 hback).1.lt_size
  | cons l back => exact (List.isChain_cons_cons.1 hback).1.lt_size

end Configuration

/-! ## The walk without a limit -/

namespace EnumBody

variable {c : Configuration} {stop : Nat}

/-- The walk from a position comes to an end, and visits these tokens.  It ends at the end of the body,
where there is no token, or behind a token without a next one. -/
inductive Reaches (c : Configuration) (stop : Nat) : Bool → Nat → List Visit → Prop
  | here {expecting : Bool} : Reaches c stop expecting stop []
  | lost {expecting : Bool} {position : Nat} (hne : position ≠ stop)
    (ht : c.token? position = none) : Reaches c stop expecting position []
  | last {expecting : Bool} {position : Nat} {t : Token} {role : Role} (hne : position ≠ stop)
    (ht : c.token? position = some t) (hrole : roleOf expecting t = role)
    (hnext : positionAfter c t role = none) : Reaches c stop expecting position [⟨position, role⟩]
  | step {expecting : Bool} {position next : Nat} {t : Token} {role : Role} {visits : List Visit}
    (hne : position ≠ stop) (ht : c.token? position = some t) (hrole : roleOf expecting t = role)
    (hnext : positionAfter c t role = some next)
    (hrest : Reaches c stop (expectingAfter expecting role) next visits) :
    Reaches c stop expecting position (⟨position, role⟩ :: visits)

/-- A limit that allows more than all visits changes nothing. -/
theorem walkFrom_of_reaches {expecting : Bool} {position : Nat} {visits : List Visit}
    (h : Reaches c stop expecting position visits) {steps : Nat} (hsteps : visits.length < steps) :
    walkFrom c stop steps expecting (some position) = ⟨visits, true⟩ := by
  obtain ⟨steps, rfl⟩ : ∃ k, steps = k + 1 := ⟨steps - 1, by omega⟩
  induction h generalizing steps with
  | here => simp [walkFrom]
  | lost hne ht => simp [walkFrom, hne, ht]
  | last hne ht hrole hnext =>
    cases steps with
    | zero => simp at hsteps
    | succ steps => simp [walkFrom, hne, ht, hrole, hnext]
  | step hne ht hrole hnext hrest ih =>
    cases steps with
    | zero => simp at hsteps
    | succ steps =>
      have hwalk := ih steps (Nat.lt_of_succ_lt_succ hsteps)
      simp only [walkFrom, hne, ht, hrole, hnext, if_false] at hwalk ⊢
      rw [hwalk]

/-! ## Parts of tokens -/

theorem roleOf_name {t : Token} (h : (t.isName.getD (.bool false)).isTrue = true) :
    roleOf true t = .name := by
  simp [roleOf, h]

theorem roleOf_bracket {t : Token} {link : Nat} (hopen : opens t.text = true)
    (hlink : t.link = some link) : roleOf false t = .bracket link := by
  simp [roleOf, hopen, hlink]

theorem roleOf_comma {expecting : Bool} {t : Token}
    (hname : expecting = true → (t.isName.getD (.bool false)).isTrue = false)
    (htext : t.text = .text ",") : roleOf expecting t = .comma := by
  have hopen : opens (.text ",") = false := by simp [opens, Datum.isText, Datum.same]
  cases expecting with
  | false => simp [roleOf, htext, hopen]
  | true => simp [roleOf, hname rfl, htext, hopen]

theorem roleOf_other {t : Token} (hopen : opens t.text = false) (hcomma : t.text ≠ .text ",") :
    roleOf false t = .other := by
  simp [roleOf, hopen, hcomma]

/-! ## Values -/

/-- Tokens that are no names have no part in the values. -/
theorem valuesFrom_filter (c : Configuration) (previous : Option Int) (visits : List Visit) :
    valuesFrom c previous visits =
      valuesFrom c previous (visits.filter fun v => v.role = .name) := by
  induction visits generalizing previous with
  | nil => rfl
  | cons v rest ih =>
    obtain ⟨position, role⟩ := v
    by_cases hrole : role = .name
    · subst hrole
      rw [List.filter_cons_of_pos (by simp), valuesFrom, valuesFrom]
      cases c.token? position with
      | none => exact ih previous
      | some t => simp only [ih]
    · rw [List.filter_cons_of_neg (by simpa using hrole), ← ih]
      cases role with
      | name => exact absurd rfl hrole
      | bracket link => rfl
      | comma => rfl
      | other => rfl

end EnumBody

end DeadCast

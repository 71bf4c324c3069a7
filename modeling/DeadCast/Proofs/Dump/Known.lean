import DeadCast.Dump.Known
import DeadCast.Proofs.Datum.Equality
import Mathlib.Tactic

/-!
# What is known of a token

What cannot be converted is forgiven, except for infinities.  So a fact has an integer, or none, or
is refused because its value is infinite (`Fact.integer_eq_ok_some_iff`,
`Fact.integer_eq_ok_none_iff`, `Fact.integer_eq_error_iff`).

The known integer of a token comes from the first of three places that has one: the answer of the
token, its known facts, and its text.  `Token.Knows` says so rule by rule, `Token.Refuses` says when
the search ends in a fault, and the search finds just that (`Token.knownInteger_eq_ok_iff`,
`Token.knownInteger_eq_error_iff`).
-/

namespace DeadCast

/-! ## What is forgiven -/

namespace Datum

/-- The value is an infinite number. -/
def IsInfinite (d : Datum) : Prop := ∃ negative, d = .real (.infinite negative)

/-- The value has no integer. -/
def Inconvertible (d : Datum) : Prop := ∀ n, d.toInteger ≠ .ok n

/-- Nothing but an infinity is refused as an infinity. -/
theorem toInteger_infinite_iff {d : Datum} :
    d.toInteger = .error .infiniteInteger ↔ d.IsInfinite := by
  cases d with
  | real x => cases x <;> simp [toInteger, truncate, IsInfinite]
  | text s =>
    simp only [toInteger, IsInfinite]
    cases Text.decimalNumeral s with
    | ok n => simp
    | error e => cases e <;> simp
  | _ => simp [toInteger, IsInfinite]

end Datum

section Forgiving

variable {α : Type} {fallback : α} {x : Except Fault α}

theorem forgiving_error {f : Fault} (h : forgiving fallback x = .error f) :
    f = .infiniteInteger := by
  unfold forgiving at h
  split at h <;> cases h
  rfl

theorem forgiving_eq_error_iff {fault : Fault} :
    forgiving fallback x = .error fault ↔
      fault = .infiniteInteger ∧ x = .error .infiniteInteger := by
  constructor
  · intro h
    obtain rfl := forgiving_error h
    unfold forgiving at h
    split at h
    · cases h
    · exact ⟨rfl, rfl⟩
    · cases h
  · rintro ⟨rfl, rfl⟩
    rfl

theorem forgiving_eq_ok_iff {a : α} : forgiving fallback x = .ok a ↔
    x = .ok a ∨ (a = fallback ∧ (∀ b, x ≠ .ok b) ∧ x ≠ .error .infiniteInteger) := by
  unfold forgiving
  split
  · simp
  · simp
  · rename_i fault hfault
    have hne : fault ≠ .infiniteInteger := fun heq => hfault (heq ▸ rfl)
    simp [hne, eq_comm]

end Forgiving

/-! ## The integer of a fact -/

namespace Fact

/-- The fact is of the kind `known`. -/
def IsKnown (f : Fact) : Prop := f.kind = some (.text "known")

/-- The value is an infinite number. -/
def HasInfiniteValue (f : Fact) : Prop := ∃ d, f.value = some d ∧ d.IsInfinite

/-- The value is missing, a truth value, or cannot be converted. -/
def HasNoInteger (f : Fact) : Prop :=
  ∀ d, f.value = some d → (∃ b, d = .bool b) ∨ d.Inconvertible

/-- The value is converted to `n`, and is no truth value. -/
def HasInteger (f : Fact) (n : Int) : Prop :=
  ∃ d, f.value = some d ∧ (¬ ∃ b, d = .bool b) ∧ d.toInteger = .ok n

variable {f : Fact}

theorem kindOf_isText_iff {s : String} (hs : s ≠ "") :
    f.kindOf.isText s = true ↔ f.kind = some (.text s) := by
  rw [Datum.isText_iff, kindOf]
  cases f.kind with
  | none => simpa using hs.symm
  | some d => simp

theorem integer_of_value {d : Datum} (h : f.value = some d) (hbool : ∀ b, d ≠ .bool b) :
    f.integer = forgiving none (d.toInteger.map some) := by
  unfold integer
  rw [h]
  cases d with
  | bool b => exact absurd rfl (hbool b)
  | _ => rfl

theorem integer_eq_error_iff {fault : Fault} :
    f.integer = .error fault ↔ fault = .infiniteInteger ∧ f.HasInfiniteValue := by
  cases hvalue : f.value with
  | none => simp [integer, hvalue, HasInfiniteValue]
  | some d =>
    by_cases hbool : ∃ b, d = .bool b
    · obtain ⟨b, rfl⟩ := hbool
      simp [integer, hvalue, HasInfiniteValue, Datum.IsInfinite]
    · have hmap : d.toInteger.map some = .error .infiniteInteger ↔ d.IsInfinite := by
        rw [← Datum.toInteger_infinite_iff]
        cases d.toInteger <;> simp [Except.map]
      rw [integer_of_value hvalue (fun b hb => hbool ⟨b, hb⟩), forgiving_eq_error_iff, hmap]
      simp [HasInfiniteValue, hvalue]

theorem integer_eq_ok_some_iff {n : Int} : f.integer = .ok (some n) ↔ f.HasInteger n := by
  cases hvalue : f.value with
  | none => simp [integer, hvalue, HasInteger]
  | some d =>
    by_cases hbool : ∃ b, d = .bool b
    · obtain ⟨b, rfl⟩ := hbool
      simp [integer, hvalue, HasInteger]
    · have hmap : d.toInteger.map some = .ok (some n) ↔ d.toInteger = .ok n := by
        cases d.toInteger <;> simp [Except.map]
      rw [integer_of_value hvalue (fun b hb => hbool ⟨b, hb⟩), forgiving_eq_ok_iff, hmap]
      simp only [HasInteger, hvalue, hbool, Option.some.injEq, exists_eq_left', not_false_eq_true,
        true_and, reduceCtorEq, false_and, or_false]

theorem integer_eq_ok_none_iff :
    f.integer = .ok none ↔ f.HasNoInteger ∧ ¬ f.HasInfiniteValue := by
  cases hvalue : f.value with
  | none => simp [integer, hvalue, HasNoInteger, HasInfiniteValue]
  | some d =>
    by_cases hbool : ∃ b, d = .bool b
    · obtain ⟨b, rfl⟩ := hbool
      simp [integer, hvalue, HasNoInteger, HasInfiniteValue, Datum.IsInfinite]
    · have hmap : (∀ b, d.toInteger.map some ≠ .ok b) ↔ d.Inconvertible := by
        unfold Datum.Inconvertible
        cases d.toInteger <;> simp [Except.map]
      have hinfinite : d.toInteger.map some ≠ .error .infiniteInteger ↔ ¬ d.IsInfinite := by
        rw [← Datum.toInteger_infinite_iff]
        cases d.toInteger <;> simp [Except.map]
      have hnone : d.toInteger.map some ≠ .ok none := by
        cases d.toInteger <;> simp [Except.map]
      rw [integer_of_value hvalue (fun b hb => hbool ⟨b, hb⟩), forgiving_eq_ok_iff, hmap, hinfinite]
      simp only [HasNoInteger, HasInfiniteValue, hvalue, hbool, hnone, Option.some.injEq, forall_eq',
        exists_eq_left', false_or, true_and]

theorem integer_of_hasNoInteger (h : f.HasNoInteger) (hfinite : ¬ f.HasInfiniteValue) :
    f.integer = .ok none :=
  integer_eq_ok_none_iff.2 ⟨h, hfinite⟩

/-- The fact is passed over in the search for a known integer: it is not known, or it has no
integer. -/
def IsPassed (f : Fact) : Prop := f.IsKnown → f.HasNoInteger ∧ ¬ f.HasInfiniteValue

end Fact

/-! ## The first known fact -/

section FirstKnown

variable {f : Fact} {facts : List Fact}

theorem firstKnown_cons_of_isPassed (h : f.IsPassed) :
    firstKnown (f :: facts) = firstKnown facts := by
  rw [firstKnown]
  split
  · rename_i hkind
    have hno := h ((Fact.kindOf_isText_iff (by decide)).1 hkind)
    rw [Fact.integer_eq_ok_none_iff.2 hno]
    rfl
  · rfl

theorem firstKnown_cons_of_isKnown (h : f.IsKnown) (hne : f.integer ≠ .ok none) :
    firstKnown (f :: facts) = f.integer := by
  rw [firstKnown, if_pos ((Fact.kindOf_isText_iff (by decide)).2 h)]
  cases hinteger : f.integer with
  | error fault => rfl
  | ok value =>
    cases value with
    | none => exact absurd hinteger hne
    | some n => rfl

theorem firstKnown_append_of_isPassed {before : List Fact} (h : ∀ g ∈ before, g.IsPassed) :
    firstKnown (before ++ facts) = firstKnown facts := by
  induction before with
  | nil => rfl
  | cons g rest ih =>
    obtain ⟨hg, hrest⟩ := List.forall_mem_cons.1 h
    exact (firstKnown_cons_of_isPassed hg).trans (ih hrest)

/-- Either all facts are passed over, or there is a first one that is not. -/
theorem isPassed_or_exists_first (facts : List Fact) :
    (∀ g ∈ facts, g.IsPassed) ∨ ∃ before f after, facts = before ++ f :: after ∧
      (∀ g ∈ before, g.IsPassed) ∧ f.IsKnown ∧ f.integer ≠ .ok none := by
  induction facts with
  | nil => exact Or.inl (by simp)
  | cons f facts ih =>
    by_cases hpassed : f.IsPassed
    · rcases ih with hall | ⟨before, g, after, rfl, hbefore, hfirst⟩
      · exact Or.inl (List.forall_mem_cons.2 ⟨hpassed, hall⟩)
      · exact Or.inr ⟨f :: before, g, after, rfl, List.forall_mem_cons.2 ⟨hpassed, hbefore⟩, hfirst⟩
    · obtain ⟨hknown, hno⟩ := Classical.not_imp.1 hpassed
      exact Or.inr ⟨[], f, facts, rfl, by simp, hknown, mt Fact.integer_eq_ok_none_iff.1 hno⟩

end FirstKnown

/-! ## The known integer of a token -/

namespace Token

/-- The token does not answer with an integer. -/
def IsMute (t : Token) : Prop := ∀ n, t.knownValue ≠ some (.int n)

/-- What integer the token is known to be, or that none is known. -/
inductive Knows (t : Token) : Option Int → Prop
  /-- What the token answers counts first. -/
  | answer {n : Int} (hanswer : t.knownValue = some (.int n)) : Knows t (some n)
  /-- Else the first known fact that has an integer. -/
  | fact {before after : List Fact} {f : Fact} {n : Int} (hmute : t.IsMute)
    (hfacts : t.facts = before ++ f :: after) (hbefore : ∀ g ∈ before, g.IsPassed)
    (hknown : f.IsKnown) (hn : f.HasInteger n) : Knows t (some n)
  /-- Else what is written, if that is a number. -/
  | literal {s : String} (hmute : t.IsMute) (hpassed : ∀ g ∈ t.facts, g.IsPassed)
    (hnumber : t.isNumber = some (.bool true)) (htext : t.text = .text s) :
    Knows t (Literal.value? s)
  | unknown (hmute : t.IsMute) (hpassed : ∀ g ∈ t.facts, g.IsPassed)
    (hnumber : t.isNumber ≠ some (.bool true)) : Knows t none

/-- The fault of a token that is asked for its known integer. -/
inductive Refuses (t : Token) : Fault → Prop
  /-- A known fact is infinite, and no fact before it has an integer. -/
  | infinite {before after : List Fact} {f : Fact} (hmute : t.IsMute)
    (hfacts : t.facts = before ++ f :: after) (hbefore : ∀ g ∈ before, g.IsPassed)
    (hknown : f.IsKnown) (hinfinite : f.HasInfiniteValue) : Refuses t .infiniteInteger
  /-- A number is written with something else than a text. -/
  | textless (hmute : t.IsMute) (hpassed : ∀ g ∈ t.facts, g.IsPassed)
    (hnumber : t.isNumber = some (.bool true)) (htext : ∀ s, t.text ≠ .text s) :
    Refuses t (.noAttribute t.text.kind "rstrip")

theorem isSet_iff {d : Option Datum} : isSet d = true ↔ d = some (.bool true) := by
  unfold isSet
  split
  · simp
  · rename_i hbool
    simp only [Bool.false_eq_true, false_iff]
    exact hbool true

variable {t : Token}

theorem knownInteger_of_isMute (h : t.IsMute) : t.knownInteger = (do
    match ← firstKnown t.facts with
    | some n => return some n
    | none => if isSet t.isNumber then t.literalValue else return none) := by
  unfold knownInteger
  split
  · rename_i n hanswer
    exact absurd hanswer (h n)
  · rfl

/-- The first known fact that is not passed over decides. -/
theorem knownInteger_of_fact {before after : List Fact} {f : Fact} (hmute : t.IsMute)
    (hfacts : t.facts = before ++ f :: after) (hbefore : ∀ g ∈ before, g.IsPassed)
    (hknown : f.IsKnown) (hne : f.integer ≠ .ok none) : t.knownInteger = f.integer := by
  rw [knownInteger_of_isMute hmute, hfacts, firstKnown_append_of_isPassed hbefore,
    firstKnown_cons_of_isKnown hknown hne]
  cases hinteger : f.integer with
  | error fault => rfl
  | ok value =>
    cases value with
    | none => exact absurd hinteger hne
    | some n => rfl

/-- If all facts are passed over, a number is what is written. -/
theorem knownInteger_of_isPassed (hmute : t.IsMute) (hpassed : ∀ g ∈ t.facts, g.IsPassed) :
    t.knownInteger = if isSet t.isNumber then t.literalValue else .ok none := by
  have hnone : firstKnown t.facts = .ok none := by
    have happend : firstKnown (t.facts ++ []) = firstKnown [] :=
      firstKnown_append_of_isPassed hpassed
    rwa [List.append_nil] at happend
  rw [knownInteger_of_isMute hmute, hnone]
  rfl

/-- A token is known to be something, or refuses. -/
theorem knows_or_refuses (t : Token) : (∃ v, t.Knows v) ∨ ∃ f, t.Refuses f := by
  by_cases hmute : t.IsMute
  · rcases isPassed_or_exists_first t.facts with hpassed |
      ⟨before, f, after, hfacts, hbefore, hknown, hne⟩
    · by_cases hnumber : t.isNumber = some (.bool true)
      · by_cases htext : ∃ s, t.text = .text s
        · obtain ⟨s, hs⟩ := htext
          exact Or.inl ⟨_, .literal hmute hpassed hnumber hs⟩
        · exact Or.inr ⟨_, .textless hmute hpassed hnumber (not_exists.1 htext)⟩
      · exact Or.inl ⟨_, .unknown hmute hpassed hnumber⟩
    · cases hinteger : f.integer with
      | error fault =>
        obtain ⟨-, hinfinite⟩ := Fact.integer_eq_error_iff.1 hinteger
        exact Or.inr ⟨_, .infinite hmute hfacts hbefore hknown hinfinite⟩
      | ok value =>
        cases value with
        | none => exact absurd hinteger hne
        | some n =>
          exact Or.inl ⟨_, .fact hmute hfacts hbefore hknown (Fact.integer_eq_ok_some_iff.1 hinteger)⟩
  · obtain ⟨n, hanswer⟩ := not_forall_not.1 hmute
    exact Or.inl ⟨_, .answer hanswer⟩

theorem Knows.knownInteger_eq {v : Option Int} (h : t.Knows v) : t.knownInteger = .ok v := by
  cases h with
  | answer hanswer => simp only [knownInteger, hanswer]
  | fact hmute hfacts hbefore hknown hn =>
    have hinteger := Fact.integer_eq_ok_some_iff.2 hn
    rw [knownInteger_of_fact hmute hfacts hbefore hknown (by simp [hinteger]), hinteger]
  | literal hmute hpassed hnumber htext =>
    rw [knownInteger_of_isPassed hmute hpassed, if_pos (isSet_iff.2 hnumber), literalValue, htext]
  | unknown hmute hpassed hnumber =>
    rw [knownInteger_of_isPassed hmute hpassed, if_neg (mt isSet_iff.1 hnumber)]

theorem Refuses.knownInteger_eq {fault : Fault} (h : t.Refuses fault) :
    t.knownInteger = .error fault := by
  cases h with
  | infinite hmute hfacts hbefore hknown hinfinite =>
    have hinteger := Fact.integer_eq_error_iff.2 ⟨rfl, hinfinite⟩
    rw [knownInteger_of_fact hmute hfacts hbefore hknown (by simp [hinteger]), hinteger]
  | textless hmute hpassed hnumber htext =>
    rw [knownInteger_of_isPassed hmute hpassed, if_pos (isSet_iff.2 hnumber), literalValue]
    split
    · rename_i s hs
      exact absurd hs (htext s)
    · rfl

/-- **The known integer** is what the rules say. -/
theorem knownInteger_eq_ok_iff {v : Option Int} : t.knownInteger = .ok v ↔ t.Knows v := by
  refine ⟨fun h => ?_, Knows.knownInteger_eq⟩
  rcases t.knows_or_refuses with ⟨w, hknows⟩ | ⟨f, hrefuses⟩
  · obtain rfl : w = v := Except.ok.inj (hknows.knownInteger_eq.symm.trans h)
    exact hknows
  · cases hrefuses.knownInteger_eq.symm.trans h

/-- **A fault** comes of an infinity or of a number without a text. -/
theorem knownInteger_eq_error_iff {fault : Fault} :
    t.knownInteger = .error fault ↔ t.Refuses fault := by
  refine ⟨fun h => ?_, Refuses.knownInteger_eq⟩
  rcases t.knows_or_refuses with ⟨v, hknows⟩ | ⟨f, hrefuses⟩
  · cases hknows.knownInteger_eq.symm.trans h
  · obtain rfl : f = fault := Except.error.inj (hrefuses.knownInteger_eq.symm.trans h)
    exact hrefuses

end Token

end DeadCast

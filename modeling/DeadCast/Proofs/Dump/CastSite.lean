import DeadCast.Dump.CastSite
import DeadCast.Proofs.Audit.Visit
import DeadCast.Proofs.Dump.OperandRange
import DeadCast.Proofs.Verdict
import Mathlib.Tactic

/-!
# Casts of a configuration

A cast on a path is *dead* if it casts to an enumeration, its operand is an integer, the facts about
the operand leave some integer possible on the path, and no integer that they leave possible is the
value of an enumerator (`CastSite.IsDead`).  Nothing in this definition is computed by the checker.

This file relates it to what the front end answers about one cast:

* `Configuration.sitesFrom_inTokenOrder`: the casts are listed in the order of the tokens, and those
  of one token by ascending path;
* `CastSite.classify_iff`: when the target is taken for an enumeration, and for which;
* `CastSite.assess_some` and `CastSite.assess_of_possible`: the answer about the operand is the set
  of the integers that its facts leave possible.
-/

namespace DeadCast

/-! ## The order of casts -/

namespace Configuration

/-- Casts listed token by token: those of one token stand together, carry its location, and have
strictly ascending paths. -/
inductive InTokenOrder (c : Configuration) : List Nat → List CastSite → Prop
  | nil : InTokenOrder c [] []
  | cons {position : Nat} {rest : List Nat} {sites more : List CastSite}
    (hsites : ∀ s ∈ sites, s.configuration = c ∧ s.position = position ∧
      ∃ t, c.token? position = some t ∧ s.location = t.location)
    (hpaths : (sites.map CastSite.path).Pairwise (· < ·))
    (hmore : InTokenOrder c rest more) :
    InTokenOrder c (position :: rest) (sites ++ more)

theorem InTokenOrder.configuration_eq {c : Configuration} {listed : List Nat}
    {sites : List CastSite} (h : c.InTokenOrder listed sites) :
    ∀ s ∈ sites, s.configuration = c := by
  induction h with
  | nil =>
    intro s hs
    cases hs
  | cons hsites _ _ ih =>
    intro s hs
    rcases List.mem_append.1 hs with hs | hs
    · exact (hsites s hs).1
    · exact ih s hs

end Configuration

theorem pathIds_pairwise {facts : List Fact} {paths : List Int} (h : pathIds facts = .ok paths) :
    paths.Pairwise (· < ·) := by
  unfold pathIds at h
  cases hids : facts.mapM Fact.pathId with
  | error f => rw [hids] at h; cases h
  | ok ids =>
    rw [hids] at h
    cases h
    split
    · exact List.pairwise_singleton _ _
    · exact ascending_pairwise _

namespace Configuration

/-- The casts of one token. -/
theorem sitesAt_spec {c : Configuration} {kinds : Datum} {position : Nat} {sites : List CastSite}
    (h : c.sitesAt kinds position = .ok sites) :
    (∀ s ∈ sites, s.configuration = c ∧ s.position = position ∧
      ∃ t, c.token? position = some t ∧ s.location = t.location) ∧
    (sites.map CastSite.path).Pairwise (· < ·) := by
  unfold sitesAt at h
  split at h
  · cases h
    simp
  · rename_i t ht
    cases hoperand : c.castOperand kinds t with
    | error f => rw [hoperand] at h; cases h
    | ok operand =>
      rw [hoperand] at h
      cases operand with
      | none =>
        cases h
        simp
      | some k =>
        cases hpaths : pathIds (((c.token? k).map Token.facts).getD []) with
        | error f =>
          simp only [bind, Except.bind, hpaths] at h
          cases h
        | ok paths =>
          simp only [bind, Except.bind, hpaths, pure, Except.pure] at h
          cases h
          refine ⟨?_, ?_⟩
          · intro s hs
            obtain ⟨path, -, rfl⟩ := List.mem_map.1 hs
            exact ⟨rfl, rfl, t, ht, rfl⟩
          · simpa [Function.comp_def] using pathIds_pairwise hpaths

/-- The casts that are listed without a fault stand in the order of their tokens. -/
theorem sitesFrom_inTokenOrder {c : Configuration} {kinds : Datum} :
    ∀ {listed : List Nat} {sites : List CastSite},
      c.sitesFrom kinds listed = (sites, .ok ()) → c.InTokenOrder listed sites := by
  intro listed
  induction listed with
  | nil =>
    intro sites h
    cases h
    exact .nil
  | cons position rest ih =>
    intro sites h
    unfold sitesFrom at h
    cases hat : c.sitesAt kinds position with
    | error f => rw [hat] at h; cases h
    | ok here =>
      cases hfrom : c.sitesFrom kinds rest with
      | mk more result =>
        simp only [hat, hfrom, Prod.mk.injEq] at h
        obtain ⟨rfl, rfl⟩ := h
        obtain ⟨hsites, hpaths⟩ := sitesAt_spec hat
        exact .cons hsites hpaths (ih hfrom)

end Configuration

/-! ## Dead casts -/

/-- The token has an integer value and is no pointer. -/
def Token.IsIntegral (t : Token) : Prop :=
  ∃ v, t.valueType = some v ∧ (v.pointer.getD (.int 0)).isTrue = false ∧
    ∃ type ∈ integralTypes, v.type = some type

/-- Some enumerator that the scope declares has the value `n`. -/
def Scope.Declares (c : Configuration) (scope : Scope) (n : Int) : Prop :=
  ∃ values, scope.constants c = .ok values ∧ some n ∈ values

/-- The scope declares an enumeration. -/
def Scope.IsEnum (scope : Scope) : Prop := scope.type = some (.text "Enum")

namespace CastSite

/-- The cast is to the enumeration that the scope at position `k` declares, and to no pointer. -/
def CastsTo (s : CastSite) (k : Nat) (scope : Scope) : Prop :=
  ∃ t v, s.configuration.token? s.position = some t ∧ t.valueType = some v ∧
    (v.pointer.getD (.int 0)).isTrue = false ∧ v.scope = some k ∧
    s.configuration.scopes[k]? = some scope ∧ scope.IsEnum

/-- The operand has some integer on the path, and none that names an enumerator. -/
def IsDead (s : CastSite) : Prop :=
  ∃ k scope operand, s.CastsTo k scope ∧
    s.configuration.token? s.operand = some operand ∧ operand.IsIntegral ∧
    (∃ n, Fact.Possible operand.facts s.path n) ∧
    ∀ n, Fact.Possible operand.facts s.path n → ¬ scope.Declares s.configuration n

theorem CastsTo.unique {s : CastSite} {j k : Nat} {scope other : Scope} (h : s.CastsTo j scope)
    (h' : s.CastsTo k other) : j = k ∧ scope = other := by
  obtain ⟨t, v, ht, hv, -, hj, hscope, -⟩ := h
  obtain ⟨t', v', ht', hv', -, hk, hother, -⟩ := h'
  obtain rfl : t = t' := Option.some.inj (ht.symm.trans ht')
  obtain rfl : v = v' := Option.some.inj (hv.symm.trans hv')
  obtain rfl : j = k := Option.some.inj (hj.symm.trans hk)
  exact ⟨rfl, Option.some.inj (hscope.symm.trans hother)⟩

/-! ## The target -/

theorem isText_enum_iff {scope : Scope} :
    (scope.type.getD (.text "")).isText "Enum" = true ↔ scope.IsEnum := by
  rw [Datum.isText_iff, Scope.IsEnum]
  cases scope.type with
  | none => simp
  | some d => simp

/-- **When a target is taken for an enumeration.** -/
theorem classify_iff {s : CastSite} {realm : Datum} {ref : EnumRef DumpScope} :
    s.target.classify realm = .plainEnum ref ↔
      ∃ k scope, s.CastsTo k scope ∧
        ref = DumpType.enumRef s.configuration realm k scope := by
  constructor
  · intro h
    unfold DumpType.classify at h
    split at h
    · cases h
    · rename_i v hv
      split at h
      · cases h
      · rename_i hpointer
        split at h
        · cases h
        · rename_i k scope hfind
          split at h
          · rename_i henum
            obtain ⟨t, ht, htv⟩ := Option.bind_eq_some_iff.1 hv
            obtain ⟨j, hj, hscope⟩ := Option.bind_eq_some_iff.1 hfind
            obtain ⟨scope', hscope', heq⟩ := Option.map_eq_some_iff.1 hscope
            obtain ⟨rfl, rfl⟩ := Prod.mk.inj heq
            cases h
            exact ⟨j, scope', ⟨t, v, ht, htv, by simpa using hpointer, hj, hscope',
              isText_enum_iff.1 henum⟩, rfl⟩
          · cases h
  · rintro ⟨k, scope, ⟨t, v, ht, hv, hpointer, hk, hscope, henum⟩, rfl⟩
    have htype : s.target.valueType = some v := by simp [target, ht, hv]
    have hfind : (v.scope.bind fun k => (s.target.configuration.scopes[k]?).map fun s => (k, s)) =
        some (k, scope) := by
      simp [target, hk, hscope]
    unfold DumpType.classify
    rw [htype]
    simp only [hpointer, hfind, isText_enum_iff.2 henum]
    rfl

/-- What is an enumeration in one realm is the same enumeration in any other. -/
theorem classify_plainEnum {s : CastSite} {realm : Datum} {ref : EnumRef DumpScope}
    (h : s.target.classify realm = .plainEnum ref) (other : Datum) :
    ∃ k scope, ref = DumpType.enumRef s.configuration realm k scope ∧
      s.target.classify other =
        .plainEnum (DumpType.enumRef s.configuration other k scope) := by
  obtain ⟨k, scope, hcast, href⟩ := classify_iff.1 h
  exact ⟨k, scope, href, classify_iff.2 ⟨k, scope, hcast, rfl⟩⟩

/-- What is none in one realm is none in any other. -/
theorem classify_notEnum {s : CastSite} {realm : Datum} (h : s.target.classify realm = .notEnum)
    (other : Datum) : s.target.classify other = .notEnum := by
  cases hother : s.target.classify other with
  | notEnum => rfl
  | plainEnum ref =>
    obtain ⟨k, scope, hcast, -⟩ := classify_iff.1 hother
    rw [classify_iff.2 ⟨k, scope, hcast, rfl⟩] at h
    cases h

end CastSite

/-! ## The operand -/

/-- Only an infinity keeps a fact from being read. -/
theorem Fact.clueOn_error {f : Fact} {path : Int} {fault : Fault}
    (h : f.clueOn path = .error fault) : fault = .infiniteInteger := by
  unfold clueOn at h
  cases hpath : f.pathId with
  | error g =>
    rw [hpath] at h
    cases h
    exact forgiving_error hpath
  | ok own =>
    rw [hpath] at h
    simp only [bind, Except.bind] at h
    split at h
    · cases hint : f.integer with
      | error g =>
        rw [hint] at h
        cases h
        exact (integer_eq_error_iff.1 hint).1
      | ok value => rw [hint] at h; cases h
    · cases h

namespace Token

theorem clues_error {t : Token} {path : Int} {fault : Fault} (h : t.clues path = .error fault) :
    fault = .infiniteInteger := by
  unfold clues at h
  cases hm : t.facts.mapM (·.clueOn path) with
  | error g =>
    rw [hm] at h
    cases h
    obtain ⟨f, -, hf⟩ := mapM_error hm
    exact Fact.clueOn_error hf
  | ok heard => rw [hm] at h; cases h

theorem text_of_mem_integralTypes : ∀ d ∈ integralTypes, ∃ s, d = .text s := by
  simp [integralTypes]

/-- A type of integers is one of the ten texts. -/
theorem isIntegral_iff {t : Token} : t.isIntegral = .ok true ↔ t.IsIntegral := by
  unfold isIntegral IsIntegral
  cases t.valueType with
  | none => simp
  | some v =>
    simp only [Option.some.injEq, exists_eq_left', ValueType.isIntegral]
    cases hpointer : (v.pointer.getD (.int 0)).isTrue with
    | true => simp [pure, Except.pure]
    | false =>
      simp only [Bool.false_eq_true, if_false, true_and]
      constructor
      · intro h
        cases hkey : (v.type.getD (.text "")).asKey with
        | error f => rw [hkey] at h; cases h
        | ok u =>
          rw [hkey] at h
          have hamong : (v.type.getD (.text "")).isAmong integralTypes = true := Except.ok.inj h
          have hmem := (Datum.isAmong_texts_iff text_of_mem_integralTypes).1 hamong
          cases htype : v.type with
          | none =>
            rw [htype] at hmem
            simp [integralTypes] at hmem
          | some type =>
            rw [htype] at hmem
            exact ⟨type, hmem, rfl⟩
      · rintro ⟨type, hmem, htype⟩
        obtain ⟨s, rfl⟩ := text_of_mem_integralTypes type hmem
        have hamong := (Datum.isAmong_texts_iff text_of_mem_integralTypes).2 hmem
        rw [htype]
        show Except.ok ((Datum.text s).isAmong integralTypes) = .ok true
        rw [hamong]

theorem toInteger_int_orElse (path : Int) :
    ((Datum.int path).orElse (.int 0)).toInteger = .ok path := by
  by_cases h : path = 0
  · subst h
    rfl
  · simp [Datum.orElse, Datum.isTrue, h, Datum.toInteger]

/-- For an integer token the answer is its range. -/
theorem rangeOn_of_isIntegral {t : Token} (h : t.IsIntegral) (path : Int) :
    t.rangeOn (.int path) = (t.factRanges path).map .ranges := by
  unfold rangeOn
  rw [isIntegral_iff.2 h]
  simp only [bind, Except.bind, if_true, toInteger_int_orElse]
  cases t.factRanges path <;> rfl

/-- For any other token there is no range. -/
theorem isIntegral_of_rangeOn {t : Token} {path : Datum} {r : IntervalSet}
    (h : t.rangeOn path = .ok (.ranges r)) : t.IsIntegral := by
  rw [← isIntegral_iff]
  unfold rangeOn at h
  cases hint : t.isIntegral with
  | error f => rw [hint] at h; cases h
  | ok b =>
    cases b with
    | true => rfl
    | false => rw [hint] at h; cases h

/-- A range holds exactly the integers that the facts leave possible. -/
theorem mem_iff_of_rangeOn {t : Token} {path : Int} {r : IntervalSet}
    (h : t.rangeOn (.int path) = .ok (.ranges r)) (n : Int) :
    n ∈ r ↔ Fact.Possible t.facts path n := by
  rw [rangeOn_of_isIntegral (isIntegral_of_rangeOn h)] at h
  cases hclues : t.clues path with
  | error f =>
    have herror : t.factRanges path = .error f := by
      unfold factRanges
      rw [hclues]
      rfl
    rw [herror] at h
    cases h
  | ok clues =>
    rcases factRanges_spec hclues with ⟨s, hs, hmem⟩ | ⟨⟨f, hf⟩, -⟩
    · rw [hs] at h
      cases h
      exact hmem n
    · rw [hf] at h
      cases h

/-- If some integer is possible there is a range, unless a fact cannot be read. -/
theorem rangeOn_of_possible {t : Token} {path n : Int} (hint : t.IsIntegral)
    (h : Fact.Possible t.facts path n) :
    (∃ r, t.rangeOn (.int path) = .ok (.ranges r)) ∨
      t.rangeOn (.int path) = .error .infiniteInteger := by
  rw [rangeOn_of_isIntegral hint]
  cases hclues : t.clues path with
  | error f =>
    obtain rfl := clues_error hclues
    refine Or.inr ?_
    unfold factRanges
    rw [hclues]
    rfl
  | ok clues =>
    rcases factRanges_spec hclues with ⟨r, hr, -⟩ | ⟨-, hnone⟩
    · exact Or.inl ⟨r, by rw [hr]; rfl⟩
    · exact absurd h (hnone n)

end Token

namespace CastSite

variable {s : CastSite} {realm : Datum}

/-- **The answer about the operand of a cast** is the set of the integers that its facts leave
possible; there is one only for an integer operand. -/
theorem assess_some {r : IntervalSet}
    (h : (frontEnd realm).assess s.site (.int s.path) = .ok (some r)) :
    ∃ operand, s.configuration.token? s.operand = some operand ∧ operand.IsIntegral ∧
      ∀ n, n ∈ r ↔ Fact.Possible operand.facts s.path n := by
  have hrange := FrontEnd.assess_eq_some_iff.1 h
  cases hoperand : s.configuration.token? s.operand with
  | none =>
    -- a missing operand has no type
    obtain ⟨v, hv, -⟩ := Token.isIntegral_of_rangeOn hrange
    simp [site, hoperand] at hv
  | some operand =>
    have hsite : s.site.operand = operand := by simp [site, hoperand]
    rw [hsite] at hrange
    exact ⟨operand, rfl, Token.isIntegral_of_rangeOn hrange, Token.mem_iff_of_rangeOn hrange⟩

/-- If the operand is an integer and may be something, there is an answer, unless a fact cannot be
read. -/
theorem assess_of_possible {operand : Token} {n : Int}
    (hoperand : s.configuration.token? s.operand = some operand) (hint : operand.IsIntegral)
    (h : Fact.Possible operand.facts s.path n) :
    (∃ r, (frontEnd realm).assess s.site (.int s.path) = .ok (some r)) ∨
      (frontEnd realm).assess s.site (.int s.path) = .error .infiniteInteger := by
  have hsite : s.site.operand = operand := by simp [site, hoperand]
  rcases Token.rangeOn_of_possible hint h with ⟨r, hr⟩ | herror
  · exact Or.inl ⟨r, FrontEnd.assess_eq_some_iff.2 (by rw [hsite]; exact hr)⟩
  · exact Or.inr (FrontEnd.assess_eq_error (by rw [hsite]; exact herror))

end CastSite

end DeadCast

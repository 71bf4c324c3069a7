import DeadCast.Proofs.Dump.CastSite
import DeadCast.Proofs.Number.Decimal
import Mathlib.Tactic

/-!
# Which range an operand gets, and which fault

`Token.factRanges_spec` says that the range of an operand holds what its facts leave possible.  This
file says the rest (`Token.rangeOn_exact`):

* with a known value the range is that point, and without one it is the shortest form of what the
  impossible facts leave, which is unique;
* there is no range exactly if the impossible facts leave nothing or not the known value, and then
  the fault names what clashes: the tightest two bounds, or nothing at all if holes take everything,
  or the known value (`Fact.Clash`);
* facts on other paths, of other kinds or without an integer have no influence.

The fault is a range fault only if it can be put into words.  An integer that is too long to be
written makes another fault of it, which ends the whole run instead of being counted
(`Token.rangeOn_unwritable`).
-/

namespace DeadCast

/-! ## Facts that count -/

namespace Fact

/-- Path and value of the fact can be converted. -/
def IsReadable (f : Fact) : Prop := (∃ path, f.pathId = .ok path) ∧ ∃ value, f.integer = .ok value

/-- What a fact says on a path, if it can be read and says something. -/
def clue? (f : Fact) (path : Int) : Option Clue := ((f.clueOn path).toOption).join

theorem clueOn_of_isReadable {f : Fact} (h : f.IsReadable) (path : Int) :
    f.clueOn path = .ok (f.clue? path) := by
  obtain ⟨⟨own, hown⟩, value, hvalue⟩ := h
  have hok : ∃ clue, f.clueOn path = .ok clue := by
    unfold clueOn
    rw [hown, hvalue]
    simp only [bind, Except.bind, pure, Except.pure]
    split
    · exact ⟨_, rfl⟩
    · exact ⟨_, rfl⟩
  obtain ⟨clue, hclue⟩ := hok
  rw [clue?, hclue]
  rfl

/-- A fact that does not count says nothing. -/
theorem clue?_of_not_counts {f : Fact} (h : f.IsReadable) {path : Int} (hnot : ¬ f.Counts path) :
    f.clue? path = none := by
  have htells := tells_of_clueOn (clueOn_of_isReadable h path)
  generalize f.clue? path = clue at htells ⊢
  cases htells with
  | known hkind hv => exact absurd ⟨Or.inl hkind, _, hv⟩ hnot
  | above hkind hbound hv => exact absurd ⟨Or.inr hkind, _, hv⟩ hnot
  | below hkind hbound hv => exact absurd ⟨Or.inr hkind, _, hv⟩ hnot
  | hole hkind hupper hlower hv => exact absurd ⟨Or.inr hkind, _, hv⟩ hnot
  | nothing => rfl

/-! ## Bounds -/

/-- An impossible fact says on the path that the value is above `v`. -/
def BoundBelow (facts : List Fact) (path v : Int) : Prop :=
  ∃ f ∈ facts, f.IsImpossible ∧ f.bound = some (.text "Upper") ∧ f.SaysOn path v

/-- An impossible fact says on the path that the value is below `v`. -/
def BoundAbove (facts : List Fact) (path v : Int) : Prop :=
  ∃ f ∈ facts, f.IsImpossible ∧ f.bound = some (.text "Lower") ∧ f.SaysOn path v

/-- The facts leave nothing on the path, or not the last known value. -/
def Contradictory (facts : List Fact) (path : Int) : Prop :=
  (∀ n, ¬ NotExcluded facts path n) ∨ ∃ k, LastKnown facts path k ∧ ¬ NotExcluded facts path k

/-- How facts contradict each other on a path, and the fault that says so. -/
inductive Clash (facts : List Fact) (path : Int) : RangeFault → Prop
  /-- The tightest bounds cross. -/
  | bounds {u l : Int} (hu : IsGreatest {v | BoundBelow facts path v} u)
    (hl : IsLeast {v | BoundAbove facts path v} l) (hcross : l - 1 < u + 1) :
    Clash facts path (.contradictoryBounds path (u + 1) (l - 1))
  /-- The bounds do not cross, but nothing is left. -/
  | holes (hbounds : ∃ n, (∀ v, BoundBelow facts path v → v < n) ∧
      ∀ v, BoundAbove facts path v → n < v)
    (hnone : ∀ n, ¬ NotExcluded facts path n) : Clash facts path .empty
  /-- Something is left, but not the last known value. -/
  | known {k : Int} (hsome : ∃ n, NotExcluded facts path n) (hknown : LastKnown facts path k)
    (hnot : ¬ NotExcluded facts path k) : Clash facts path (.knownExcluded path k)

theorem not_lastKnown_nil (path k : Int) : ¬ LastKnown [] path k := by
  rintro ⟨before, f, after, heq, -⟩
  simp at heq

theorem LastKnown.unique {facts : List Fact} {path k m : Int} (hk : LastKnown facts path k)
    (hm : LastKnown facts path m) : k = m := by
  induction facts with
  | nil => exact absurd hk (not_lastKnown_nil path k)
  | cons f rest ih =>
    rcases lastKnown_cons.1 hk with hk | ⟨-, hk, hnone⟩
    · rcases lastKnown_cons.1 hm with hm | ⟨-, -, hnone⟩
      · exact ih hk hm
      · obtain ⟨before, g, after, rfl, hg, hsays, -⟩ := hk
        exact absurd hsays (hnone g (by simp) hg k)
    · rcases lastKnown_cons.1 hm with ⟨before, g, after, rfl, hg, hsays, -⟩ | ⟨-, hm, -⟩
      · exact absurd hsays (hnone g (by simp) hg m)
      · exact hk.unique hm

/-- Bounds that cross leave nothing. -/
theorem not_notExcluded_of_bounds {facts : List Fact} {path u l : Int}
    (hu : BoundBelow facts path u) (hl : BoundAbove facts path l) (hcross : l - 1 < u + 1) (n : Int) :
    ¬ NotExcluded facts path n := by
  obtain ⟨f, hf, himp, hbound, hsays⟩ := hu
  obtain ⟨g, hg, himp', hbound', hsays'⟩ := hl
  intro hn
  have habove := (hn f hf himp _ hsays).1 hbound
  have hbelow := (hn g hg himp' _ hsays').2.1 hbound'
  omega

theorem Clash.contradictory {facts : List Fact} {path : Int} {f : RangeFault}
    (h : Clash facts path f) : Contradictory facts path := by
  cases h with
  | bounds hu hl hcross => exact Or.inl (not_notExcluded_of_bounds hu.1 hl.1 hcross)
  | holes hbounds hnone => exact Or.inl hnone
  | known hsome hknown hnot => exact Or.inr ⟨_, hknown, hnot⟩

/-- Facts are contradictory exactly if no integer is possible. -/
theorem contradictory_iff {facts : List Fact} {path : Int} :
    Contradictory facts path ↔ ∀ n, ¬ Possible facts path n := by
  constructor
  · rintro (hnone | ⟨k, hk, hnot⟩) n ⟨hn, hlast⟩
    · exact hnone n hn
    · exact hnot (hlast k hk ▸ hn)
  · intro hnone
    by_cases hknown : ∃ k, LastKnown facts path k
    · obtain ⟨k, hk⟩ := hknown
      exact Or.inr ⟨k, hk, fun hleft => hnone k ⟨hleft, fun m hm => hk.unique hm⟩⟩
    · exact Or.inl fun n hn => hnone n ⟨hn, fun k hk => absurd ⟨k, hk⟩ hknown⟩

end Fact

namespace Knowledge

variable {f : Fact} {path : Int} {clue : Option Clue}

/-- One fact moves the lower edge exactly if it is a bound from below. -/
theorem lo_hear (h : f.clueOn path = .ok clue) (k : Knowledge) (n : Int) :
    (k.hear clue).lo.Admits n ↔ k.lo.Admits n ∧
      (f.IsImpossible → f.bound = some (.text "Upper") → ∀ v, f.SaysOn path v → v < n) := by
  cases Fact.tells_of_clueOn h with
  | known hkind hv =>
    have himp : ¬ f.IsImpossible := fun himp => Fact.not_isKnown_of_isImpossible himp hkind
    simp [hear, learn, himp]
  | above hkind hbound hv =>
    rw [hv.forall_iff]
    simp [hear, learn, Lower.admits_tighten, hbound, hkind]
  | below hkind hbound hv => simp [hear, learn, hbound]
  | hole hkind hupper hlower hv => simp [hear, learn, hupper]
  | nothing hnot =>
    refine (and_iff_left ?_).symm
    intro himp _ v hv
    exact absurd ⟨Or.inr himp, v, hv⟩ hnot

/-- One fact moves the upper edge exactly if it is a bound from above. -/
theorem hi_hear (h : f.clueOn path = .ok clue) (k : Knowledge) (n : Int) :
    (k.hear clue).hi.Admits n ↔ k.hi.Admits n ∧
      (f.IsImpossible → f.bound = some (.text "Lower") → ∀ v, f.SaysOn path v → n < v) := by
  cases Fact.tells_of_clueOn h with
  | known hkind hv =>
    have himp : ¬ f.IsImpossible := fun himp => Fact.not_isKnown_of_isImpossible himp hkind
    simp [hear, learn, himp]
  | above hkind hbound hv => simp [hear, learn, hbound]
  | below hkind hbound hv =>
    rw [hv.forall_iff]
    simp [hear, learn, Upper.admits_tighten, hbound, hkind]
  | hole hkind hupper hlower hv => simp [hear, learn, hlower]
  | nothing hnot =>
    refine (and_iff_left ?_).symm
    intro himp _ v hv
    exact absurd ⟨Or.inr himp, v, hv⟩ hnot

variable {facts : List Fact} {clues : List (Option Clue)}

theorem lo_foldl_hear (h : facts.mapM (·.clueOn path) = .ok clues) (n : Int) :
    (clues.foldl hear {}).lo.Admits n ↔ ∀ v, Fact.BoundBelow facts path v → v < n := by
  rw [foldl_hear_iff (P := fun k => k.lo.Admits n) (fun k hclue => lo_hear hclue k n) h]
  simp only [Lower.admits_unbounded, true_and, Fact.BoundBelow]
  constructor
  · rintro hall v ⟨f, hf, himp, hbound, hv⟩
    exact hall f hf himp hbound v hv
  · intro hall f hf himp hbound v hv
    exact hall v ⟨f, hf, himp, hbound, hv⟩

theorem hi_foldl_hear (h : facts.mapM (·.clueOn path) = .ok clues) (n : Int) :
    (clues.foldl hear {}).hi.Admits n ↔ ∀ v, Fact.BoundAbove facts path v → n < v := by
  rw [foldl_hear_iff (P := fun k => k.hi.Admits n) (fun k hclue => hi_hear hclue k n) h]
  simp only [Upper.admits_unbounded, true_and, Fact.BoundAbove]
  constructor
  · rintro hall v ⟨f, hf, himp, hbound, hv⟩
    exact hall f hf himp hbound v hv
  · intro hall f hf himp hbound v hv
    exact hall v ⟨f, hf, himp, hbound, hv⟩

end Knowledge

/-- A lower limit that admits just what is above all of some integers is next to the greatest of
them. -/
theorem isGreatest_of_admits_iff {P : Int → Prop} {a : Int}
    (h : ∀ n, (Lower.limit a).Admits n ↔ ∀ v, P v → v < n) : IsGreatest {v | P v} (a - 1) := by
  have hall := (h a).1 (le_refl a)
  refine ⟨?_, fun v hv => by have := hall v hv; omega⟩
  by_contra hnot
  -- otherwise `a - 1` would be above all of them as well
  have hless := (h (a - 1)).2 fun v hv => by
    have hva := hall v hv
    have hne : v ≠ a - 1 := fun heq => hnot (heq ▸ hv)
    omega
  rw [Lower.admits_limit] at hless
  omega

/-- An upper limit that admits just what is below all of some integers is next to the least of
them. -/
theorem isLeast_of_admits_iff {P : Int → Prop} {b : Int}
    (h : ∀ n, (Upper.limit b).Admits n ↔ ∀ v, P v → n < v) : IsLeast {v | P v} (b + 1) := by
  have hall := (h b).1 (le_refl b)
  refine ⟨?_, fun v hv => by have := hall v hv; omega⟩
  by_contra hnot
  have hgreater := (h (b + 1)).2 fun v hv => by
    have hbv := hall v hv
    have hne : v ≠ b + 1 := fun heq => hnot (heq ▸ hv)
    omega
  rw [Upper.admits_limit] at hgreater
  omega

/-! ## The answer about a token -/

namespace Token

variable {t : Token} {path : Int}

/-- What the facts of a token come to, in terms of the facts alone. -/
inductive Answer (facts : List Fact) (path : Int) : Except RangeFault IntervalSet → Prop
  | range {r : IntervalSet} (hknown : ∀ k, ¬ Fact.LastKnown facts path k)
    (hmem : ∀ n, n ∈ r ↔ Fact.NotExcluded facts path n) (hgapped : r.Gapped) :
    Answer facts path (.ok r)
  | value {k : Int} (hknown : Fact.LastKnown facts path k) (hk : Fact.NotExcluded facts path k) :
    Answer facts path (.ok (.point k))
  | clash {f : RangeFault} (hclash : Fact.Clash facts path f) : Answer facts path (.error f)

section Answers

variable {facts : List Fact} {answer : Except RangeFault IntervalSet}

/-- Contradictory facts come to a clash. -/
theorem Answer.clash_of_contradictory (h : Answer facts path answer)
    (hcontra : Fact.Contradictory facts path) :
    ∃ f, Fact.Clash facts path f ∧ answer = .error f := by
  cases h with
  | @range r hknown hmem hgapped =>
    -- a set is never empty
    obtain ⟨n, hn⟩ := r.exists_mem
    rcases hcontra with hnone | ⟨k, hk, -⟩
    · exact absurd ((hmem n).1 hn) (hnone n)
    · exact absurd hk (hknown k)
  | @value k hknown hk =>
    rcases hcontra with hnone | ⟨m, hm, hnot⟩
    · exact absurd hk (hnone k)
    · rw [hm.unique hknown] at hnot
      exact absurd hk hnot
  | @clash f hclash => exact ⟨f, hclash, rfl⟩

/-- With a known value, facts that do not contradict each other come to the value. -/
theorem Answer.eq_point (h : Answer facts path answer) (hcons : ¬ Fact.Contradictory facts path)
    {k : Int} (hk : Fact.LastKnown facts path k) : answer = .ok (.point k) := by
  cases h with
  | range hknown hmem hgapped => exact absurd hk (hknown k)
  | value hknown hleft => rw [hk.unique hknown]
  | clash hclash => exact absurd hclash.contradictory hcons

/-- Without one, they come to the shortest form of what is left. -/
theorem Answer.eq_ranges (h : Answer facts path answer) (hcons : ¬ Fact.Contradictory facts path)
    (hnone : ∀ k, ¬ Fact.LastKnown facts path k) : ∃ r : IntervalSet, answer = .ok r ∧
      (∀ n, n ∈ r ↔ Fact.NotExcluded facts path n) ∧ r.Gapped := by
  cases h with
  | @range r hknown hmem hgapped => exact ⟨r, rfl, hmem, hgapped⟩
  | @value k hknown hleft => exact absurd hknown (hnone k)
  | clash hclash => exact absurd hclash.contradictory hcons

end Answers

theorem mapM_clueOn_of_isReadable {facts : List Fact} (h : ∀ f ∈ facts, f.IsReadable)
    (path : Int) : facts.mapM (·.clueOn path) = .ok (facts.map (·.clue? path)) :=
  mapM_eq_ok fun f hf => Fact.clueOn_of_isReadable (h f hf) path

/-- **The answer about a token**, read off its facts, if they can be heard on the path. -/
theorem factRanges_answer_of_heard {heard : List (Option Clue)}
    (hheard : t.facts.mapM (·.clueOn path) = .ok heard) :
    ∃ answer, Answer t.facts path answer ∧
      t.factRanges path = answer.mapError RangeFault.raised := by
  refine ⟨_, ?_, factRanges_eq hheard⟩
  have hallows : ∀ n, (heard.foldl Knowledge.hear {}).Allows n ↔
      Fact.NotExcluded t.facts path n := by
    intro n
    rw [Knowledge.allows_foldl_hear hheard]
    simp [Knowledge.Allows]
  have hlast : ∀ m, (heard.foldl Knowledge.hear {}).known = some m ↔
      Fact.LastKnown t.facts path m := by
    intro m
    rw [Knowledge.known_foldl_hear hheard]
    simp
  have hlo := Knowledge.lo_foldl_hear hheard
  have hhi := Knowledge.hi_foldl_hear hheard
  have hanswer := Knowledge.ranges_answer (heard.foldl Knowledge.hear {}) path
  generalize heard.foldl Knowledge.hear {} = k at *
  generalize k.ranges path = answer at hanswer ⊢
  cases hanswer with
  | range hknown hmem hgapped =>
    refine .range (fun m hm => ?_) (fun n => (hmem n).trans (hallows n)) hgapped
    rw [(hlast m).2 hm] at hknown
    cases hknown
  | value hknown hm => exact .value ((hlast _).1 hknown) ((hallows _).1 hm)
  | @bounds a b hlimit hlimit' hcross =>
    rw [hlimit] at hlo
    rw [hlimit'] at hhi
    have hclash := Fact.Clash.bounds (isGreatest_of_admits_iff hlo) (isLeast_of_admits_iff hhi)
      (by omega)
    rw [sub_add_cancel, add_sub_cancel_right] at hclash
    exact .clash hclash
  | holes hbelow hnone =>
    obtain ⟨n, hn, hn'⟩ := Lower.below_iff.1 hbelow
    exact .clash (.holes ⟨n, (hlo n).1 hn, (hhi n).1 hn'⟩ fun m hm => hnone m ((hallows m).2 hm))
  | excluded hsome hknown hnot =>
    obtain ⟨n, hn⟩ := hsome
    exact .clash (.known ⟨n, (hallows n).1 hn⟩ ((hlast _).1 hknown)
      fun hm => hnot ((hallows _).2 hm))

theorem factRanges_answer (hread : ∀ f ∈ t.facts, f.IsReadable) (path : Int) :
    ∃ answer, Answer t.facts path answer ∧
      t.factRanges path = answer.mapError RangeFault.raised :=
  factRanges_answer_of_heard (mapM_clueOn_of_isReadable hread path)

/-- For an integer token there is a range of what is possible, or a clash. -/
theorem rangeOn_possible_or_clash_of_heard (hint : t.IsIntegral) {heard : List (Option Clue)}
    (hheard : t.facts.mapM (·.clueOn path) = .ok heard) :
    (∃ r : IntervalSet, t.rangeOn (.int path) = .ok (.ranges r) ∧
      ∀ n, n ∈ r ↔ Fact.Possible t.facts path n) ∨
    ∃ f, Fact.Clash t.facts path f ∧ t.rangeOn (.int path) = .error f.raised := by
  obtain ⟨answer, hanswer, heq⟩ := factRanges_answer_of_heard hheard
  have hrange : t.rangeOn (.int path) = (answer.mapError RangeFault.raised).map .ranges := by
    rw [rangeOn_of_isIntegral hint, heq]
  cases hanswer with
  | @range r => exact Or.inl ⟨r, hrange, mem_iff_of_rangeOn hrange⟩
  | @value k => exact Or.inl ⟨.point k, hrange, mem_iff_of_rangeOn hrange⟩
  | @clash f hclash => exact Or.inr ⟨f, hclash, hrange⟩

theorem rangeOn_possible_or_clash (hint : t.IsIntegral) (hread : ∀ f ∈ t.facts, f.IsReadable)
    (path : Int) :
    (∃ r : IntervalSet, t.rangeOn (.int path) = .ok (.ranges r) ∧
      ∀ n, n ∈ r ↔ Fact.Possible t.facts path n) ∨
    ∃ f, Fact.Clash t.facts path f ∧ t.rangeOn (.int path) = .error f.raised :=
  rangeOn_possible_or_clash_of_heard hint (mapM_clueOn_of_isReadable hread path)

/-- Facts that do not count have no influence on what the others come to. -/
theorem clues_filter_counts {facts : List Fact} (hread : ∀ f ∈ facts, f.IsReadable) (path : Int)
    [DecidablePred fun f : Fact => f.Counts path] :
    (facts.filter fun f => f.Counts path).filterMap (·.clue? path) =
      facts.filterMap (·.clue? path) := by
  induction facts with
  | nil => rfl
  | cons f rest ih =>
    have hrest := ih fun g hg => hread g (List.mem_cons_of_mem f hg)
    by_cases hcounts : f.Counts path
    · rw [List.filter_cons_of_pos (by simpa using hcounts), List.filterMap_cons,
        List.filterMap_cons, hrest]
    · have hnone := Fact.clue?_of_not_counts (hread f (List.mem_cons_self ..)) hcounts
      rw [List.filter_cons_of_neg (by simpa using hcounts), hrest, List.filterMap_cons, hnone]

theorem factRanges_congr {t u : Token} (ht : ∀ f ∈ t.facts, f.IsReadable)
    (hu : ∀ f ∈ u.facts, f.IsReadable)
    (h : t.facts.filterMap (·.clue? path) = u.facts.filterMap (·.clue? path)) :
    t.factRanges path = u.factRanges path := by
  have hheard : ∀ facts : List Fact, (facts.map (·.clue? path)).foldl Knowledge.hear {} =
      (facts.filterMap (·.clue? path)).foldl Knowledge.learn {} := by
    intro facts
    rw [← Knowledge.foldl_learn_filterMap, List.filterMap_map]
    rfl
  rw [factRanges_eq (mapM_clueOn_of_isReadable ht path),
    factRanges_eq (mapM_clueOn_of_isReadable hu path), hheard, hheard, h]

open Classical in
/-- **Which range an operand gets, and which fault.**  The facts of an integer operand can be read,
and `B` are the integers that the impossible facts leave on the path.

If `B` is empty, or the last known value exists and is not in `B`, there is no range.  The fault is
the range fault that names the clash, if it can be put into words.  Otherwise, with a last known
value the range is that point; without one it contains exactly `B`, leaves a gap between neighbours,
and is the only such set.  Facts that hold on other paths only, that are of other kinds or that have
no integer have no influence. -/
theorem rangeOn_exact (hint : t.IsIntegral) (hread : ∀ f ∈ t.facts, f.IsReadable) (path : Int) :
    let B := Fact.NotExcluded t.facts path
    let contradictory := (∀ n, ¬ B n) ∨ ∃ k, Fact.LastKnown t.facts path k ∧ ¬ B k
    (contradictory → ∃ f, Fact.Clash t.facts path f ∧
      t.rangeOn (.int path) = .error (if f.isWritable then .range f else .longInteger)) ∧
    (¬ contradictory →
      (∀ k, Fact.LastKnown t.facts path k →
        t.rangeOn (.int path) = .ok (.ranges (.point k))) ∧
      ((∀ k, ¬ Fact.LastKnown t.facts path k) →
        ∃ r : IntervalSet, t.rangeOn (.int path) = .ok (.ranges r) ∧
          (∀ n, r.contains n = true ↔ B n) ∧ r.Gapped ∧
          ∀ s : IntervalSet, s.Gapped → (∀ n, s.contains n = true ↔ B n) → s = r)) ∧
    { t with facts := t.facts.filter fun f => f.Counts path }.rangeOn (.int path) =
      t.rangeOn (.int path) := by
  intro B contradictory
  obtain ⟨answer, hanswer, heq⟩ := factRanges_answer hread path
  have hrange : t.rangeOn (.int path) = (answer.mapError RangeFault.raised).map .ranges := by
    rw [rangeOn_of_isIntegral hint, heq]
  refine ⟨fun hcontra => ?_, fun hcons => ⟨fun k hk => ?_, fun hnone => ?_⟩, ?_⟩
  · obtain ⟨f, hclash, rfl⟩ := hanswer.clash_of_contradictory hcontra
    exact ⟨f, hclash, hrange⟩
  · rw [hrange, hanswer.eq_point hcons hk]
    rfl
  · obtain ⟨r, rfl, hmem, hgapped⟩ := hanswer.eq_ranges hcons hnone
    simp only [IntervalSet.contains_iff]
    refine ⟨r, hrange, hmem, hgapped, fun s hs hsmem => ?_⟩
    exact IntervalSet.eq_of_gapped hs hgapped fun n => (hsmem n).trans (hmem n).symm
  · rw [rangeOn_of_isIntegral hint, rangeOn_of_isIntegral (by exact hint)]
    refine congrArg _ (factRanges_congr (fun f hf => hread f (List.mem_of_mem_filter hf)) hread ?_)
    exact clues_filter_counts hread path

end Token

/-! ## Facts about plain integers -/

namespace Fact

/-- The fact of a kind and with a bound about an integer on a path. -/
def about (kind bound : String) (value path : Int) : Fact where
  value := some (.int value)
  kind := some (.text kind)
  bound := some (.text bound)
  path := some (.int path)

variable (kind bound : String) (value path : Int)

theorem pathId_about : (about kind bound value path).pathId = .ok path := by
  unfold pathId
  simp only [about, Option.getD_some, Token.toInteger_int_orElse, forgiving]

theorem integer_about : (about kind bound value path).integer = .ok (some value) := rfl

theorem isReadable_about : (about kind bound value path).IsReadable :=
  ⟨⟨path, pathId_about kind bound value path⟩, some value, rfl⟩

theorem saysOn_about (p v : Int) :
    (about kind bound value path).SaysOn p v ↔ (path = 0 ∨ path = p) ∧ value = v := by
  simp [SaysOn, pathId_about, integer_about]

end Fact

namespace Token

/-- The token of an `int` with some facts. -/
def ofFacts (facts : List Fact) : Token where
  valueType := some { type := some (.text "int") }
  facts := facts

theorem isIntegral_ofFacts (facts : List Fact) : (ofFacts facts).IsIntegral :=
  ⟨_, rfl, rfl, .text "int", by simp [integralTypes], rfl⟩

/-- Always more than `0` and never `5`; `3` on path `1`, less than `10` on path `2`, `5` on path
`3`. -/
def mixedFacts : List Fact :=
  [.about "known" "Point" 3 1, .about "impossible" "Upper" 0 0, .about "impossible" "Lower" 10 2,
    .about "possible" "Point" 7 2, .about "impossible" "Point" 5 0, .about "known" "Point" 5 3]

theorem notExcluded_mixedFacts (path n : Int) : Fact.NotExcluded mixedFacts path n ↔
    0 < n ∧ (path = 2 → n < 10) ∧ n ≠ 5 := by
  simp only [mixedFacts, Fact.notExcluded_cons, Fact.saysOn_about, Fact.IsImpossible, Fact.Leaves]
  simp [Fact.about, Fact.NotExcluded]
  omega

theorem lastKnown_mixedFacts (path k : Int) : Fact.LastKnown mixedFacts path k ↔
    (path = 1 ∧ k = 3) ∨ (path = 3 ∧ k = 5) := by
  simp only [mixedFacts, Fact.lastKnown_cons, Fact.noneKnown_cons, Fact.saysOn_about, Fact.IsKnown,
    Fact.not_lastKnown_nil]
  simp [Fact.about, Fact.NoneKnown]
  omega

/-- On path `2` the range is `[1, 4] ∪ [6, 9]`, on path `1` it is the known value, and on path `3`
the known value is ruled out. -/
theorem rangeOn_exact_mixedFacts :
    (ofFacts mixedFacts).IsIntegral ∧ (∀ f ∈ (ofFacts mixedFacts).facts, f.IsReadable) ∧
      (∃ r : IntervalSet, (ofFacts mixedFacts).rangeOn (.int 2) = .ok (.ranges r) ∧ r.Gapped ∧
        ∀ n, r.contains n = true ↔ 0 < n ∧ n < 10 ∧ n ≠ 5) ∧
      (ofFacts mixedFacts).rangeOn (.int 1) = .ok (.ranges (.point 3)) ∧
      ∃ f, Fact.Clash mixedFacts 3 f ∧ (ofFacts mixedFacts).rangeOn (.int 3) =
        .error (if f.isWritable then .range f else .longInteger) := by
  have hint := isIntegral_ofFacts mixedFacts
  have hread : ∀ f ∈ (ofFacts mixedFacts).facts, f.IsReadable := by
    simp [ofFacts, mixedFacts, Fact.isReadable_about]
  refine ⟨hint, hread, ?_, ?_, ?_⟩
  · have hleft : Fact.NotExcluded mixedFacts 2 1 := by simp [notExcluded_mixedFacts]
    have hnone : ∀ k, ¬ Fact.LastKnown mixedFacts 2 k := by simp [lastKnown_mixedFacts]
    obtain ⟨r, hr, hmem, hgapped, -⟩ := ((rangeOn_exact hint hread 2).2.1
      (by rintro (hall | ⟨k, hk, -⟩)
          · exact hall 1 hleft
          · exact hnone k hk)).2 hnone
    refine ⟨r, hr, hgapped, fun n => (hmem n).trans ?_⟩
    have hmixed := notExcluded_mixedFacts 2 n
    simpa [ofFacts] using hmixed
  · have hleft : Fact.NotExcluded mixedFacts 1 3 := by simp [notExcluded_mixedFacts]
    have hknown : Fact.LastKnown mixedFacts 1 3 := by simp [lastKnown_mixedFacts]
    exact ((rangeOn_exact hint hread 1).2.1
      (by rintro (hall | ⟨k, hk, hnot⟩)
          · exact hall 3 hleft
          · exact hnot (hk.unique hknown ▸ hleft))).1 3 hknown
  · have hknown : Fact.LastKnown mixedFacts 3 5 := by simp [lastKnown_mixedFacts]
    have hnot : ¬ Fact.NotExcluded mixedFacts 3 5 := by simp [notExcluded_mixedFacts]
    exact (rangeOn_exact hint hread 3).1 (Or.inr ⟨5, hknown, hnot⟩)

/-- An `int` that is said to be more than `u` and less than `l`. -/
def squeezed (u l : Int) : Token :=
  ofFacts [.about "impossible" "Upper" u 0, .about "impossible" "Lower" l 0]

theorem notExcluded_squeezed (u l n : Int) :
    Fact.NotExcluded (squeezed u l).facts 0 n ↔ u < n ∧ n < l := by
  simp only [squeezed, ofFacts, Fact.notExcluded_cons, Fact.saysOn_about, Fact.IsImpossible,
    Fact.Leaves]
  simp [Fact.about, Fact.NotExcluded]

theorem rangeOn_squeezed {u l : Int} (h : l - 1 < u + 1) : (squeezed u l).rangeOn (.int 0) =
    .error (RangeFault.contradictoryBounds 0 (u + 1) (l - 1)).raised := by
  have hclues : (squeezed u l).facts.mapM (·.clueOn 0) =
      .ok [some (.atLeast (u + 1)), some (.atMost (l - 1))] := rfl
  have hint : (squeezed u l).IsIntegral := isIntegral_ofFacts _
  rw [rangeOn_of_isIntegral hint, factRanges_eq hclues]
  have hcross : ¬ u + 1 < l := by omega
  simp [Knowledge.hear, Knowledge.learn, Knowledge.ranges, Knowledge.possible, Lower.tighten,
    Upper.tighten, Interval.between, hcross, bind, Except.bind, Except.mapError, Except.map]

/-- **A contradiction that cannot be put into words.**  An `int` is said to be more than `v`, the
greatest integer that can be written, and less than `0`.  Nothing is left, but the range fault would
have to name `v + 1`, so it is not reported as a range fault. -/
theorem rangeOn_unwritable :
    let v : Int := (10 ^ digitLimit : Nat) - 1
    (squeezed v 0).IsIntegral ∧ (∀ f ∈ (squeezed v 0).facts, f.IsReadable) ∧
      isWritable v = true ∧ (∀ n, ¬ Fact.NotExcluded (squeezed v 0).facts 0 n) ∧
      (squeezed v 0).rangeOn (.int 0) = .error .longInteger ∧
      ∀ f, (squeezed v 0).rangeOn (.int 0) ≠ .error (.range f) := by
  have hwritable := isWritable_iff
  have hpos : 0 < 10 ^ digitLimit := Nat.pow_pos (by decide)
  -- the power is never looked into
  generalize 10 ^ digitLimit = p at hwritable hpos ⊢
  intro v
  have hv : v = (p : Int) - 1 := rfl
  have hshort : isWritable v = true := (hwritable v).2 (by omega)
  have hlong : isWritable (v + 1) = false := by
    rw [Bool.eq_false_iff, Ne, hwritable]
    omega
  have hfault : (squeezed v 0).rangeOn (.int 0) = .error .longInteger := by
    rw [rangeOn_squeezed (by omega), RangeFault.raised, RangeFault.isWritable, hlong]
    simp
  refine ⟨isIntegral_ofFacts _, ?_, hshort, ?_, hfault, ?_⟩
  · simp [squeezed, ofFacts, Fact.isReadable_about]
  · intro n hn
    have hboth := (notExcluded_squeezed v 0 n).1 hn
    omega
  · intro f hf
    rw [hfault] at hf
    cases hf

end Token

end DeadCast

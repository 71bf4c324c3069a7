import DeadCast.Dump.Ranges
import DeadCast.Proofs.Datum.Order
import DeadCast.Proofs.Dump.Known
import DeadCast.Proofs.IntervalSet.Canonical
import DeadCast.Proofs.Traversal
import Mathlib.Tactic

/-!
# The range of an operand is what its facts allow

What the facts about an operand say on one path is stated here without any range: an integer is
*possible* if no fact of the kind `impossible` rules it out and it equals the last known value, if
there is one (`Fact.Possible`).  The main result, `Token.factRanges_spec`, says that the computed
range holds exactly the possible integers, and that there is a range fault exactly if no integer is
possible.

The computation goes through the facts from left to right and keeps bounds, holes and the last known
value (`Knowledge`).  `Knowledge.Allows` is what bounds and holes leave, and each fact narrows it by
what the fact itself says (`Knowledge.allows_hear`); the known value is replaced by each new one
(`Knowledge.known_hear`).  Both go over to the whole list by induction.

What is made of the knowledge in the end is one of five things (`Knowledge.Answer`): a set, a point,
or one of three contradictions.
-/

namespace DeadCast

/-! ## What facts say -/

namespace Fact

/-- The fact is about the integer `v` and holds on the path, as its own path or as path `0`. -/
def SaysOn (f : Fact) (path v : Int) : Prop :=
  (f.pathId = .ok 0 ∨ f.pathId = .ok path) ∧ f.integer = .ok (some v)

/-- The fact is of the kind `impossible`. -/
def IsImpossible (f : Fact) : Prop := f.kind = some (.text "impossible")

/-- An impossible value `v` leaves the integer `n` possible: those above `v` if `v` is an upper
bound, those below `v` if it is a lower one, else all but `v`. -/
def Leaves (f : Fact) (v n : Int) : Prop :=
  (f.bound = some (.text "Upper") → v + 1 ≤ n) ∧
  (f.bound = some (.text "Lower") → n ≤ v - 1) ∧
  (f.bound ≠ some (.text "Upper") → f.bound ≠ some (.text "Lower") → n ≠ v)

/-- No fact of the list gives a known value on the path. -/
def NoneKnown (facts : List Fact) (path : Int) : Prop :=
  ∀ f ∈ facts, f.IsKnown → ∀ v, ¬ f.SaysOn path v

/-- `k` is the last known value on the path. -/
def LastKnown (facts : List Fact) (path k : Int) : Prop :=
  ∃ before f after, facts = before ++ f :: after ∧ f.IsKnown ∧ f.SaysOn path k ∧
    NoneKnown after path

/-- No impossible fact on the path rules `n` out. -/
def NotExcluded (facts : List Fact) (path n : Int) : Prop :=
  ∀ f ∈ facts, f.IsImpossible → ∀ v, f.SaysOn path v → f.Leaves v n

/-- The operand may be `n` on the path, as far as its facts say. -/
def Possible (facts : List Fact) (path n : Int) : Prop :=
  NotExcluded facts path n ∧ ∀ k, LastKnown facts path k → n = k

theorem SaysOn.unique {f : Fact} {path v w : Int} (hv : f.SaysOn path v) (hw : f.SaysOn path w) :
    v = w := by
  have h := hv.2.symm.trans hw.2
  simpa using h

/-- Whatever is said of all integers that a fact is about is said of the one it is about. -/
theorem SaysOn.forall_iff {f : Fact} {path v : Int} (hv : f.SaysOn path v) {P : Int → Prop} :
    (∀ w, f.SaysOn path w → P w) ↔ P v := by
  constructor
  · intro hall
    exact hall v hv
  · intro hP w hw
    rwa [← hv.unique hw]

theorem noneKnown_cons {f : Fact} {facts : List Fact} {path : Int} :
    NoneKnown (f :: facts) path ↔ (f.IsKnown → ∀ v, ¬ f.SaysOn path v) ∧ NoneKnown facts path := by
  simp [NoneKnown]

/-- The last known value of a list is that of its tail, or that of its head if the tail has none. -/
theorem lastKnown_cons {f : Fact} {facts : List Fact} {path k : Int} :
    LastKnown (f :: facts) path k ↔
      LastKnown facts path k ∨ (f.IsKnown ∧ f.SaysOn path k ∧ NoneKnown facts path) := by
  constructor
  · rintro ⟨before, g, after, heq, hknown, hsays, hnone⟩
    cases before with
    | nil =>
      obtain ⟨rfl, rfl⟩ := List.cons.inj heq
      exact Or.inr ⟨hknown, hsays, hnone⟩
    | cons b before =>
      obtain ⟨rfl, rfl⟩ := List.cons.inj heq
      exact Or.inl ⟨before, g, after, rfl, hknown, hsays, hnone⟩
  · rintro (⟨before, g, after, rfl, hknown, hsays, hnone⟩ | ⟨hknown, hsays, hnone⟩)
    · exact ⟨f :: before, g, after, rfl, hknown, hsays, hnone⟩
    · exact ⟨[], f, facts, rfl, hknown, hsays, hnone⟩

theorem notExcluded_cons {f : Fact} {facts : List Fact} {path n : Int} :
    NotExcluded (f :: facts) path n ↔
      (f.IsImpossible → ∀ v, f.SaysOn path v → f.Leaves v n) ∧ NotExcluded facts path n := by
  simp [NotExcluded]

/-! ## Clues -/

theorem boundOf_isText_iff {f : Fact} {s : String} (hs : s ≠ "") (hpoint : s ≠ "Point") :
    f.boundOf.isText s = true ↔ f.bound = some (.text s) := by
  rw [Datum.isText_iff, boundOf, Datum.orElse]
  cases f.bound with
  | none => simpa [Datum.isTrue] using hpoint.symm
  | some d =>
    simp only [Option.getD_some, Option.some.injEq]
    split
    · rfl
    · rename_i hfalse
      constructor
      · intro h
        exact absurd (Datum.text.inj h).symm hpoint
      · rintro rfl
        simp [Datum.isTrue, hs] at hfalse

/-- A fact that has something to say on the path gives the clue about its integer, any other gives
none. -/
theorem clueOn_cases {f : Fact} {path : Int} {clue : Option Clue} (h : f.clueOn path = .ok clue) :
    (∃ v, f.SaysOn path v ∧ clue = f.clueAbout? v) ∨ ((∀ v, ¬ f.SaysOn path v) ∧ clue = none) := by
  unfold clueOn at h
  cases hpath : f.pathId with
  | error fault => rw [hpath] at h; cases h
  | ok own =>
    rw [hpath] at h
    simp only [bind, Except.bind] at h
    split at h
    · rename_i hown
      cases hint : f.integer with
      | error fault => rw [hint] at h; cases h
      | ok value =>
        rw [hint] at h
        cases value with
        | none =>
          cases h
          refine Or.inr ⟨?_, rfl⟩
          intro v hv
          rw [SaysOn, hint] at hv
          simp at hv
        | some v =>
          cases h
          refine Or.inl ⟨v, ⟨?_, hint⟩, rfl⟩
          rw [hpath]
          simpa using hown
    · rename_i hown
      cases h
      refine Or.inr ⟨?_, rfl⟩
      intro v hv
      rw [SaysOn, hpath] at hv
      exact hown (by simpa using hv.1)

theorem clueAbout?_known {f : Fact} (h : f.IsKnown) (v : Int) :
    f.clueAbout? v = some (.equals v) := by
  rw [clueAbout?, if_pos ((kindOf_isText_iff (by decide)).2 h)]

theorem not_isKnown_of_isImpossible {f : Fact} (h : f.IsImpossible) : ¬ f.IsKnown := by
  intro hknown
  rw [IsKnown, h] at hknown
  simp at hknown

theorem clueAbout?_impossible {f : Fact} (h : f.IsImpossible) (v : Int) :
    (f.bound = some (.text "Upper") ∧ f.clueAbout? v = some (.atLeast (v + 1))) ∨
    (f.bound = some (.text "Lower") ∧ f.clueAbout? v = some (.atMost (v - 1))) ∨
    (f.bound ≠ some (.text "Upper") ∧ f.bound ≠ some (.text "Lower") ∧
      f.clueAbout? v = some (.differs v)) := by
  have hknown := not_isKnown_of_isImpossible h
  rw [IsKnown, ← kindOf_isText_iff (by decide)] at hknown
  rw [clueAbout?, if_neg hknown, if_pos ((kindOf_isText_iff (by decide)).2 h)]
  by_cases hupper : f.boundOf.isText "Upper" = true
  · rw [if_pos hupper]
    exact Or.inl ⟨(boundOf_isText_iff (by decide) (by decide)).1 hupper, rfl⟩
  · rw [if_neg hupper]
    rw [boundOf_isText_iff (by decide) (by decide)] at hupper
    by_cases hlower : f.boundOf.isText "Lower" = true
    · rw [if_pos hlower]
      exact Or.inr (Or.inl ⟨(boundOf_isText_iff (by decide) (by decide)).1 hlower, rfl⟩)
    · rw [if_neg hlower]
      rw [boundOf_isText_iff (by decide) (by decide)] at hlower
      exact Or.inr (Or.inr ⟨hupper, hlower, rfl⟩)

theorem clueAbout?_other {f : Fact} (hknown : ¬ f.IsKnown) (himp : ¬ f.IsImpossible) (v : Int) :
    f.clueAbout? v = none := by
  rw [IsKnown, ← kindOf_isText_iff (by decide)] at hknown
  rw [IsImpossible, ← kindOf_isText_iff (by decide)] at himp
  rw [clueAbout?, if_neg hknown, if_neg himp]

/-- The fact rules something out or fixes the value on the path. -/
def Counts (f : Fact) (path : Int) : Prop :=
  (f.IsKnown ∨ f.IsImpossible) ∧ ∃ v, f.SaysOn path v

/-- What a fact can tell on a path. -/
inductive Tells (f : Fact) (path : Int) : Option Clue → Prop
  | known {v : Int} (hkind : f.IsKnown) (hv : f.SaysOn path v) : Tells f path (some (.equals v))
  | above {v : Int} (hkind : f.IsImpossible) (hbound : f.bound = some (.text "Upper"))
    (hv : f.SaysOn path v) : Tells f path (some (.atLeast (v + 1)))
  | below {v : Int} (hkind : f.IsImpossible) (hbound : f.bound = some (.text "Lower"))
    (hv : f.SaysOn path v) : Tells f path (some (.atMost (v - 1)))
  | hole {v : Int} (hkind : f.IsImpossible) (hupper : f.bound ≠ some (.text "Upper"))
    (hlower : f.bound ≠ some (.text "Lower")) (hv : f.SaysOn path v) :
    Tells f path (some (.differs v))
  | nothing (hnot : ¬ f.Counts path) : Tells f path none

theorem tells_of_clueOn {f : Fact} {path : Int} {clue : Option Clue}
    (h : f.clueOn path = .ok clue) : f.Tells path clue := by
  rcases clueOn_cases h with ⟨v, hv, rfl⟩ | ⟨hnone, rfl⟩
  · by_cases hknown : f.IsKnown
    · rw [clueAbout?_known hknown]
      exact .known hknown hv
    · by_cases himp : f.IsImpossible
      · rcases clueAbout?_impossible himp v with ⟨hb, hc⟩ | ⟨hb, hc⟩ | ⟨hupper, hlower, hc⟩
        · rw [hc]
          exact .above himp hb hv
        · rw [hc]
          exact .below himp hb hv
        · rw [hc]
          exact .hole himp hupper hlower hv
      · rw [clueAbout?_other hknown himp]
        exact .nothing fun hcounts => hcounts.1.elim hknown himp
  · exact .nothing fun ⟨_, v, hv⟩ => hnone v hv

end Fact

/-! ## What is learned from facts -/

namespace Knowledge

/-- The integers that bounds and holes leave. -/
def Allows (k : Knowledge) (n : Int) : Prop := k.lo.Admits n ∧ k.hi.Admits n ∧ n ∉ k.holes

/-- Takes in what a fact says, if it says something. -/
def hear (k : Knowledge) : Option Clue → Knowledge
  | some clue => k.learn clue
  | none => k

theorem allows_learn {k : Knowledge} {clue : Clue} {n : Int} :
    (k.learn clue).Allows n ↔ k.Allows n ∧
      match clue with
      | .equals _ => True
      | .atLeast a => a ≤ n
      | .atMost b => n ≤ b
      | .differs m => n ≠ m := by
  cases clue with
  | equals m => simp [learn, Allows]
  | atLeast a =>
    simp only [learn, Allows, Lower.admits_tighten]
    tauto
  | atMost b =>
    simp only [learn, Allows, Upper.admits_tighten]
    tauto
  | differs m =>
    simp only [learn, Allows, List.mem_append, List.mem_singleton]
    tauto

/-- One fact narrows bounds and holes by exactly what it rules out. -/
theorem allows_hear {f : Fact} {path : Int} {clue : Option Clue} (h : f.clueOn path = .ok clue)
    (k : Knowledge) (n : Int) :
    (k.hear clue).Allows n ↔
      k.Allows n ∧ (f.IsImpossible → ∀ v, f.SaysOn path v → f.Leaves v n) := by
  cases Fact.tells_of_clueOn h with
  | known hkind hv =>
    have himp : ¬ f.IsImpossible := fun himp => Fact.not_isKnown_of_isImpossible himp hkind
    simp [hear, allows_learn, himp]
  | above hkind hbound hv =>
    rw [hv.forall_iff]
    simp [hear, allows_learn, Fact.Leaves, hbound, hkind]
  | below hkind hbound hv =>
    rw [hv.forall_iff]
    simp [hear, allows_learn, Fact.Leaves, hbound, hkind]
  | hole hkind hupper hlower hv =>
    rw [hv.forall_iff]
    simp [hear, allows_learn, Fact.Leaves, hupper, hlower, hkind]
  | nothing hnot =>
    refine (and_iff_left ?_).symm
    intro himp v hv
    exact absurd ⟨Or.inr himp, v, hv⟩ hnot

/-- One fact replaces the known value exactly if it gives one. -/
theorem known_hear {f : Fact} {path : Int} {clue : Option Clue} (h : f.clueOn path = .ok clue)
    (k : Knowledge) (m : Int) :
    (k.hear clue).known = some m ↔
      (f.IsKnown ∧ f.SaysOn path m) ∨
        ((f.IsKnown → ∀ v, ¬ f.SaysOn path v) ∧ k.known = some m) := by
  -- a fact that is not of the kind `known` changes nothing here
  have hother : ¬ f.IsKnown → (k.hear clue).known = k.known →
      ((k.hear clue).known = some m ↔ (f.IsKnown ∧ f.SaysOn path m) ∨
        ((f.IsKnown → ∀ v, ¬ f.SaysOn path v) ∧ k.known = some m)) := by
    intro hknown hsame
    simp [hsame, hknown]
  cases Fact.tells_of_clueOn h with
  | @known v hkind hv =>
    have hm : f.SaysOn path m ↔ v = m := ⟨hv.unique, fun heq => heq ▸ hv⟩
    have hsome : ¬ ∀ w, ¬ f.SaysOn path w := fun hw => hw v hv
    simp [hear, learn, hkind, hm, hsome]
  | above hkind hbound hv => exact hother (Fact.not_isKnown_of_isImpossible hkind) rfl
  | below hkind hbound hv => exact hother (Fact.not_isKnown_of_isImpossible hkind) rfl
  | hole hkind hupper hlower hv => exact hother (Fact.not_isKnown_of_isImpossible hkind) rfl
  | nothing hnot =>
    have hsilent : ¬ (f.IsKnown ∧ f.SaysOn path m) := fun hm => hnot ⟨Or.inl hm.1, m, hm.2⟩
    have hnone : f.IsKnown → ∀ v, ¬ f.SaysOn path v :=
      fun hknown v hv => hnot ⟨Or.inl hknown, v, hv⟩
    rw [or_iff_right hsilent]
    exact (and_iff_right hnone).symm

/-! ### A list of facts -/

/-- What is learned from the clues of facts is what is heard fact by fact. -/
theorem foldl_learn_filterMap (clues : List (Option Clue)) (k : Knowledge) :
    (clues.filterMap id).foldl learn k = clues.foldl hear k := by
  induction clues generalizing k with
  | nil => rfl
  | cons clue rest ih =>
    cases clue with
    | none => exact ih k
    | some c => exact ih (k.learn c)

/-- Whatever each fact narrows by a condition of its own, a list of facts narrows by the conditions
of all of them. -/
theorem foldl_hear_iff {P : Knowledge → Prop} {C : Fact → Prop} {path : Int}
    (hstep : ∀ {f : Fact} {clue : Option Clue} (k : Knowledge), f.clueOn path = .ok clue →
      (P (k.hear clue) ↔ P k ∧ C f))
    {facts : List Fact} {clues : List (Option Clue)}
    (h : facts.mapM (·.clueOn path) = .ok clues) (k : Knowledge) :
    P (clues.foldl hear k) ↔ P k ∧ ∀ f ∈ facts, C f := by
  induction facts generalizing k clues with
  | nil =>
    cases h
    simp
  | cons f facts ih =>
    obtain ⟨clue, rest, hclue, hrest, rfl⟩ := mapM_cons_ok h
    rw [List.foldl_cons, ih hrest, hstep k hclue, List.forall_mem_cons, and_assoc]

theorem allows_foldl_hear {facts : List Fact} {path : Int} {clues : List (Option Clue)}
    (h : facts.mapM (·.clueOn path) = .ok clues) (k : Knowledge) (n : Int) :
    (clues.foldl hear k).Allows n ↔ k.Allows n ∧ Fact.NotExcluded facts path n :=
  foldl_hear_iff (P := fun k => k.Allows n) (fun k hclue => allows_hear hclue k n) h k

theorem known_foldl_hear {facts : List Fact} {path : Int} {clues : List (Option Clue)}
    (h : facts.mapM (·.clueOn path) = .ok clues) (k : Knowledge) (m : Int) :
    (clues.foldl hear k).known = some m ↔
      Fact.LastKnown facts path m ∨ (Fact.NoneKnown facts path ∧ k.known = some m) := by
  induction facts generalizing k clues with
  | nil =>
    cases h
    simp [Fact.LastKnown, Fact.NoneKnown]
  | cons f facts ih =>
    obtain ⟨clue, rest, hclue, hrest, rfl⟩ := mapM_cons_ok h
    rw [List.foldl_cons, ih hrest, known_hear hclue, Fact.lastKnown_cons, Fact.noneKnown_cons]
    tauto

/-! ### The ranges of what is known -/

/-- Between the bounds and without the holes: a set of just these integers in its shortest form, or
a fault if there are none, because the bounds cross or because the holes take everything. -/
theorem possible_spec (k : Knowledge) (path : Int) :
    (∃ r, k.possible path = .ok r ∧ (∀ n, n ∈ r ↔ k.Allows n) ∧ r.Gapped) ∨
      ((∀ n, ¬ k.Allows n) ∧
        ((∃ a b, k.lo = .limit a ∧ k.hi = .limit b ∧ b < a ∧
          k.possible path = .error (.contradictoryBounds path a b)) ∨
        (k.lo.Below k.hi ∧ k.possible path = .error .empty))) := by
  by_cases hbelow : k.lo.Below k.hi
  · have hwhole := Interval.between_of_below hbelow
    by_cases hholes : k.holes = []
    · refine Or.inl ⟨.ofInterval ⟨k.lo, k.hi, hbelow⟩, ?_, ?_, IntervalSet.gapped_ofInterval _⟩
      · simp [possible, hwhole, hholes, bind, Except.bind, pure, Except.pure]
      · intro n
        simp [Interval.mem_iff, Allows, hholes]
    · have heq : k.possible path =
          ((IntervalSet.ofInterval ⟨k.lo, k.hi, hbelow⟩).exclude k.holes).mapError .ofFlaw := by
        simp [possible, hwhole, hholes, bind, Except.bind]
      rcases IntervalSet.exclude_spec (.ofInterval ⟨k.lo, k.hi, hbelow⟩) k.holes with
        ⟨s, hs, hmem⟩ | ⟨hs, hall⟩
      · refine Or.inl ⟨s, by rw [heq, hs]; rfl, ?_, (IntervalSet.gapped_ofInterval _).exclude hs⟩
        intro n
        rw [hmem, IntervalSet.mem_ofInterval, Interval.mem_iff, Allows, and_assoc]
      · refine Or.inr ⟨?_, Or.inr ⟨hbelow, by rw [heq, hs]; rfl⟩⟩
        rintro n ⟨hlo, hhi, hnot⟩
        exact hnot (hall n (IntervalSet.mem_ofInterval.2 ⟨hlo, hhi⟩))
  · -- crossing bounds: no integer lies between them
    refine Or.inr ⟨fun n hn => hbelow (Lower.below_iff.2 ⟨n, hn.1, hn.2.1⟩), Or.inl ?_⟩
    obtain ⟨lo, hi, holes, known⟩ := k
    cases lo with
    | unbounded => cases hi <;> exact absurd trivial hbelow
    | limit a =>
      cases hi with
      | unbounded => exact absurd trivial hbelow
      | limit b =>
        have hab : ¬ a ≤ b := hbelow
        refine ⟨a, b, rfl, rfl, not_le.1 hab, ?_⟩
        simp [possible, Interval.between, hab, bind, Except.bind]

/-- What can be made of what is known, and when. -/
inductive Answer (k : Knowledge) (path : Int) : Except RangeFault IntervalSet → Prop
  /-- Nothing is known for sure, and something is left. -/
  | range {r : IntervalSet} (hknown : k.known = none) (hmem : ∀ n, n ∈ r ↔ k.Allows n)
    (hgapped : r.Gapped) : Answer k path (.ok r)
  /-- The known value is left. -/
  | value {m : Int} (hknown : k.known = some m) (hallows : k.Allows m) :
    Answer k path (.ok (.point m))
  /-- The bounds cross. -/
  | bounds {a b : Int} (hlo : k.lo = .limit a) (hhi : k.hi = .limit b) (hcross : b < a) :
    Answer k path (.error (.contradictoryBounds path a b))
  /-- The bounds leave something, and the holes take all of it. -/
  | holes (hbelow : k.lo.Below k.hi) (hnone : ∀ n, ¬ k.Allows n) : Answer k path (.error .empty)
  /-- Something is left, but not the known value. -/
  | excluded {m : Int} (hsome : ∃ n, k.Allows n) (hknown : k.known = some m)
    (hnot : ¬ k.Allows m) : Answer k path (.error (.knownExcluded path m))

theorem ranges_answer (k : Knowledge) (path : Int) : Answer k path (k.ranges path) := by
  rcases possible_spec k path with
    ⟨r, hr, hmem, hgapped⟩ | ⟨hnone, ⟨a, b, hlo, hhi, hcross, hfault⟩ | ⟨hbelow, hfault⟩⟩
  · cases hknown : k.known with
    | none =>
      have heq : k.ranges path = .ok r := by
        simp [ranges, hr, hknown, bind, Except.bind, pure, Except.pure]
      rw [heq]
      exact .range hknown hmem hgapped
    | some m =>
      by_cases hm : m ∈ r
      · have heq : k.ranges path = .ok (.point m) := by
          simp [ranges, hr, hknown, hm, bind, Except.bind, pure, Except.pure]
        rw [heq]
        exact .value hknown ((hmem m).1 hm)
      · have heq : k.ranges path = .error (.knownExcluded path m) := by
          simp [ranges, hr, hknown, hm, bind, Except.bind, throw, throwThe, MonadExceptOf.throw]
        rw [heq]
        obtain ⟨n, hn⟩ := r.exists_mem
        exact .excluded ⟨n, (hmem n).1 hn⟩ hknown fun hallows => hm ((hmem m).2 hallows)
  · have heq : k.ranges path = .error (.contradictoryBounds path a b) := by
      simp [ranges, hfault, bind, Except.bind]
    rw [heq]
    exact .bounds hlo hhi hcross
  · have heq : k.ranges path = .error .empty := by simp [ranges, hfault, bind, Except.bind]
    rw [heq]
    exact .holes hbelow hnone

/-- The values that the operand may have: those that bounds and holes leave and that equal the known
value, or a fault if there are none. -/
theorem ranges_spec (k : Knowledge) (path : Int) :
    (∃ r, k.ranges path = .ok r ∧ ∀ n, n ∈ r ↔ k.Allows n ∧ ∀ m, k.known = some m → n = m) ∨
      ((∃ f, k.ranges path = .error f) ∧
        ∀ n, ¬ (k.Allows n ∧ ∀ m, k.known = some m → n = m)) := by
  have h := ranges_answer k path
  generalize k.ranges path = answer at h ⊢
  cases h with
  | range hknown hmem hgapped => exact Or.inl ⟨_, rfl, by simp [hmem, hknown]⟩
  | value hknown hallows =>
    refine Or.inl ⟨_, rfl, fun n => ?_⟩
    rw [IntervalSet.mem_point]
    constructor
    · rintro rfl
      exact ⟨hallows, fun k hk => Option.some.inj (hknown.symm.trans hk)⟩
    · rintro ⟨-, hn⟩
      exact hn _ hknown
  | bounds hlo hhi hcross =>
    refine Or.inr ⟨⟨_, rfl⟩, ?_⟩
    rintro n ⟨⟨hn, hn', -⟩, -⟩
    rw [hlo, Lower.admits_limit] at hn
    rw [hhi, Upper.admits_limit] at hn'
    omega
  | holes hbelow hnone => exact Or.inr ⟨⟨_, rfl⟩, fun n hn => hnone n hn.1⟩
  | excluded hsome hknown hnot =>
    refine Or.inr ⟨⟨_, rfl⟩, ?_⟩
    rintro n ⟨hn, heq⟩
    obtain rfl := heq _ hknown
    exact hnot hn

end Knowledge

/-! ## The range of a token -/

namespace Token

/-- The range of a token is what is made of all that is heard from its facts. -/
theorem factRanges_eq {t : Token} {path : Int} {heard : List (Option Clue)}
    (h : t.facts.mapM (·.clueOn path) = .ok heard) :
    t.factRanges path =
      ((heard.foldl Knowledge.hear {}).ranges path).mapError RangeFault.raised := by
  have hclues : t.clues path = .ok (heard.filterMap id) := by
    unfold clues
    rw [h]
    rfl
  unfold factRanges
  rw [hclues, ← Knowledge.foldl_learn_filterMap]
  rfl

/-- **The range of an operand is exact.**  If the facts of a token can be read, then either its
range holds exactly the integers that they leave possible, or no integer is possible and that is a
range fault. -/
theorem factRanges_spec {t : Token} {path : Int} {clues : List Clue}
    (h : t.clues path = .ok clues) :
    (∃ r, t.factRanges path = .ok r ∧ ∀ n, n ∈ r ↔ Fact.Possible t.facts path n) ∨
      ((∃ f : RangeFault, t.factRanges path = .error f.raised) ∧
        ∀ n, ¬ Fact.Possible t.facts path n) := by
  obtain ⟨heard, hheard⟩ : ∃ heard, t.facts.mapM (·.clueOn path) = .ok heard := by
    unfold Token.clues at h
    cases hm : t.facts.mapM (·.clueOn path) with
    | error fault => rw [hm] at h; cases h
    | ok heard => exact ⟨heard, rfl⟩
  -- what is known in the end, read off the facts
  have hpossible : ∀ n, ((heard.foldl Knowledge.hear {}).Allows n ∧
      ∀ m, (heard.foldl Knowledge.hear {}).known = some m → n = m) ↔
        Fact.Possible t.facts path n := by
    intro n
    simp only [Knowledge.allows_foldl_hear hheard, Knowledge.known_foldl_hear hheard,
      Fact.Possible]
    simp [Knowledge.Allows]
  have heq := factRanges_eq hheard
  rcases Knowledge.ranges_spec (heard.foldl Knowledge.hear {}) path with
    ⟨r, hr, hmem⟩ | ⟨⟨f, hf⟩, hnone⟩
  · refine Or.inl ⟨r, by rw [heq, hr]; rfl, ?_⟩
    intro n
    rw [hmem, hpossible]
  · refine Or.inr ⟨⟨f, by rw [heq, hf]; rfl⟩, ?_⟩
    intro n hn
    exact hnone n ((hpossible n).2 hn)

end Token

end DeadCast

import DeadCast.Proofs.Dump.RangeExactness
import Mathlib.Tactic

/-!
# The order of facts

Facts come in a list, but what they say should not depend on their order.  Bounds and holes do not:
they are read off the facts as a set.  A known value does, because of several the last one counts.

* The answer about a token depends on the facts as a set and on the last known value only
  (`Token.factRanges_congr_mem`).
* So facts whose known values agree give the same answer in every order, a set or a fault.  If known
  values differ, two orders give the same answer exactly if the same value comes last in both, or if
  both values that come last are ruled out (`Token.rangeOn_perm`).
* Two known values that differ are therefore not reported, although no integer equals both: the answer
  is whichever comes last (`Token.rangeOn_lastKnown`).
-/

namespace DeadCast

namespace Fact

/-! ## What does not depend on the order -/

section SameFacts

variable {facts others : List Fact} (h : ∀ f, f ∈ facts ↔ f ∈ others) {path : Int}

include h

theorem notExcluded_congr {n : Int} : NotExcluded facts path n ↔ NotExcluded others path n := by
  simp only [NotExcluded, h]

theorem boundBelow_congr {v : Int} : BoundBelow facts path v ↔ BoundBelow others path v := by
  simp only [BoundBelow, h]

theorem boundAbove_congr {v : Int} : BoundAbove facts path v ↔ BoundAbove others path v := by
  simp only [BoundAbove, h]

/-- The same facts clash in the same way if the same known value comes last. -/
theorem Clash.congr (hlast : ∀ k, LastKnown facts path k ↔ LastKnown others path k)
    {f : RangeFault} (hclash : Clash facts path f) : Clash others path f := by
  cases hclash with
  | bounds hu hl hcross =>
    simp only [boundBelow_congr h] at hu
    simp only [boundAbove_congr h] at hl
    exact .bounds hu hl hcross
  | holes hbounds hnone =>
    simp only [boundBelow_congr h, boundAbove_congr h] at hbounds
    simp only [notExcluded_congr h] at hnone
    exact .holes hbounds hnone
  | known hsome hknown hnot =>
    simp only [notExcluded_congr h] at hsome hnot
    exact .known hsome ((hlast _).1 hknown) hnot

end SameFacts

section Clashes

variable {facts : List Fact} {path : Int} {f g : RangeFault}

/-- If the bounds cross there is no other clash. -/
theorem Clash.eq_of_bounds {u l : Int} (hu : IsGreatest {v | BoundBelow facts path v} u)
    (hl : IsLeast {v | BoundAbove facts path v} l) (hcross : l - 1 < u + 1)
    (h : Clash facts path f) : f = .contradictoryBounds path (u + 1) (l - 1) := by
  cases h with
  | bounds hu' hl' _ => rw [hu.unique hu', hl.unique hl']
  | holes hbounds _ =>
    obtain ⟨n, habove, hbelow⟩ := hbounds
    have hlow := habove u hu.1
    have hhigh := hbelow l hl.1
    omega
  | known hsome _ _ =>
    obtain ⟨n, hn⟩ := hsome
    exact absurd hn (not_notExcluded_of_bounds hu.1 hl.1 hcross n)

/-- Facts clash in one way only. -/
theorem Clash.unique (hf : Clash facts path f) (hg : Clash facts path g) : f = g := by
  cases hf with
  | bounds hu hl hcross => exact (hg.eq_of_bounds hu hl hcross).symm
  | holes hbounds hnone =>
    cases hg with
    | bounds hu hl hcross => exact Clash.eq_of_bounds hu hl hcross (.holes hbounds hnone)
    | holes _ _ => rfl
    | known hsome _ _ =>
      obtain ⟨n, hn⟩ := hsome
      exact absurd hn (hnone n)
  | known hsome hknown hnot =>
    cases hg with
    | bounds hu hl hcross => exact Clash.eq_of_bounds hu hl hcross (.known hsome hknown hnot)
    | holes _ hnone =>
      obtain ⟨n, hn⟩ := hsome
      exact absurd hn (hnone n)
    | known _ hknown' _ => rw [hknown.unique hknown']

end Clashes

/-! ## Known values -/

/-- All known values on the path are equal. -/
def KnownAgree (facts : List Fact) (path : Int) : Prop :=
  ∀ f ∈ facts, f.IsKnown → ∀ g ∈ facts, g.IsKnown →
    ∀ v w, f.SaysOn path v → g.SaysOn path w → v = w

/-- All facts on the path are true of `n`: none rules it out, and every known value is `n`. -/
def Satisfied (facts : List Fact) (path n : Int) : Prop :=
  NotExcluded facts path n ∧ ∀ f ∈ facts, f.IsKnown → ∀ v, f.SaysOn path v → v = n

section Known

variable {facts others : List Fact} {path : Int}

theorem LastKnown.exists_mem {k : Int} (h : LastKnown facts path k) :
    ∃ f ∈ facts, f.IsKnown ∧ f.SaysOn path k := by
  obtain ⟨before, f, after, rfl, hknown, hsays, -⟩ := h
  exact ⟨f, by simp, hknown, hsays⟩

/-- One of several known values comes last. -/
theorem exists_lastKnown {f : Fact} {v : Int} (hf : f ∈ facts) (hknown : f.IsKnown)
    (hv : f.SaysOn path v) : ∃ k, LastKnown facts path k := by
  induction facts generalizing f v with
  | nil => cases hf
  | cons g rest ih =>
    by_cases hlast : ∃ k, LastKnown rest path k
    · obtain ⟨k, hk⟩ := hlast
      exact ⟨k, lastKnown_cons.2 (Or.inl hk)⟩
    · have hnone : NoneKnown rest path := fun f' hf' hknown' w hw => hlast (ih hf' hknown' hw)
      rcases List.mem_cons.1 hf with rfl | hrest
      · exact ⟨v, lastKnown_cons.2 (Or.inr ⟨hknown, hv, hnone⟩)⟩
      · exact absurd hv (hnone f hrest hknown v)

/-- If known values agree, each of them is the last. -/
theorem KnownAgree.lastKnown_iff (h : KnownAgree facts path) {k : Int} :
    LastKnown facts path k ↔ ∃ f ∈ facts, f.IsKnown ∧ f.SaysOn path k := by
  constructor
  · exact LastKnown.exists_mem
  · rintro ⟨f, hf, hknown, hsays⟩
    obtain ⟨m, hm⟩ := exists_lastKnown hf hknown hsays
    obtain ⟨g, hg, hknown', hsays'⟩ := hm.exists_mem
    rwa [h f hf hknown g hg hknown' k m hsays hsays']

theorem KnownAgree.congr (h : ∀ f, f ∈ facts ↔ f ∈ others) (hagree : KnownAgree facts path) :
    KnownAgree others path := by
  simpa only [KnownAgree, h] using hagree

/-- If known values agree, an integer is possible exactly if all facts are true of it. -/
theorem KnownAgree.possible_iff (h : KnownAgree facts path) {n : Int} :
    Possible facts path n ↔ Satisfied facts path n := by
  simp only [Possible, Satisfied, h.lastKnown_iff]
  constructor
  · rintro ⟨hleft, hlast⟩
    exact ⟨hleft, fun f hf hknown v hsays => (hlast v ⟨f, hf, hknown, hsays⟩).symm⟩
  · rintro ⟨hleft, hall⟩
    refine ⟨hleft, ?_⟩
    rintro k ⟨f, hf, hknown, hsays⟩
    exact (hall f hf hknown k hsays).symm

end Known

end Fact

/-! ## Answers in two orders -/

namespace Token

section SameFacts

variable {facts others : List Fact} {path : Int} {answer other : Except RangeFault IntervalSet}

theorem Answer.congr (h : ∀ f, f ∈ facts ↔ f ∈ others)
    (hlast : ∀ k, Fact.LastKnown facts path k ↔ Fact.LastKnown others path k)
    (hanswer : Answer facts path answer) : Answer others path answer := by
  cases hanswer with
  | range hknown hmem hgapped =>
    simp only [hlast] at hknown
    simp only [Fact.notExcluded_congr h] at hmem
    exact .range hknown hmem hgapped
  | value hknown hk => exact .value ((hlast _).1 hknown) ((Fact.notExcluded_congr h).1 hk)
  | clash hclash => exact .clash (hclash.congr h hlast)

/-- Facts come to one answer only. -/
theorem Answer.unique (ha : Answer facts path answer) (ho : Answer facts path other) :
    answer = other := by
  by_cases hcontra : Fact.Contradictory facts path
  · obtain ⟨f, hf, rfl⟩ := ha.clash_of_contradictory hcontra
    obtain ⟨g, hg, rfl⟩ := ho.clash_of_contradictory hcontra
    rw [hf.unique hg]
  · by_cases hknown : ∃ k, Fact.LastKnown facts path k
    · obtain ⟨k, hk⟩ := hknown
      rw [ha.eq_point hcontra hk, ho.eq_point hcontra hk]
    · have hnone : ∀ k, ¬ Fact.LastKnown facts path k := fun k hk => hknown ⟨k, hk⟩
      obtain ⟨r, rfl, hr, hgapped⟩ := ha.eq_ranges hcontra hnone
      obtain ⟨s, rfl, hs, hgapped'⟩ := ho.eq_ranges hcontra hnone
      rw [IntervalSet.eq_of_gapped hgapped hgapped' fun n => (hr n).trans (hs n).symm]

end SameFacts

variable {t : Token} {path : Int}

/-- **What the answer about a token depends on**: its facts as a set, and the known value that comes
last. -/
theorem factRanges_congr_mem {u : Token} (hread : ∀ f ∈ t.facts, f.IsReadable)
    (h : ∀ f, f ∈ t.facts ↔ f ∈ u.facts)
    (hlast : ∀ k, Fact.LastKnown t.facts path k ↔ Fact.LastKnown u.facts path k) :
    u.factRanges path = t.factRanges path := by
  have hread' : ∀ f ∈ u.facts, f.IsReadable := fun f hf => hread f ((h f).2 hf)
  obtain ⟨answer, hanswer, heq⟩ := factRanges_answer hread path
  obtain ⟨other, hother, heq'⟩ := factRanges_answer hread' path
  rw [heq, heq', (hanswer.congr h hlast).unique hother]

/-- With a last known value there is a clash exactly if it is ruled out. -/
theorem lastKnown_excluded_iff (hint : t.IsIntegral) (hread : ∀ f ∈ t.facts, f.IsReadable)
    {k : Int} (hk : Fact.LastKnown t.facts path k) :
    (∃ f : RangeFault, t.rangeOn (.int path) = .error f.raised) ↔
      ¬ Fact.NotExcluded t.facts path k := by
  rcases rangeOn_possible_or_clash hint hread path with ⟨r, hr, hmem⟩ | ⟨f, hclash, hf⟩
  · obtain ⟨n, hn⟩ := r.exists_mem
    obtain ⟨hleft, hlast⟩ := (hmem n).1 hn
    rw [hlast k hk] at hleft
    simp [hr, hleft]
  · have hnone := Fact.contradictory_iff.1 hclash.contradictory
    have hnot : ¬ Fact.NotExcluded t.facts path k :=
      fun hleft => hnone k ⟨hleft, fun m hm => hk.unique hm⟩
    exact iff_of_true ⟨f, hf⟩ hnot

/-- **Facts in another order.**  The facts of an integer operand can be read.

If its known values on the path agree, every order of the facts gives the same answer, a range or a
fault; and if no integer makes all facts true, it is the fault that names the clash.

If there are known values, and `k` comes last in one order and `m` in another, the two answers are the
same range or both a clash exactly if `k` and `m` are equal or both are ruled out. -/
theorem rangeOn_perm (hint : t.IsIntegral) (hread : ∀ f ∈ t.facts, f.IsReadable) (path : Int)
    {others : List Fact} (hperm : t.facts.Perm others) :
    let answer := t.rangeOn (.int path)
    let reordered := { t with facts := others }.rangeOn (.int path)
    (Fact.KnownAgree t.facts path → reordered = answer ∧
      ((∀ n, ¬ Fact.Satisfied t.facts path n) →
        ∃ f, Fact.Clash t.facts path f ∧ answer = .error f.raised)) ∧
    ∀ k m, Fact.LastKnown t.facts path k → Fact.LastKnown others path m →
      ((∃ r, answer = .ok (.ranges r) ∧ reordered = .ok (.ranges r)) ∨
        (∃ f g : RangeFault, answer = .error f.raised ∧ reordered = .error g.raised) ↔
      k = m ∨ (¬ Fact.NotExcluded t.facts path k ∧ ¬ Fact.NotExcluded t.facts path m)) := by
  intro answer reordered
  have hmem : ∀ f, f ∈ t.facts ↔ f ∈ others := fun f => hperm.mem_iff
  have hint' : { t with facts := others }.IsIntegral := hint
  have hread' : ∀ f ∈ others, f.IsReadable := fun f hf => hread f ((hmem f).2 hf)
  have hsame : (∀ k, Fact.LastKnown t.facts path k ↔ Fact.LastKnown others path k) →
      reordered = answer := by
    intro hlast
    have heq := factRanges_congr_mem (u := { t with facts := others }) hread hmem hlast
    simp only [reordered, answer, rangeOn_of_isIntegral hint, rangeOn_of_isIntegral hint', heq]
  refine ⟨fun hagree => ⟨hsame fun k => ?_, fun hnone => ?_⟩, fun k m hk hm => ?_⟩
  · simp only [hagree.lastKnown_iff, (hagree.congr hmem).lastKnown_iff, hmem]
  · rcases rangeOn_possible_or_clash hint hread path with ⟨r, -, hr⟩ | hclash
    · obtain ⟨n, hn⟩ := r.exists_mem
      exact absurd (hagree.possible_iff.1 ((hr n).1 hn)) (hnone n)
    · exact hclash
  · have hfault := lastKnown_excluded_iff hint hread hk
    have hfault' := lastKnown_excluded_iff hint' hread' hm
    rw [← Fact.notExcluded_congr hmem] at hfault'
    rw [← hfault, ← hfault']
    constructor
    · rintro (⟨r, hr, hr'⟩ | ⟨f, g, hf, hg⟩)
      · -- a member of the one range is both `k` and `m`
        obtain ⟨n, hn⟩ := r.exists_mem
        have hnk := ((mem_iff_of_rangeOn hr n).1 hn).2 k hk
        have hnm := ((mem_iff_of_rangeOn hr' n).1 hn).2 m hm
        exact Or.inl (hnk.symm.trans hnm)
      · exact Or.inr ⟨⟨f, hf⟩, g, hg⟩
    · rintro (rfl | ⟨⟨f, hf⟩, g, hg⟩)
      · have heq := hsame fun n => ⟨fun hn => hn.unique hk ▸ hm, fun hn => hn.unique hm ▸ hk⟩
        rw [heq]
        rcases rangeOn_possible_or_clash hint hread path with ⟨r, hr, -⟩ | ⟨f, -, hf⟩
        · exact Or.inl ⟨r, hr, hr⟩
        · exact Or.inr ⟨f, f, hf, hf⟩
      · exact Or.inr ⟨f, g, hf, hg⟩

/-- Always `3`; `5` and more than `4` on path `1`. -/
def disputedFacts : List Fact :=
  [.about "known" "Point" 3 0, .about "known" "Point" 5 1, .about "impossible" "Upper" 4 1]

/-- On path `0` and backwards the answer is the same.  On path `1` it is not: `5` comes last in one
order, and `3`, which is ruled out, in the other. -/
theorem rangeOn_perm_disputedFacts :
    let t := ofFacts disputedFacts
    t.IsIntegral ∧ (∀ f ∈ t.facts, f.IsReadable) ∧ t.facts.Perm t.facts.reverse ∧
      Fact.KnownAgree t.facts 0 ∧
      { t with facts := t.facts.reverse }.rangeOn (.int 0) = t.rangeOn (.int 0) ∧
      Fact.LastKnown t.facts 1 5 ∧ Fact.LastKnown t.facts.reverse 1 3 ∧
      ∀ r, t.rangeOn (.int 1) = .ok (.ranges r) →
        { t with facts := t.facts.reverse }.rangeOn (.int 1) ≠ .ok (.ranges r) := by
  intro t
  have hint : t.IsIntegral := isIntegral_ofFacts _
  have hread : ∀ f ∈ t.facts, f.IsReadable := by
    simp [t, ofFacts, disputedFacts, Fact.isReadable_about]
  have hperm : t.facts.Perm t.facts.reverse := (List.reverse_perm _).symm
  have hagree : Fact.KnownAgree t.facts 0 := by
    simp only [t, ofFacts, disputedFacts, Fact.KnownAgree, Fact.saysOn_about, List.forall_mem_cons]
    simp
  have hlast : Fact.LastKnown t.facts 1 5 := by
    simp only [t, ofFacts, disputedFacts, Fact.lastKnown_cons, Fact.noneKnown_cons,
      Fact.saysOn_about, Fact.IsKnown]
    simp [Fact.about, Fact.NoneKnown]
  have hlast' : Fact.LastKnown t.facts.reverse 1 3 := by
    simp only [t, ofFacts, disputedFacts, List.reverse_cons, List.reverse_nil, List.nil_append,
      List.cons_append, Fact.lastKnown_cons, Fact.noneKnown_cons, Fact.saysOn_about, Fact.IsKnown]
    simp [Fact.about, Fact.NoneKnown]
  have hleft : Fact.NotExcluded t.facts 1 5 := by
    simp only [t, ofFacts, disputedFacts, Fact.notExcluded_cons, Fact.saysOn_about,
      Fact.IsImpossible, Fact.Leaves]
    simp [Fact.about, Fact.NotExcluded]
  refine ⟨hint, hread, hperm, hagree, ((rangeOn_perm hint hread 0 hperm).1 hagree).1, hlast, hlast',
    fun r hr hr' => ?_⟩
  rcases ((rangeOn_perm hint hread 1 hperm).2 5 3 hlast hlast').1 (Or.inl ⟨r, hr, hr'⟩) with
    hfalse | ⟨hnot, -⟩
  · omega
  · exact hnot hleft

/-- **Two known values that differ.**  An `int` is said to be `3` and to be `5`.  No integer is both,
but there is a range in either order, and it is the value that comes last. -/
theorem rangeOn_lastKnown :
    let three := Fact.about "known" "Point" 3 0
    let five := Fact.about "known" "Point" 5 0
    (ofFacts [three, five]).IsIntegral ∧ (∀ f ∈ [three, five], f.IsReadable) ∧
      [three, five].Perm [five, three] ∧ (∀ n, ¬ Fact.Satisfied [three, five] 0 n) ∧
      (ofFacts [three, five]).rangeOn (.int 0) = .ok (.ranges (.point 5)) ∧
      (ofFacts [five, three]).rangeOn (.int 0) = .ok (.ranges (.point 3)) := by
  intro three five
  refine ⟨isIntegral_ofFacts _, ?_, .swap .., ?_, rfl, rfl⟩
  · simp [three, five, Fact.isReadable_about]
  · rintro n ⟨-, hall⟩
    have hthree := hall three (by simp) rfl 3 ((Fact.saysOn_about ..).2 (by simp))
    have hfive := hall five (by simp) rfl 5 ((Fact.saysOn_about ..).2 (by simp))
    omega

end Token

end DeadCast

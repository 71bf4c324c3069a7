import DeadCast.Proofs.Dump.FactOrder
import Mathlib.Tactic

/-!
# No path is lost

A cast is checked on the paths that the facts about its operand name.  If they name one, path `0` is
left out, although facts that hold on every path may already make the cast dead.  Nothing is lost by
that, for two reasons.

* Every fact is heard on some path that is checked (`pathIds_spec`, `Fact.clueOn_of_pathId`).
* What holds on every path also holds on each, so an integer that is possible on a path is possible
  on path `0` (`Fact.KnownAgree.possible_zero`).  Hence a range only shrinks on the way from path `0`
  to another path, a dead cast stays dead, and a clash remains one (`Token.rangeOn_of_zero`).  This
  needs the known values on the path to agree, since of several only the last one counts.

`Configuration.castSites_cover` puts both together.  The clash on the other path need not be reported
as a range fault, because it may name an integer that is too long (`Token.rangeOn_outbid`).
-/

namespace DeadCast

/-! ## The paths that are checked -/

/-- A fact is heard on every path that it admits. -/
theorem Fact.clueOn_of_pathId {f : Fact} {path : Int}
    (h : f.pathId = .ok 0 ∨ f.pathId = .ok path) :
    f.clueOn path = f.integer.map (·.bind f.clueAbout?) := by
  obtain ⟨own, hown, hadmits⟩ : ∃ own, f.pathId = .ok own ∧ (own = 0 ∨ own = path) := by
    rcases h with h | h
    · exact ⟨0, h, Or.inl rfl⟩
    · exact ⟨path, h, Or.inr rfl⟩
  unfold clueOn
  rw [hown]
  simp only [bind, Except.bind, hadmits, if_true]
  cases f.integer <;> rfl

/-- The paths are those that facts name, ascending; if none is named, it is path `0`. -/
theorem pathIds_named {facts : List Fact} (hnames : ∀ f ∈ facts, ∃ own, f.pathId = .ok own) :
    ∃ paths, pathIds facts = .ok paths ∧
      ((∃ f ∈ facts, ∃ q, f.pathId = .ok q ∧ q ≠ 0) →
        ∀ p, p ∈ paths ↔ p ≠ 0 ∧ ∃ f ∈ facts, f.pathId = .ok p) ∧
      ((¬ ∃ f ∈ facts, ∃ q, f.pathId = .ok q ∧ q ≠ 0) → paths = [0]) := by
  cases hids : facts.mapM Fact.pathId with
  | error fault =>
    obtain ⟨f, hf, hfault⟩ := mapM_error hids
    obtain ⟨own, hown⟩ := hnames f hf
    rw [hown] at hfault
    cases hfault
  | ok ids =>
    have hnamed : ∀ p, p ∈ ascending (ids.filter (· ≠ 0)) ↔
        p ≠ 0 ∧ ∃ f ∈ facts, f.pathId = .ok p := by
      intro p
      rw [mem_ascending, List.mem_filter, mem_mapM_ok hids, and_comm]
      simp
    have heq : pathIds facts = .ok (if (ascending (ids.filter (· ≠ 0))).isEmpty then [0]
        else ascending (ids.filter (· ≠ 0))) := by
      unfold pathIds
      rw [hids]
      rfl
    refine ⟨_, heq, ?_, ?_⟩
    · rintro ⟨f, hf, q, hq, hne⟩
      have hmem := (hnamed q).2 ⟨hne, f, hf, hq⟩
      rw [if_neg (by simpa using List.ne_nil_of_mem hmem)]
      exact hnamed
    · intro hnone
      have hnil : ascending (ids.filter (· ≠ 0)) = [] := by
        refine List.eq_nil_iff_forall_not_mem.2 fun p hp => ?_
        obtain ⟨hne, f, hf, hpath⟩ := (hnamed p).1 hp
        exact hnone ⟨f, hf, p, hpath, hne⟩
      rw [if_pos (by simpa using hnil)]

theorem pathIds_spec {facts : List Fact} (hread : ∀ f ∈ facts, f.IsReadable) :
    ∃ paths, pathIds facts = .ok paths ∧
      ((∃ f ∈ facts, ∃ q, f.pathId = .ok q ∧ q ≠ 0) →
        ∀ p, p ∈ paths ↔ p ≠ 0 ∧ ∃ f ∈ facts, f.pathId = .ok p) ∧
      ((¬ ∃ f ∈ facts, ∃ q, f.pathId = .ok q ∧ q ≠ 0) → paths = [0]) :=
  pathIds_named fun f hf => (hread f hf).1

/-- Every fact is admitted on one of the paths. -/
theorem exists_mem_pathIds {facts : List Fact} {paths : List Int}
    (hread : ∀ f ∈ facts, f.IsReadable) (h : pathIds facts = .ok paths) :
    ∀ f ∈ facts, ∃ p ∈ paths, f.pathId = .ok 0 ∨ f.pathId = .ok p := by
  intro f hf
  obtain ⟨paths', hpaths, hnamed, hnone⟩ := pathIds_spec hread
  obtain rfl : paths' = paths := by simpa [hpaths] using h
  obtain ⟨⟨own, hown⟩, -⟩ := hread f hf
  by_cases hsome : ∃ g ∈ facts, ∃ q, g.pathId = .ok q ∧ q ≠ 0
  · by_cases hzero : own = 0
    · -- a fact about every path is admitted on any, and there is one
      obtain ⟨g, hg, q, hq, hne⟩ := hsome
      exact ⟨q, (hnamed ⟨g, hg, q, hq, hne⟩ q).2 ⟨hne, g, hg, hq⟩, Or.inl (hzero ▸ hown)⟩
    · exact ⟨own, (hnamed hsome own).2 ⟨hzero, f, hf, hown⟩, Or.inr hown⟩
  · have hzero : own = 0 := by
      by_contra hne
      exact hsome ⟨f, hf, own, hown, hne⟩
    exact ⟨0, by simp [hnone hsome], Or.inl (hzero ▸ hown)⟩

namespace Configuration

variable {c : Configuration} {kinds : Datum}

/-- The casts at one position are those of its operand's paths. -/
theorem sitesAt_eq {position k : Nat} {t operand : Token} {paths : List Int}
    (ht : c.token? position = some t) (hcast : c.castOperand kinds t = .ok (some k))
    (hoperand : c.token? k = some operand) (hpaths : pathIds operand.facts = .ok paths) :
    c.sitesAt kinds position =
      .ok (paths.map fun path => ⟨c, position, k, path, t.location⟩) := by
  unfold sitesAt
  simp only [ht, hcast, hoperand, Option.map_some, Option.getD_some, hpaths, bind, Except.bind,
    pure, Except.pure]

/-- What stands behind positions without a fault is listed behind their casts. -/
theorem sitesFrom_append {before : List Nat} {earlier : List CastSite}
    (h : c.sitesFrom kinds before = (earlier, .ok ())) (rest : List Nat) :
    c.sitesFrom kinds (before ++ rest) =
      (earlier ++ (c.sitesFrom kinds rest).1, (c.sitesFrom kinds rest).2) := by
  induction before generalizing earlier with
  | nil =>
    cases h
    rfl
  | cons position before ih =>
    unfold sitesFrom at h
    cases hat : c.sitesAt kinds position with
    | error f => rw [hat] at h; cases h
    | ok here =>
      cases hfrom : c.sitesFrom kinds before with
      | mk more result =>
        simp only [hat, hfrom, Prod.mk.injEq] at h
        obtain ⟨rfl, rfl⟩ := h
        rw [List.cons_append, sitesFrom]
        simp only [hat, ih hfrom, List.append_assoc]

end Configuration

/-! ## From path `0` to another path -/

namespace Fact

variable {facts : List Fact} {path : Int}

/-- What a fact says on path `0` it says on every path. -/
theorem SaysOn.of_zero {f : Fact} {v : Int} (h : f.SaysOn 0 v) : f.SaysOn path v :=
  ⟨Or.inl (or_self_iff.1 h.1), h.2⟩

theorem KnownAgree.zero (h : KnownAgree facts path) : KnownAgree facts 0 :=
  fun f hf hknown g hg hknown' v w hv hw => h f hf hknown g hg hknown' v w hv.of_zero hw.of_zero

theorem Satisfied.zero {n : Int} (h : Satisfied facts path n) : Satisfied facts 0 n :=
  ⟨fun f hf himp v hv => h.1 f hf himp v hv.of_zero,
    fun f hf hknown v hv => h.2 f hf hknown v hv.of_zero⟩

/-- What is possible on a path is possible on path `0`, if known values agree. -/
theorem KnownAgree.possible_zero (hagree : KnownAgree facts path) {n : Int}
    (h : Possible facts path n) : Possible facts 0 n :=
  hagree.zero.possible_iff.2 (hagree.possible_iff.1 h).zero

end Fact

namespace Token

/-- On the way from path `0` to another path a range shrinks or ends in a clash, and a clash
remains. -/
theorem rangeOn_of_zero {t : Token} (hint : t.IsIntegral) (hread : ∀ f ∈ t.facts, f.IsReadable)
    {path : Int} (hagree : Fact.KnownAgree t.facts path) :
    (∃ r s : IntervalSet, t.rangeOn (.int 0) = .ok (.ranges r) ∧
      t.rangeOn (.int path) = .ok (.ranges s) ∧ ∀ n, n ∈ s → n ∈ r) ∨
    ∃ f, Fact.Clash t.facts path f ∧ t.rangeOn (.int path) = .error f.raised := by
  rcases rangeOn_possible_or_clash hint hread path with ⟨s, hs, hmem⟩ | hclash
  · have hzero : ∀ n, n ∈ s → Fact.Possible t.facts 0 n :=
      fun n hn => hagree.possible_zero ((hmem n).1 hn)
    refine Or.inl ?_
    rcases rangeOn_possible_or_clash hint hread 0 with ⟨r, hr, hmem'⟩ | ⟨f, hclash, -⟩
    · exact ⟨r, s, hr, hs, fun n hn => (hmem' n).2 (hzero n hn)⟩
    · -- a clash on path `0` leaves nothing, but there is something
      obtain ⟨n, hn⟩ := s.exists_mem
      exact absurd (hzero n hn) (Fact.contradictory_iff.1 hclash.contradictory n)
  · exact Or.inr hclash

end Token

/-- **No path is lost.**  A cast stands in the list behind casts without a fault, and the facts of its
operand can be read.

It is checked on strictly ascending paths: on those other than `0` that facts name, or on path `0`
alone if they name none.  Every fact is admitted on one of these paths and heard there.

For an integer operand and a path on which its known values agree: if the facts that hold on every
path already make the cast dead, then on this path it is dead or the facts clash; and if they clash on
path `0`, they clash on this path.  A clash is a range fault, if it can be put into words. -/
theorem Configuration.castSites_cover {c : Configuration} {o : Options} {before after : List Nat}
    {position k : Nat} {t operand : Token} {earlier : List CastSite}
    (hlisted : c.listed = before ++ position :: after)
    (hbefore : c.sitesFrom o.castKinds before = (earlier, .ok ()))
    (ht : c.token? position = some t) (hcast : c.castOperand o.castKinds t = .ok (some k))
    (hoperand : c.token? k = some operand) (hread : ∀ f ∈ operand.facts, f.IsReadable) :
    let later := c.sitesFrom o.castKinds after
    let names (f : Fact) (p : Int) := f.pathId = .ok p
    let clashes (p : Int) := ∃ f, Fact.Clash operand.facts p f ∧
      operand.rangeOn (.int p) = .error (if f.isWritable then .range f else .longInteger)
    (∃ paths : List Int,
      c.castSites o =
        (earlier ++ paths.map (fun p => ⟨c, position, k, p, t.location⟩) ++ later.1, later.2) ∧
      paths.Pairwise (· < ·) ∧
      ((∃ f ∈ operand.facts, ∃ q, names f q ∧ q ≠ 0) →
        ∀ p, p ∈ paths ↔ p ≠ 0 ∧ ∃ f ∈ operand.facts, names f p) ∧
      ((¬ ∃ f ∈ operand.facts, ∃ q, names f q ∧ q ≠ 0) → paths = [0]) ∧
      ∀ f ∈ operand.facts, ∃ p ∈ paths, (names f 0 ∨ names f p) ∧
        f.clueOn p = f.integer.map (·.bind f.clueAbout?)) ∧
    ∀ p, operand.IsIntegral → Fact.KnownAgree operand.facts p →
      (∀ values : List Int, values.Pairwise (· < ·) →
        ∀ r, operand.rangeOn (.int 0) = .ok (.ranges r) → Verdict.decide values r = .warn →
          (∃ s, operand.rangeOn (.int p) = .ok (.ranges s) ∧ Verdict.decide values s = .warn) ∨
            clashes p) ∧
      ((∃ f : RangeFault, operand.rangeOn (.int 0) = .error f.raised) → clashes p) := by
  intro later names clashes
  obtain ⟨paths, hpaths, hnamed, hnone⟩ := pathIds_spec hread
  refine ⟨⟨paths, ?_, pathIds_pairwise hpaths, hnamed, hnone, fun f hf => ?_⟩,
    fun p hint hagree => ?_⟩
  · rw [castSites, hlisted, sitesFrom_append hbefore, sitesFrom]
    simp only [sitesAt_eq ht hcast hoperand hpaths, List.append_assoc]
    rfl
  · obtain ⟨p, hp, hadmits⟩ := exists_mem_pathIds hread hpaths f hf
    exact ⟨p, hp, hadmits, Fact.clueOn_of_pathId hadmits⟩
  · rcases Token.rangeOn_of_zero hint hread hagree with ⟨r, s, hr, hs, hsub⟩ | hclash
    · refine ⟨fun values hasc r' hr' hwarn => Or.inl ⟨s, hs, ?_⟩, ?_⟩
      · obtain rfl : r = r' := by simpa [hr] using hr'
        exact Verdict.decide_eq_warn_of_subset (hasc.imp le_of_lt) hsub hwarn
      · rintro ⟨f, hf⟩
        rw [hr] at hf
        cases hf
    · exact ⟨fun _ _ _ _ _ => Or.inr hclash, fun _ => hclash⟩

/-- A cast of an operand with mixed facts. -/
def Configuration.castOfMixed : Configuration where
  tokens := #[
    { str := some (.text "("), isCast := some (.bool true), operand1 := some 1,
      valueType := some { scope := some 0 } },
    .ofFacts Token.mixedFacts]
  scopes := #[]
  listed := [0, 1]

/-- The cast is checked on the paths `1`, `2` and `3`.  With the values `0` and `5` it is dead already
by the facts that hold on every path, so it is not lost on path `2`. -/
theorem Configuration.castSites_cover_mixed :
    let c := castOfMixed
    let o : Options := {}
    let operand := Token.ofFacts Token.mixedFacts
    c.listed = [] ++ 0 :: [1] ∧ c.sitesFrom o.castKinds [] = ([], .ok ()) ∧
      c.castOperand o.castKinds c.tokens[0] = .ok (some 1) ∧ c.token? 1 = some operand ∧
      (∀ f ∈ operand.facts, f.IsReadable) ∧ operand.IsIntegral ∧
      Fact.KnownAgree operand.facts 2 ∧
      (∃ r, operand.rangeOn (.int 0) = .ok (.ranges r) ∧ Verdict.decide [0, 5] r = .warn) ∧
      (∃ paths : List Int, (c.castSites o).1.map CastSite.path = paths ∧
        ∀ p, p ∈ paths ↔ p = 1 ∨ p = 2 ∨ p = 3) ∧
      ∃ s, operand.rangeOn (.int 2) = .ok (.ranges s) ∧ Verdict.decide [0, 5] s = .warn := by
  intro c o operand
  have hbefore : c.sitesFrom o.castKinds [] = ([], .ok ()) := rfl
  have hcast : c.castOperand o.castKinds c.tokens[0] = .ok (some 1) := rfl
  have hread : ∀ f ∈ operand.facts, f.IsReadable := by
    simp [operand, Token.ofFacts, Token.mixedFacts, Fact.isReadable_about]
  have hint : operand.IsIntegral := Token.isIntegral_ofFacts _
  have hagree : Fact.KnownAgree operand.facts 2 := by
    simp only [operand, Token.ofFacts, Token.mixedFacts, Fact.KnownAgree, Fact.saysOn_about,
      List.forall_mem_cons]
    simp [Fact.IsKnown, Fact.about]
  obtain ⟨r, hr⟩ : ∃ r, operand.rangeOn (.int 0) = .ok (.ranges r) := ⟨_, rfl⟩
  have hwarn : Verdict.decide [0, 5] r = .warn := by
    rw [Verdict.decide_eq_warn_iff (by decide)]
    intro v hv hvr
    have hleft := ((Token.mem_iff_of_rangeOn hr v).1 hvr).1
    have hmixed := (Token.notExcluded_mixedFacts 0 v).1 hleft
    simp only [List.mem_cons, List.not_mem_nil, or_false] at hv
    omega
  obtain ⟨⟨paths, hsites, -, hnamed, -, -⟩, hzero⟩ :=
    castSites_cover (o := o) rfl hbefore rfl hcast (rfl : c.token? 1 = some operand) hread
  refine ⟨rfl, hbefore, hcast, rfl, hread, hint, hagree, ⟨r, hr, hwarn⟩, ⟨paths, ?_, ?_⟩, ?_⟩
  · have hlater : c.sitesFrom o.castKinds [1] = ([], .ok ()) := rfl
    rw [hsites, hlater]
    simp [Function.comp_def]
  · intro p
    refine (hnamed ⟨_, List.mem_cons_self .., 1, Fact.pathId_about .., by decide⟩ p).trans ?_
    show p ≠ 0 ∧ (∃ f ∈ Token.mixedFacts, f.pathId = .ok p) ↔ _
    simp [Token.mixedFacts, Fact.pathId_about]
    omega
  · rcases (hzero 2 hint hagree).1 [0, 5] (by decide) r hr hwarn with hdead | ⟨f, hclash, -⟩
    · exact hdead
    · have hpossible : Fact.Possible Token.mixedFacts 2 1 := by
        simp [Fact.Possible, Token.notExcluded_mixedFacts, Token.lastKnown_mixedFacts]
      exact absurd hpossible (Fact.contradictory_iff.1 hclash.contradictory 1)

/-! ## A clash that cannot be put into words -/

namespace Token

/-- An `int` that is always more than `5` and less than `3`, and more than `v` on path `1`. -/
def outbid (v : Int) : Token :=
  ofFacts [.about "impossible" "Upper" 5 0, .about "impossible" "Lower" 3 0,
    .about "impossible" "Upper" v 1]

/-- **A clash that is lost.**  On path `0` the bounds `6` and `2` cross, and that is a range fault.
Only path `1` is checked, where the greatest integer that can be written is ruled out as well.  The
facts clash there too, but the fault would have to name an integer that is too long, so it is no range
fault. -/
theorem rangeOn_outbid :
    let v : Int := (10 ^ digitLimit : Nat) - 1
    (outbid v).IsIntegral ∧ (∀ f ∈ (outbid v).facts, f.IsReadable) ∧
      pathIds (outbid v).facts = .ok [1] ∧ Fact.KnownAgree (outbid v).facts 1 ∧
      (outbid v).rangeOn (.int 0) = .error (.range (.contradictoryBounds 0 6 2)) ∧
      (outbid v).rangeOn (.int 1) = .error .longInteger ∧
      ∀ f, (outbid v).rangeOn (.int 1) ≠ .error (.range f) := by
  have hwritable := isWritable_iff
  have hgreat : 10 ^ 1 ≤ 10 ^ digitLimit := Nat.pow_le_pow_right (by decide) (by decide)
  -- the power is never looked into
  generalize 10 ^ digitLimit = p at hwritable hgreat ⊢
  intro v
  have hv : v = (p : Int) - 1 := rfl
  have hlong : isWritable (v + 1) = false := by
    rw [Bool.eq_false_iff, Ne, hwritable]
    omega
  have hint : (outbid v).IsIntegral := isIntegral_ofFacts _
  have hread : ∀ f ∈ (outbid v).facts, f.IsReadable := by
    simp [outbid, ofFacts, Fact.isReadable_about]
  have hagree : Fact.KnownAgree (outbid v).facts 1 := by
    simp [outbid, ofFacts, Fact.KnownAgree, Fact.IsKnown, Fact.about]
  have hfault : (outbid v).rangeOn (.int 1) = .error .longInteger := by
    have hclues : (outbid v).facts.mapM (·.clueOn 1) =
        .ok [some (.atLeast 6), some (.atMost 2), some (.atLeast (v + 1))] := rfl
    have htight : 6 ≤ v := by omega
    have hcross : ¬ v + 1 ≤ 2 := by omega
    rw [rangeOn_of_isIntegral hint, factRanges_eq hclues]
    simp [Knowledge.hear, Knowledge.learn, Knowledge.ranges, Knowledge.possible, Lower.tighten,
      Upper.tighten, Interval.between, htight, hcross, RangeFault.raised, RangeFault.isWritable,
      hlong, bind, Except.bind, Except.mapError, Except.map]
  refine ⟨hint, hread, rfl, hagree, rfl, hfault, ?_⟩
  intro f hf
  rw [hfault] at hf
  cases hf

end Token

end DeadCast

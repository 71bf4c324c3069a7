import DeadCast.Proofs.Dump.PathCover
import Mathlib.Tactic

/-!
# Facts whose attributes hold anything

The attributes of a fact may hold any value.  What cannot be converted is forgiven: a path counts as path
`0`, and a fact without an integer is passed over.  So the paths of a cast can be listed and the range of
its operand can be found whatever the facts look like, and all that may come of them is a clash.

This file says so as far as it is true (`Token.rangeOn_forgiving`).  One value is not forgiven: an
infinity, which is refused in another way than all else that has no integer.  As a path it is a fault on
every path, as a value on each path on which the fact holds (`Fact.Overflows`), and the fault ends the
run instead of being counted (`Token.rangeOn_infinite`).
-/

namespace DeadCast

/-! ## One fact -/

namespace Fact

/-- The path is an infinite number. -/
def HasInfinitePath (f : Fact) : Prop := ∃ d, f.path = some d ∧ d.IsInfinite

/-- The path is missing or cannot be converted. -/
def HasNoPath (f : Fact) : Prop := ∀ d, f.path = some d → d.Inconvertible

/-- The fact counts on path `n`: its path is converted to `n`, or `n` is `0` and it has none. -/
def PathIs (f : Fact) (n : Int) : Prop :=
  (∃ d, f.path = some d ∧ d.toInteger = .ok n) ∨ (n = 0 ∧ f.HasNoPath ∧ ¬ f.HasInfinitePath)

/-- On the path the fact is not forgiven: its path is infinite, or it holds there and its value is. -/
def Overflows (f : Fact) (path : Int) : Prop :=
  f.HasInfinitePath ∨ (f.HasInfiniteValue ∧ (f.PathIs 0 ∨ f.PathIs path))

variable {f : Fact}

/-- What counts as false is path `0` like what cannot be converted. -/
theorem pathId_eq (f : Fact) : f.pathId = forgiving 0 (f.path.getD (.int 0)).toInteger := by
  unfold pathId Datum.orElse
  generalize f.path.getD (.int 0) = d
  cases htrue : d.isTrue with
  | true => rfl
  | false =>
    show Except.ok 0 = forgiving 0 d.toInteger
    cases d with
    | nothing => rfl
    | bool b =>
      obtain rfl : b = false := htrue
      rfl
    | int n =>
      obtain rfl : n = 0 := by simpa [Datum.isTrue] using htrue
      rfl
    | real x =>
      cases x with
      | finite q =>
        obtain rfl : q = 0 := by simpa [Datum.isTrue, Binary64.numeric, Numeric.same] using htrue
        rfl
      | negativeZero => rfl
      | infinite negative => simp [Datum.isTrue, Binary64.numeric, Numeric.same] at htrue
      | undefined mark => rfl
    | text s =>
      obtain rfl : s = "" := by simpa [Datum.isTrue] using htrue
      rfl
    | list items => rfl
    | tuple items => rfl
    | _ => cases htrue

theorem pathId_eq_ok_iff {n : Int} : f.pathId = .ok n ↔ f.PathIs n := by
  rw [pathId_eq, forgiving_eq_ok_iff, PathIs, HasNoPath, HasInfinitePath]
  cases hpath : f.path with
  | none => simp [Datum.toInteger, eq_comm]
  | some d => simp [Datum.toInteger_infinite_iff, Datum.Inconvertible]

theorem pathId_eq_error_iff {fault : Fault} :
    f.pathId = .error fault ↔ fault = .infiniteInteger ∧ f.HasInfinitePath := by
  rw [pathId_eq, forgiving_eq_error_iff, Datum.toInteger_infinite_iff, HasInfinitePath]
  cases f.path with
  | none => simp [Datum.IsInfinite]
  | some d => simp

theorem clueOn_of_other {own path : Int} (h : f.pathId = .ok own) (hother : ¬ (own = 0 ∨ own = path)) :
    f.clueOn path = .ok none := by
  unfold clueOn
  rw [h]
  simp only [bind, Except.bind, hother, if_false]
  rfl

/-- **A fact can be heard on a path unless it overflows there.** -/
theorem clueOn_eq_error_iff {path : Int} {fault : Fault} :
    f.clueOn path = .error fault ↔ fault = .infiniteInteger ∧ f.Overflows path := by
  cases hpath : f.pathId with
  | error other =>
    obtain ⟨rfl, hinfinite⟩ := pathId_eq_error_iff.1 hpath
    have hclue : f.clueOn path = .error .infiniteInteger := by
      unfold clueOn
      rw [hpath]
      rfl
    rw [hclue]
    simp [Overflows, hinfinite, eq_comm]
  | ok own =>
    have hfinite : ¬ f.HasInfinitePath := by
      intro hinfinite
      rw [pathId_eq_error_iff.2 ⟨rfl, hinfinite⟩] at hpath
      cases hpath
    have hpaths : (f.PathIs 0 ∨ f.PathIs path) ↔ (own = 0 ∨ own = path) := by
      rw [← pathId_eq_ok_iff, ← pathId_eq_ok_iff, hpath]
      simp
    rw [Overflows, hpaths, or_iff_right hfinite]
    by_cases hadmits : own = 0 ∨ own = path
    · have hholds : f.pathId = .ok 0 ∨ f.pathId = .ok path := by
        rw [hpath]
        simpa using hadmits
      rw [clueOn_of_pathId hholds, and_iff_left hadmits, ← integer_eq_error_iff]
      cases f.integer <;> simp [Except.map]
    · rw [clueOn_of_other hpath hadmits]
      simp [hadmits]

/-- A fact without an integer says nothing. -/
theorem clueOn_of_hasNoInteger (h : f.HasNoInteger) {path : Int} (hfinite : ¬ f.Overflows path) :
    f.clueOn path = .ok none := by
  cases hclue : f.clueOn path with
  | error fault => exact absurd (clueOn_eq_error_iff.1 hclue).2 hfinite
  | ok clue =>
    rcases clueOn_cases hclue with ⟨v, ⟨hholds, hv⟩, -⟩ | ⟨-, rfl⟩
    · rw [pathId_eq_ok_iff, pathId_eq_ok_iff] at hholds
      rw [integer_of_hasNoInteger h fun hvalue => hfinite (Or.inr ⟨hvalue, hholds⟩)] at hv
      cases hv
    · rfl

/-- The fact with another path. -/
def onPath (f : Fact) (path : Int) : Fact := { f with path := some (.int path) }

theorem pathId_onPath (f : Fact) (path : Int) : (f.onPath path).pathId = .ok path := by
  rw [pathId_eq]
  rfl

/-- A fact whose path cannot be converted is one about every path. -/
theorem pathId_onPath_zero (h : f.HasNoPath) (hfinite : ¬ f.HasInfinitePath) :
    (f.onPath 0).pathId = f.pathId := by
  rw [pathId_onPath, pathId_eq_ok_iff.2 (Or.inr ⟨rfl, h, hfinite⟩)]

theorem clueOn_onPath_zero (h : f.HasNoPath) (hfinite : ¬ f.HasInfinitePath) (path : Int) :
    (f.onPath 0).clueOn path = f.clueOn path := by
  unfold clueOn
  rw [pathId_onPath_zero h hfinite]
  rfl

end Fact

/-! ## The facts of a token -/

/-- Whether the paths can be listed depends on the paths alone. -/
theorem pathIds_eq_error_iff {facts : List Fact} {fault : Fault} :
    pathIds facts = .error fault ↔ fault = .infiniteInteger ∧ ∃ f ∈ facts, f.HasInfinitePath := by
  constructor
  · intro h
    cases hids : facts.mapM Fact.pathId with
    | error other =>
      obtain ⟨f, hf, hother⟩ := mapM_error hids
      obtain ⟨rfl, hinfinite⟩ := Fact.pathId_eq_error_iff.1 hother
      unfold pathIds at h
      rw [hids] at h
      cases h
      exact ⟨rfl, f, hf, hinfinite⟩
    | ok ids =>
      unfold pathIds at h
      rw [hids] at h
      cases h
  · rintro ⟨rfl, f, hf, hinfinite⟩
    have hids : facts.mapM Fact.pathId = .error .infiniteInteger :=
      mapM_eq_error (fun g _ other hother => (Fact.pathId_eq_error_iff.1 hother).1)
        ⟨f, hf, Fact.pathId_eq_error_iff.2 ⟨rfl, hinfinite⟩⟩
    unfold pathIds
    rw [hids]
    rfl

namespace Token

variable {t u : Token} {path : Int}

theorem rangeOn_congr (ht : t.IsIntegral) (hu : u.IsIntegral) (h : t.clues path = u.clues path) :
    t.rangeOn (.int path) = u.rangeOn (.int path) := by
  rw [rangeOn_of_isIntegral ht, rangeOn_of_isIntegral hu, factRanges, factRanges, h]

/-- A fact that says nothing on the path may be left out. -/
theorem clues_of_silent (t : Token) (before after : List Fact) {f : Fact}
    (h : f.clueOn path = .ok none) :
    { t with facts := before ++ after }.clues path =
      { t with facts := before ++ f :: after }.clues path := by
  simp only [clues, List.mapM_append, List.mapM_cons, h]
  cases before.mapM (·.clueOn path) with
  | error fault => rfl
  | ok bs =>
    cases after.mapM (·.clueOn path) with
    | error fault => rfl
    | ok as =>
      simp [bind, Except.bind, pure, Except.pure]

/-- A fact may be replaced by one that says the same. -/
theorem clues_replace (t : Token) (before after : List Fact) {f g : Fact}
    (h : g.clueOn path = f.clueOn path) :
    { t with facts := before ++ g :: after }.clues path =
      { t with facts := before ++ f :: after }.clues path := by
  simp only [clues, List.mapM_append, List.mapM_cons, h]

/-- Facts that do not overflow can be heard. -/
theorem exists_heard (h : ¬ ∃ f ∈ t.facts, f.Overflows path) :
    ∃ heard, t.facts.mapM (·.clueOn path) = .ok heard := by
  cases hheard : t.facts.mapM (·.clueOn path) with
  | error fault =>
    obtain ⟨f, hf, hfault⟩ := mapM_error hheard
    exact absurd ⟨f, hf, (Fact.clueOn_eq_error_iff.1 hfault).2⟩ h
  | ok heard => exact ⟨heard, rfl⟩

/-- One that overflows is enough for a fault. -/
theorem rangeOn_of_overflows (hint : t.IsIntegral) (h : ∃ f ∈ t.facts, f.Overflows path) :
    t.rangeOn (.int path) = .error .infiniteInteger := by
  obtain ⟨f, hf, hoverflows⟩ := h
  have hheard : t.facts.mapM (·.clueOn path) = .error .infiniteInteger :=
    mapM_eq_error (fun g _ other hother => (Fact.clueOn_eq_error_iff.1 hother).1)
      ⟨f, hf, Fact.clueOn_eq_error_iff.2 ⟨rfl, hoverflows⟩⟩
  have hclues : t.clues path = .error .infiniteInteger := by
    unfold clues
    rw [hheard]
    rfl
  rw [rangeOn_of_isIntegral hint, factRanges, hclues]
  rfl

/-- **Facts are forgiven, except for infinities.**  The attributes of the facts of an integer operand hold
anything.

The paths can be listed, unless the path of a fact is infinite.  On every path there is a range of what the
facts leave possible, or the facts clash, unless the path of a fact is infinite, or a fact that holds on
the path has an infinite value.  A clash is a range fault, if it can be put into words.

A fact without an integer may be left out, and one whose path cannot be converted is one about every
path; again infinities are the exception. -/
theorem rangeOn_forgiving (hint : t.IsIntegral) (path : Int) :
    ((∃ f ∈ t.facts, f.HasInfinitePath) → pathIds t.facts = .error .infiniteInteger) ∧
    ((¬ ∃ f ∈ t.facts, f.HasInfinitePath) → ∃ paths, pathIds t.facts = .ok paths ∧
      paths.Pairwise (· < ·) ∧ ∀ p ∈ paths, p = 0 ∨ ∃ f ∈ t.facts, f.PathIs p) ∧
    ((∃ f ∈ t.facts, f.Overflows path) → t.rangeOn (.int path) = .error .infiniteInteger) ∧
    ((¬ ∃ f ∈ t.facts, f.Overflows path) →
      (∃ r, t.rangeOn (.int path) = .ok (.ranges r) ∧
        ∀ n, r.contains n = true ↔ Fact.Possible t.facts path n) ∨
      ∃ f, Fact.Clash t.facts path f ∧
        t.rangeOn (.int path) = .error (if f.isWritable then .range f else .longInteger)) ∧
    ∀ before f after, t.facts = before ++ f :: after →
      (f.HasNoInteger → ¬ f.Overflows path →
        { t with facts := before ++ after }.rangeOn (.int path) = t.rangeOn (.int path)) ∧
      (f.HasNoPath → ¬ f.HasInfinitePath →
        pathIds (before ++ f.onPath 0 :: after) = pathIds t.facts ∧
        { t with facts := before ++ f.onPath 0 :: after }.rangeOn (.int path) =
          t.rangeOn (.int path)) := by
  refine ⟨fun h => pathIds_eq_error_iff.2 ⟨rfl, h⟩, ?_, rangeOn_of_overflows hint, ?_, ?_⟩
  · intro hfinite
    have hnames : ∀ f ∈ t.facts, ∃ own, f.pathId = .ok own := by
      intro f hf
      cases hpath : f.pathId with
      | error fault => exact absurd ⟨f, hf, (Fact.pathId_eq_error_iff.1 hpath).2⟩ hfinite
      | ok own => exact ⟨own, rfl⟩
    obtain ⟨paths, hpaths, hnamed, hnone⟩ := pathIds_named hnames
    refine ⟨paths, hpaths, pathIds_pairwise hpaths, ?_⟩
    intro p hp
    by_cases hsome : ∃ f ∈ t.facts, ∃ q, f.pathId = .ok q ∧ q ≠ 0
    · obtain ⟨-, f, hf, hpath⟩ := (hnamed hsome p).1 hp
      exact Or.inr ⟨f, hf, Fact.pathId_eq_ok_iff.1 hpath⟩
    · rw [hnone hsome, List.mem_singleton] at hp
      exact Or.inl hp
  · intro hfinite
    obtain ⟨heard, hheard⟩ := exists_heard hfinite
    simp only [IntervalSet.contains_iff]
    exact rangeOn_possible_or_clash_of_heard hint hheard
  · intro before f after hfacts
    have hsame : { t with facts := before ++ f :: after } = t := by rw [← hfacts]
    refine ⟨fun hno hfinite => ?_, fun hno hfinite => ⟨?_, ?_⟩⟩
    · have hclues := clues_of_silent t before after (Fact.clueOn_of_hasNoInteger hno hfinite)
      rw [hsame] at hclues
      exact rangeOn_congr (by exact hint) hint hclues
    · unfold pathIds
      rw [hfacts]
      simp only [List.mapM_append, List.mapM_cons, Fact.pathId_onPath_zero hno hfinite]
    · have hclues := clues_replace t before after (Fact.clueOn_onPath_zero hno hfinite path)
      rw [hsame] at hclues
      exact rangeOn_congr (by exact hint) hint hclues

/-- More than `5`, on a path that is no number. -/
def aboveSomewhere : Fact where
  value := some (.text "5")
  kind := some (.text "impossible")
  bound := some (.text "Upper")
  path := some (.text "somewhere")

/-- Known values that are no integers, an infinity on path `7`, and a bound. -/
def oddFacts : List Fact :=
  [{ value := some (.real (.undefined 0)), kind := some (.text "known") },
    { value := some (.list [.int 4]), kind := some (.text "known"), bound := some (.tuple []) },
    { value := some (.bool true), kind := some (.text "known") },
    { value := some (.text "four"), kind := some (.list []) },
    { value := some (.real (.infinite true)), kind := some (.text "known"), path := some (.int 7) },
    aboveSomewhere]

/-- The paths are listed, and on path `0` the operand is more than `5`; leaving the first fact out changes
nothing, nor does saying that the last one is about every path.  On path `7` the infinity is a fault. -/
theorem rangeOn_forgiving_oddFacts :
    let t := ofFacts oddFacts
    t.IsIntegral ∧ (¬ ∃ f ∈ t.facts, f.HasInfinitePath) ∧ (¬ ∃ f ∈ t.facts, f.Overflows 0) ∧
      (∃ f ∈ t.facts, f.Overflows 7) ∧ (∃ paths, pathIds t.facts = .ok paths ∧ paths = [7]) ∧
      (∃ r, t.rangeOn (.int 0) = .ok (.ranges r) ∧
        ∀ n, r.contains n = true ↔ Fact.Possible oddFacts 0 n) ∧
      t.rangeOn (.int 0) = .ok (.ranges (.ofInterval ⟨.limit 6, .unbounded, trivial⟩)) ∧
      t.rangeOn (.int 7) = .error .infiniteInteger ∧
      (ofFacts oddFacts.tail).rangeOn (.int 0) = t.rangeOn (.int 0) ∧
      (ofFacts (oddFacts.dropLast ++ [aboveSomewhere.onPath 0])).rangeOn (.int 0) = t.rangeOn (.int 0) := by
  intro t
  have hint : t.IsIntegral := isIntegral_ofFacts oddFacts
  have hheard : t.facts.mapM (·.clueOn 0) = .ok [none, none, none, none, none, some (.atLeast 6)] := rfl
  have hrange : t.rangeOn (.int 0) = .ok (.ranges (.ofInterval ⟨.limit 6, .unbounded, trivial⟩)) := rfl
  have hfinite : ¬ ∃ f ∈ t.facts, f.HasInfinitePath := by
    intro hinfinite
    cases (rfl : pathIds t.facts = .ok [7]).symm.trans (pathIds_eq_error_iff.2 ⟨rfl, hinfinite⟩)
  have hquiet : ¬ ∃ f ∈ t.facts, f.Overflows 0 := by
    rintro ⟨f, hf, hoverflows⟩
    obtain ⟨clue, hclue⟩ := exists_ok_of_mapM hheard f hf
    cases hclue.symm.trans (Fact.clueOn_eq_error_iff.2 ⟨rfl, hoverflows⟩)
  have hloud : ∃ f ∈ t.facts, f.Overflows 7 := by
    have hfourth : t.facts[4]? = some (oddFacts.get ⟨4, by decide⟩) := rfl
    exact ⟨_, List.mem_of_getElem? hfourth, (Fact.clueOn_eq_error_iff.1 rfl).2⟩
  obtain ⟨-, hpaths, -, hanswer, hodd⟩ := rangeOn_forgiving hint 0
  obtain ⟨-, -, hfault, -, -⟩ := rangeOn_forgiving hint 7
  refine ⟨hint, hfinite, hquiet, hloud, ?_, ?_, hrange, hfault hloud, ?_, ?_⟩
  · obtain ⟨paths, hlisted, -⟩ := hpaths hfinite
    exact ⟨paths, hlisted, Except.ok.inj (hlisted.symm.trans rfl)⟩
  · rcases hanswer hquiet with hr | ⟨f, -, hf⟩
    · exact hr
    · cases hrange.symm.trans hf
  · refine (hodd [] _ oddFacts.tail rfl).1 ?_ fun h => hquiet ⟨_, List.mem_cons_self .., h⟩
    intro d hd
    cases hd
    exact Or.inr fun n hn => by cases hn
  · have hlast : aboveSomewhere.HasNoPath := by
      intro d hd n hn
      cases hd
      cases hn
    have hpath : ¬ aboveSomewhere.HasInfinitePath := by
      rintro ⟨d, hd, negative, rfl⟩
      cases hd
    exact ((hodd oddFacts.dropLast aboveSomewhere [] rfl).2 hlast hpath).2

/-- **An infinity is not passed over.**  A known value that is infinite has no integer, but there is
neither a range nor a range fault, while without this fact the operand may be anything.  And with an
infinite path the paths cannot be listed. -/
theorem rangeOn_infinite :
    let f : Fact := { value := some (.real (.infinite false)), kind := some (.text "known") }
    let g : Fact := { value := some (.int 3), path := some (.real (.infinite true)) }
    (ofFacts [f]).IsIntegral ∧ f.HasNoInteger ∧ (ofFacts []).rangeOn (.int 0) = .ok (.ranges .full) ∧
      (ofFacts [f]).rangeOn (.int 0) = .error .infiniteInteger ∧
      (∀ r, (ofFacts [f]).rangeOn (.int 0) ≠ .ok (.ranges r)) ∧
      (∀ e, (ofFacts [f]).rangeOn (.int 0) ≠ .error (.range e)) ∧
      g.HasNoPath ∧ pathIds [g] = .error .infiniteInteger := by
  intro f g
  have hfault : (ofFacts [f]).rangeOn (.int 0) = .error .infiniteInteger := rfl
  refine ⟨isIntegral_ofFacts _, ?_, rfl, hfault, ?_, ?_, ?_, rfl⟩
  · intro d hd
    cases hd
    exact Or.inr fun n hn => by cases hn
  · intro r hr
    rw [hfault] at hr
    cases hr
  · intro e he
    rw [hfault] at he
    cases he
  · intro d hd n hn
    cases hd
    cases hn

end Token

end DeadCast

import DeadCast.Datum.Ranges
import DeadCast.Proofs.IntervalSet.Canonical
import DeadCast.Proofs.Traversal
import Mathlib.Tactic

/-!
# Joining intervals gives the canonical union

Intervals in any order, overlapping, adjacent or repeated, are sorted by lower edge and joined from
left to right.  The result covers the same integers and leaves a gap between neighbours, so it is
the shortest form of what the intervals cover, and depends on nothing else
(`IntervalSet.normalizeData_canonical`).

The joining keeps one interval in hand.  Two facts about one step carry the proof:

* an interval that touches the one in hand, and does not start left of it, leaves no integer
  between them, so the two can be replaced by their join (`Interval.mem_join`);
* one that does not touch it is apart from it, and so is the first interval of everything that comes
  later, because joining never moves a lower edge (`head_coalesceFrom`).

The joining also runs over values that cover an interval.  For values that are intervals it is the
same joining (`coalesce_map`, `IntervalSet.normalizeData_intervals`).
-/

namespace DeadCast

/-! ## Edges -/

namespace Lower

theorem le_iff {l m : Lower} : l.le m = true ↔ ∀ n, m.Admits n → l.Admits n := by
  cases l with
  | unbounded => simp [le]
  | limit a =>
    cases m with
    | unbounded =>
      simp only [le, Bool.false_eq_true, false_iff, admits_limit]
      intro h
      have := h (a - 1) trivial
      omega
    | limit b =>
      simp only [le, decide_eq_true_eq, admits_limit]
      constructor
      · intro h n hn
        exact le_trans h hn
      · intro h
        exact h b (le_refl b)

theorem le_trans {l m k : Lower} (hlm : l.le m = true) (hmk : m.le k = true) : l.le k = true := by
  rw [le_iff] at hlm hmk ⊢
  exact fun n hn => hlm n (hmk n hn)

theorem le_total (l m : Lower) : (l.le m || m.le l) = true := by
  cases l with
  | unbounded => rfl
  | limit a =>
    cases m with
    | unbounded => rfl
    | limit b =>
      simp only [le, Bool.or_eq_true, decide_eq_true_eq]
      omega

end Lower

theorem Upper.admits_max {u v : Upper} {n : Int} :
    (u.max v).Admits n ↔ u.Admits n ∨ v.Admits n := by
  cases u with
  | unbounded => simp [Upper.max]
  | limit a =>
    cases v with
    | unbounded => simp [Upper.max]
    | limit b =>
      simp only [Upper.max]
      split <;> simp only [admits_limit] <;> omega

/-! ## Touching and joining -/

namespace Interval

theorem not_touches_iff {a b : Interval} : a.touches b = false ↔ a.Apart b := by
  unfold touches Apart
  cases a.hi <;> cases b.lo <;> simp

/-- An interval that touches another one and does not start left of it fills no gap and leaves
none: the join holds what the two hold. -/
theorem mem_join {a b : Interval} (hle : a.lo.le b.lo = true) (htouch : a.touches b = true)
    {n : Int} : n ∈ a.join b ↔ n ∈ a ∨ n ∈ b := by
  rw [Lower.le_iff] at hle
  have hjoin : n ∈ a.join b ↔ a.lo.Admits n ∧ (a.hi.Admits n ∨ b.hi.Admits n) := by
    rw [mem_iff, join, Upper.admits_max]
  rw [hjoin]
  constructor
  · rintro ⟨hlo, hhi⟩
    by_cases hn : a.hi.Admits n
    · exact Or.inl ⟨hlo, hn⟩
    · refine Or.inr ⟨?_, hhi.resolve_left hn⟩
      -- right of the end of `a`, hence not left of the start of `b`
      unfold touches at htouch
      split at htouch
      · rename_i h l ha hb
        rw [ha, Upper.admits_limit] at hn
        rw [hb, Lower.admits_limit]
        have := of_decide_eq_true htouch
        omega
      · rename_i hopen
        cases ha : a.hi with
        | unbounded =>
          rw [ha] at hn
          exact absurd trivial hn
        | limit h =>
          cases hb : b.lo with
          | unbounded => trivial
          | limit l => exact absurd hb (hopen h l ha)
  · rintro (hn | hn)
    · exact ⟨hn.1, Or.inl hn.2⟩
    · exact ⟨hle n hn.1, Or.inr hn.2⟩

end Interval

/-! ## The joining -/

/-- The list is sorted by lower edge. -/
def SortedByLower (parts : List Interval) : Prop :=
  parts.Pairwise fun a b => a.lo.le b.lo = true

/-- Joining loses no integer and adds none. -/
theorem covers_coalesceFrom {current : Interval} {rest : List Interval}
    (h : SortedByLower (current :: rest)) {n : Int} :
    Covers (coalesceFrom id id current rest) n ↔ Covers (current :: rest) n := by
  induction rest generalizing current with
  | nil => rfl
  | cons next rest ih =>
    obtain ⟨hcurrent, hsorted⟩ := List.pairwise_cons.1 h
    have hnext := hcurrent next (List.mem_cons_self ..)
    unfold coalesceFrom
    split
    · rename_i htouch
      -- the join starts where `current` starts, so it stands before the rest as well
      have hjoin : SortedByLower (current.join next :: rest) :=
        List.pairwise_cons.2 ⟨fun i hi => hcurrent i (List.mem_cons_of_mem next hi),
          (List.pairwise_cons.1 hsorted).2⟩
      refine (ih hjoin).trans ?_
      rw [covers_cons, covers_cons, covers_cons, Interval.mem_join hnext htouch, or_assoc]
    · rw [covers_cons, ih hsorted, ← covers_cons]

/-- Joining never moves the first lower edge. -/
theorem head_coalesceFrom (current : Interval) (rest : List Interval) :
    ∀ i ∈ (coalesceFrom id id current rest).head?, i.lo = current.lo := by
  induction rest generalizing current with
  | nil =>
    intro i hi
    obtain rfl : current = i := by simpa [coalesceFrom] using hi
    rfl
  | cons next rest ih =>
    unfold coalesceFrom
    split
    · exact ih (current.join next)
    · intro i hi
      obtain rfl : current = i := by simpa using hi
      rfl

/-- Joining leaves a gap between neighbours. -/
theorem coalesceFrom_isChain (current : Interval) (rest : List Interval) :
    (coalesceFrom id id current rest).IsChain Interval.Apart := by
  induction rest generalizing current with
  | nil => exact .singleton current
  | cons next rest ih =>
    unfold coalesceFrom
    split
    · exact ih (current.join next)
    · rename_i htouch
      refine List.isChain_cons.2 ⟨?_, ih next⟩
      intro i hi
      have hapart : current.Apart next := Interval.not_touches_iff.1 (by simpa using htouch)
      unfold Interval.Apart at hapart ⊢
      rwa [head_coalesceFrom next rest i hi]

theorem coalesceFrom_ne_nil (current : Interval) (rest : List Interval) :
    coalesceFrom id id current rest ≠ [] := by
  induction rest generalizing current with
  | nil => simp [coalesceFrom]
  | cons next rest ih =>
    unfold coalesceFrom
    split
    · exact ih _
    · simp

theorem sortedByLower_sortByLower (parts : List Interval) :
    SortedByLower (sortByLower id parts) := by
  refine List.pairwise_mergeSort ?_ ?_ parts
  · intro a b c
    exact Lower.le_trans
  · intro a b
    exact Lower.le_total a.lo b.lo

theorem covers_sortByLower {parts : List Interval} {n : Int} :
    Covers (sortByLower id parts) n ↔ Covers parts n := by
  have hmem : ∀ i, i ∈ sortByLower id parts ↔ i ∈ parts := fun i =>
    (List.mergeSort_perm parts _).mem_iff
  simp only [Covers, hmem]

namespace IntervalSet

theorem normalize_nil : normalize [] = .error .empty := by
  simp [normalize, sortByLower, coalesce, ofParts]

/-- **The union is exact and in its shortest form.** -/
theorem normalize_spec {parts : List Interval} (hne : parts ≠ []) :
    ∃ r, normalize parts = .ok r ∧ (∀ n, n ∈ r ↔ Covers parts n) ∧ r.Gapped := by
  have hsorted := sortedByLower_sortByLower parts
  have hcovers : ∀ n, Covers (sortByLower id parts) n ↔ Covers parts n :=
    fun n => covers_sortByLower
  cases hsort : sortByLower id parts with
  | nil =>
    obtain ⟨i, hi⟩ := List.exists_mem_of_ne_nil parts hne
    obtain ⟨n, hn⟩ := i.exists_mem
    have hcovered := (hcovers n).2 ⟨i, hi, hn⟩
    rw [hsort] at hcovered
    exact absurd hcovered covers_nil
  | cons first rest =>
    rw [hsort] at hsorted hcovers
    have hchain := coalesceFrom_isChain first rest
    have hpairwise : (coalesceFrom id id first rest).Pairwise Interval.Before :=
      (List.isChain_iff_pairwise.1 hchain).imp Interval.Apart.before
    obtain ⟨r, hr, hparts⟩ := ofParts_of_pairwise (coalesceFrom_ne_nil first rest) hpairwise
    refine ⟨r, ?_, ?_, ?_⟩
    · rw [normalize, hsort]
      exact hr
    · intro n
      rw [mem_iff_covers, hparts, covers_coalesceFrom hsorted, hcovers]
    · rw [Gapped, hparts]
      exact hchain

/-- The union of the intervals of a set in its shortest form is the set itself. -/
theorem Gapped.normalize_parts {r : IntervalSet} (h : r.Gapped) : normalize r.parts = .ok r := by
  obtain ⟨s, hs, hmem, hgapped⟩ := normalize_spec r.nonempty
  rw [hs, eq_of_gapped hgapped h hmem]

/-- Two unions are equal exactly if the intervals cover the same integers. -/
theorem normalize_eq_iff {xs ys : List Interval} (hxs : xs ≠ []) (hys : ys ≠ []) :
    normalize xs = normalize ys ↔ ∀ n, Covers xs n ↔ Covers ys n := by
  obtain ⟨r, hr, hrmem, hrgapped⟩ := normalize_spec hxs
  obtain ⟨s, hs, hsmem, hsgapped⟩ := normalize_spec hys
  rw [hr, hs]
  constructor
  · intro h n
    obtain rfl : r = s := Except.ok.inj h
    rw [← hrmem, hsmem]
  · intro h
    have hsame : ∀ n, n ∈ r ↔ n ∈ s := by
      intro n
      rw [hrmem, hsmem, h]
    rw [eq_of_gapped hrgapped hsgapped hsame]

end IntervalSet

/-! ## Values that are intervals -/

section Values

variable {α : Type} {hull : α → Interval} {ofHull : Interval → α}

/-- Values that stand for intervals are joined as the intervals are. -/
theorem coalesceFrom_map (h : ∀ i, hull (ofHull i) = i) (current : Interval)
    (rest : List Interval) :
    coalesceFrom hull ofHull (ofHull current) (rest.map ofHull) =
      (coalesceFrom id id current rest).map ofHull := by
  induction rest generalizing current with
  | nil => rfl
  | cons next rest ih =>
    rw [List.map_cons, coalesceFrom, coalesceFrom, h, h]
    simp only [id_eq]
    split
    · exact ih (current.join next)
    · rw [ih, List.map_cons]

theorem coalesce_map (h : ∀ i, hull (ofHull i) = i) (parts : List Interval) :
    coalesce hull ofHull (parts.map ofHull) = (coalesce id id parts).map ofHull := by
  cases parts with
  | nil => rfl
  | cons first rest => exact coalesceFrom_map h first rest

theorem sortByLower_map (h : ∀ i, hull (ofHull i) = i) (parts : List Interval) :
    sortByLower hull (parts.map ofHull) = (sortByLower id parts).map ofHull := by
  refine (List.map_mergeSort ?_).symm
  intro a _ b _
  rw [h, h, id_eq, id_eq]

end Values

namespace IntervalSet

theorem ofMembers_intervals (parts : List Interval) :
    ofMembers (parts.map .interval) = reported (ofParts parts) := by
  cases parts with
  | nil => rfl
  | cons first rest =>
    have hmembers : ((first :: rest).map Datum.interval).mapM memberOf = .ok (first :: rest) := by
      rw [mapM_map_eq_ok (f := memberOf) (g := .interval) (k := id) (fun _ _ => rfl), List.map_id]
    rw [ofMembers, hmembers]
    rfl

/-- The union of values that are intervals is the union of the intervals. -/
theorem normalizeData_intervals {d : Datum} {parts : List Interval}
    (h : d.items = .ok (parts.map .interval)) : normalizeData d = reported (normalize parts) := by
  let ofHull : Interval → Piece := fun i => (.interval i, i)
  have hpieces : (parts.map Datum.interval).mapM pieceOf = .ok (parts.map ofHull) :=
    mapM_map_eq_ok (f := pieceOf) fun _ _ => rfl
  have hjoined : coalesce Prod.snd ofHull (sortByLower Prod.snd (parts.map ofHull)) =
      (coalesce id id (sortByLower id parts)).map ofHull := by
    rw [sortByLower_map (fun _ => rfl), coalesce_map (fun _ => rfl)]
  have hunion : normalizeData d = ofMembers
      ((coalesce Prod.snd ofHull (sortByLower Prod.snd (parts.map ofHull))).map Prod.fst) := by
    unfold normalizeData
    rw [h]
    simp only [bind, Except.bind, hpieces]
    rfl
  rw [hunion, hjoined, List.map_map]
  exact ofMembers_intervals _

theorem normalizeData_nil : normalizeData (.list []) = .error (.range .empty) := by
  have hitems : (Datum.list []).items = .ok (([] : List Interval).map .interval) := rfl
  rw [normalizeData_intervals hitems, normalize_nil]
  rfl

theorem normalizeData_of_normalize {parts : List Interval} {r : IntervalSet}
    (h : normalize parts = .ok r) : normalizeData (.list (parts.map .interval)) = .ok r := by
  rw [normalizeData_intervals rfl, h]
  rfl

theorem normalizeData_eq_iff {xs ys : List Interval} (hxs : xs ≠ []) (hys : ys ≠ []) :
    normalizeData (.list (xs.map .interval)) = normalizeData (.list (ys.map .interval)) ↔
      ∀ n, Covers xs n ↔ Covers ys n := by
  rw [← normalize_eq_iff hxs hys]
  obtain ⟨r, hr, -⟩ := normalize_spec hxs
  obtain ⟨s, hs, -⟩ := normalize_spec hys
  rw [normalizeData_of_normalize hr, normalizeData_of_normalize hs, hr, hs, Except.ok.injEq,
    Except.ok.injEq]

/-- **The canonical union.**  The union of a list of intervals is a range fault exactly if the list
is empty.  Otherwise it is a set that contains what some interval of the list contains, with a gap
between neighbours; it is full exactly if the intervals cover all integers; and the union of its own
intervals is the set itself.  Two lists have equal unions exactly if they cover the same integers,
and so the order of the intervals and their repetitions do not count. -/
theorem normalizeData_canonical (xs : List Interval) :
    let union (parts : List Interval) := normalizeData (.list (parts.map .interval))
    ((∃ f, union xs = .error (.range f)) ↔ xs = []) ∧
    (xs ≠ [] → ∃ r, union xs = .ok r ∧
      (∀ n, r.contains n = true ↔ ∃ i ∈ xs, i.contains n = true) ∧ r.Gapped ∧
      (r.isFull = true ↔ ∀ n, ∃ i ∈ xs, i.contains n = true) ∧
      union r.parts = .ok r ∧ normalizeData (.ranges r) = .ok r) ∧
    (∀ ys, xs ≠ [] → ys ≠ [] → (union xs = union ys ↔
      ∀ n, (∃ i ∈ xs, i.contains n = true) ↔ ∃ i ∈ ys, i.contains n = true)) ∧
    ∀ ys, (∀ i, i ∈ xs ↔ i ∈ ys) → union xs = union ys := by
  intro union
  simp only [Interval.contains_iff, contains_iff]
  refine ⟨⟨?_, ?_⟩, ?_, fun ys hxs hys => normalizeData_eq_iff hxs hys, ?_⟩
  · rintro ⟨f, hf⟩
    by_contra hxs
    obtain ⟨r, hr, -⟩ := normalize_spec hxs
    have hok : union xs = .ok r := normalizeData_of_normalize hr
    rw [hok] at hf
    cases hf
  · rintro rfl
    exact ⟨.empty, normalizeData_nil⟩
  · intro hxs
    obtain ⟨r, hr, hmem, hgapped⟩ := normalize_spec hxs
    have hagain := hgapped.normalize_parts
    refine ⟨r, normalizeData_of_normalize hr, hmem, hgapped, ?_,
      normalizeData_of_normalize hagain, ?_⟩
    · rw [hgapped.isFull_iff_forall]
      exact forall_congr' hmem
    · rw [normalizeData_intervals rfl, hagain]
      rfl
  · intro ys hsame
    by_cases hxs : xs = []
    · have hys : ys = [] := by
        refine List.eq_nil_iff_forall_not_mem.2 fun i hi => ?_
        simpa [hxs] using (hsame i).2 hi
      rw [hxs, hys]
    · obtain ⟨i, hi⟩ := List.exists_mem_of_ne_nil xs hxs
      have hys : ys ≠ [] := List.ne_nil_of_mem ((hsame i).1 hi)
      refine (normalizeData_eq_iff hxs hys).2 fun n => ?_
      simp only [Covers, hsame]

/-- `[3, 5]`, `[-2, 1]` and `2`, out of order and with an adjacent point, have the union `[-2, 5]`,
which is not full. -/
theorem normalizeData_canonical_adjacent :
    let xs : List Interval :=
      [⟨.limit 3, .limit 5, by decide⟩, ⟨.limit (-2), .limit 1, by decide⟩, .point 2]
    let ys : List Interval := [⟨.limit (-2), .limit 5, by decide⟩]
    xs ≠ [] ∧ ys ≠ [] ∧
      normalizeData (.list (xs.map .interval)) = normalizeData (.list (ys.map .interval)) ∧
      ∃ r, normalizeData (.list (xs.map .interval)) = .ok r ∧ r.Gapped ∧ r.isFull = false := by
  intro xs ys
  have hxs : xs ≠ [] := by simp [xs]
  have hys : ys ≠ [] := by simp [ys]
  obtain ⟨-, hsome, hequal, -⟩ := normalizeData_canonical xs
  obtain ⟨r, hr, -, hgapped, hfull, -⟩ := hsome hxs
  refine ⟨hxs, hys, (hequal ys hxs hys).2 fun n => ?_, r, hr, hgapped, ?_⟩
  · simp [xs, ys, Interval.contains_iff, Interval.mem_iff, Interval.point]
    omega
  · rw [← Bool.not_eq_true, hfull]
    intro hall
    have hsix := hall 6
    simp [xs, Interval.contains_iff, Interval.mem_iff, Interval.point] at hsix

end IntervalSet

end DeadCast

import DeadCast.Enumeration.Basic
import DeadCast.Proofs.Datum.Order
import DeadCast.Proofs.Traversal
import DeadCast.Verdict
import Mathlib.Tactic

/-!
# The verdict is right

The search halves a window of positions.  Two facts about it are proved, and they need different
things:

* wherever it stops, it stops at the end of the window or at a position that is not below the limit
  (`search_stops`); this holds of values in any order;
* if all positions before one that is below the limit are below it too, then everything before the
  stop is below the limit (`search_skips`); this is where the order of the values is used.

From the first follows that a hit is a hit (`Verdict.exists_mem_of_hits`), from the second that no
hit is missed, and together they are the law of the verdict: a cast is dead exactly if no value of
the enumeration is a value that the operand may have (`Verdict.decide_eq_warn_iff`).

The search over values of any kind is the same search as soon as the values are integers, because
then no comparison can fail (`searchFrom_eq_ok`).  So the law holds of integers in a list, in a tuple
and in an enumeration alike (`Verdict.decideData_law`).
-/

namespace DeadCast

/-! ## The search -/

section Search

variable (below : Nat → Bool)

/-- The search without effects. -/
def search (lo hi : Nat) : Nat := Id.run (searchFrom (fun k => pure (below k)) lo hi)

/-- One step of the search: the half of the window that is kept. -/
theorem search_eq (lo hi : Nat) :
    search below lo hi =
      if lo < hi then
        if below ((lo + hi) / 2) then search below ((lo + hi) / 2 + 1) hi
        else search below lo ((lo + hi) / 2)
      else lo := by
  unfold search
  rw [searchFrom]
  split
  · simp only [pure_bind]
    split <;> rfl
  · rfl

/-- The search stays in its window, and stops at its end or where a position is not below. -/
theorem search_stops {lo hi : Nat} (h : lo ≤ hi) :
    search below lo hi ≤ hi ∧ (search below lo hi = hi ∨ below (search below lo hi) = false) := by
  -- the window shrinks with every step
  induction hn : hi - lo using Nat.strong_induction_on generalizing lo hi with
  | _ n ih =>
    rw [search_eq]
    split
    · rename_i hlt
      split
      · exact ih (hi - ((lo + hi) / 2 + 1)) (by omega) (by omega) rfl
      · rename_i hmid
        obtain ⟨hle, hstop⟩ := ih ((lo + hi) / 2 - lo) (by omega)
          (show lo ≤ (lo + hi) / 2 by omega) rfl
        refine ⟨by omega, Or.inr ?_⟩
        rcases hstop with heq | hfalse
        · rw [heq]
          simpa using hmid
        · exact hfalse
    · exact ⟨h, Or.inl (by omega)⟩

/-- If being below goes over to all earlier positions, then all positions that the search leaves
behind are below. -/
theorem search_skips (hmono : ∀ j k, j ≤ k → below k = true → below j = true) {lo hi : Nat} :
    ∀ j, lo ≤ j → j < search below lo hi → below j = true := by
  induction hn : hi - lo using Nat.strong_induction_on generalizing lo hi with
  | _ n ih =>
    intro j hlo hj
    rw [search_eq] at hj
    split at hj
    · split at hj
      · rename_i hmid
        by_cases hle : j ≤ (lo + hi) / 2
        · exact hmono j _ hle hmid
        · exact ih (hi - ((lo + hi) / 2 + 1)) (by omega) rfl j (by omega) hj
      · exact ih ((lo + hi) / 2 - lo) (by omega) rfl j hlo hj
    · omega

/-- If no comparison fails, the search with faults is the search without effects. -/
theorem searchFrom_eq_ok {isBelow : Nat → Except Fault Bool} (h : ∀ k, isBelow k = .ok (below k))
    (lo hi : Nat) : searchFrom isBelow lo hi = .ok (search below lo hi) := by
  induction hn : hi - lo using Nat.strong_induction_on generalizing lo hi with
  | _ n ih =>
    rw [searchFrom, search_eq]
    split
    · simp only [h]
      cases hmid : below ((lo + hi) / 2) with
      | true => exact ih (hi - ((lo + hi) / 2 + 1)) (by omega) ((lo + hi) / 2 + 1) hi rfl
      | false => exact ih ((lo + hi) / 2 - lo) (by omega) lo ((lo + hi) / 2) rfl
    · rfl

end Search

/-! ## One interval -/

namespace Verdict

theorem firstAdmitted_limit (values : Array Int) (a : Int) :
    firstAdmitted values (.limit a) =
      search (fun k => values[k]?.any (· < a)) 0 values.size := rfl

/-- The value that the search finds is admitted by the lower edge, whatever the order of the
values. -/
theorem admits_firstAdmitted {values : List Int} {lo : Lower} {v : Int}
    (h : values[firstAdmitted values.toArray lo]? = some v) : lo.Admits v := by
  cases lo with
  | unbounded => trivial
  | limit a =>
    rw [firstAdmitted_limit] at h
    have hlt := (List.getElem?_eq_some_iff.1 h).1
    rcases (search_stops (fun k => values.toArray[k]?.any (· < a)) (Nat.zero_le _)).2 with
      hend | hstop
    · -- the search ran to the end, where there is no value
      rw [hend] at hlt
      simp at hlt
    · rw [List.getElem?_toArray, h] at hstop
      simpa using hstop

theorem getElem_le_getElem {values : List Int} (hasc : values.Pairwise (· ≤ ·)) {j k : Nat}
    (hjk : j ≤ k) {v w : Int} (hv : values[j]? = some v) (hw : values[k]? = some w) : v ≤ w := by
  obtain ⟨hj, rfl⟩ := List.getElem?_eq_some_iff.1 hv
  obtain ⟨hk, rfl⟩ := List.getElem?_eq_some_iff.1 hw
  rcases Nat.lt_or_eq_of_le hjk with hlt | rfl
  · exact List.pairwise_iff_getElem.1 hasc j k hj hk hlt
  · exact le_refl _

/-- Among ascending values none that the lower edge admits stands before the one that is found. -/
theorem firstAdmitted_le {values : List Int} (hasc : values.Pairwise (· ≤ ·)) {lo : Lower}
    {j : Nat} {v : Int} (hv : values[j]? = some v) (hlo : lo.Admits v) :
    firstAdmitted values.toArray lo ≤ j := by
  cases lo with
  | unbounded => exact Nat.zero_le j
  | limit a =>
    rw [firstAdmitted_limit]
    by_contra hlt
    have hmono : ∀ i k : Nat, i ≤ k → values.toArray[k]?.any (· < a) = true →
        values.toArray[i]?.any (· < a) = true := by
      intro i k hik hk
      simp only [List.getElem?_toArray, Option.any_eq_true, decide_eq_true_eq] at hk ⊢
      obtain ⟨w, hw, hwa⟩ := hk
      have hi : i < values.length := lt_of_le_of_lt hik (List.getElem?_eq_some_iff.1 hw).1
      refine ⟨values[i], List.getElem?_eq_getElem hi, ?_⟩
      exact lt_of_le_of_lt (getElem_le_getElem hasc hik (List.getElem?_eq_getElem hi) hw) hwa
    have hbelow := search_skips _ hmono j (Nat.zero_le j) (not_le.1 hlt)
    rw [List.getElem?_toArray, hv] at hbelow
    simp only [Option.any_some, decide_eq_true_eq] at hbelow
    exact absurd hlo (not_le.2 hbelow)

/-- A hit is a hit: some value is in the interval, whatever the order of the values. -/
theorem exists_mem_of_hits {values : List Int} {i : Interval} (h : hits values.toArray i = true) :
    ∃ v ∈ values, v ∈ i := by
  unfold hits at h
  split at h
  · rename_i v hv
    rw [List.getElem?_toArray] at hv
    exact ⟨v, List.mem_of_getElem? hv, admits_firstAdmitted hv, of_decide_eq_true h⟩
  · cases h

/-- Among ascending values no hit is missed. -/
theorem hits_of_mem {values : List Int} (hasc : values.Pairwise (· ≤ ·)) {i : Interval} {v : Int}
    (hv : v ∈ values) (hvi : v ∈ i) : hits values.toArray i = true := by
  obtain ⟨j, hj⟩ := List.mem_iff_getElem?.1 hv
  have hle := firstAdmitted_le hasc hj hvi.1
  have hlt : firstAdmitted values.toArray i.lo < values.length :=
    lt_of_le_of_lt hle (List.getElem?_eq_some_iff.1 hj).1
  unfold hits
  rw [List.getElem?_toArray, List.getElem?_eq_getElem hlt]
  -- the value that is found is not above `v`, so the upper edge admits it too
  exact decide_eq_true (hvi.2.mono (getElem_le_getElem hasc hle (List.getElem?_eq_getElem hlt) hj))

/-! ## A set -/

/-- A cast is safe only if some value is in the set, whatever the order of the values. -/
theorem exists_mem_of_decide_eq_safe {values : List Int} {r : IntervalSet}
    (h : decide values r = .safe) : ∃ v ∈ values, v ∈ r := by
  unfold decide at h
  split at h
  · rename_i hany
    obtain ⟨i, hi, hit⟩ := List.any_eq_true.1 hany
    obtain ⟨v, hv, hvi⟩ := exists_mem_of_hits hit
    exact ⟨v, hv, i, hi, hvi⟩
  · cases h

theorem decide_eq_safe_of_mem {values : List Int} (hasc : values.Pairwise (· ≤ ·))
    {r : IntervalSet} {v : Int} (hv : v ∈ values) (hvr : v ∈ r) : decide values r = .safe := by
  obtain ⟨i, hi, hvi⟩ := hvr
  unfold decide
  rw [if_pos (List.any_eq_true.2 ⟨i, hi, hits_of_mem hasc hv hvi⟩)]

/-- **The law of the verdict.**  For ascending values a cast is dead exactly if no value is in the
set. -/
theorem decide_eq_warn_iff {values : List Int} (hasc : values.Pairwise (· ≤ ·))
    {r : IntervalSet} : decide values r = .warn ↔ ∀ v ∈ values, v ∉ r := by
  constructor
  · intro h v hv hvr
    rw [decide_eq_safe_of_mem hasc hv hvr] at h
    cases h
  · intro h
    cases hd : decide values r with
    | warn => rfl
    | safe =>
      obtain ⟨v, hv, hvr⟩ := exists_mem_of_decide_eq_safe hd
      exact absurd hvr (h v hv)

/-- A dead cast stays dead if the set shrinks. -/
theorem decide_eq_warn_of_subset {values : List Int} (hasc : values.Pairwise (· ≤ ·))
    {r s : IntervalSet} (hsub : ∀ n, n ∈ s → n ∈ r) (h : decide values r = .warn) :
    decide values s = .warn := by
  rw [decide_eq_warn_iff hasc] at h ⊢
  exact fun v hv hvs => h v hv (hsub v hvs)

/-! ## Values that are integers -/

theorem getElem?_map_int (values : List Int) (k : Nat) :
    (values.map Datum.int).toArray[k]? = values.toArray[k]?.map .int := by
  simp

/-- The search for the first value that a lower limit admits is the same search. -/
theorem searchFrom_integers (values : List Int) (a : Int) :
    searchFrom (fun k => match (values.map Datum.int).toArray[k]? with
      | some v => Datum.compare .less v (.int a)
      | none => pure false) 0 (values.map Datum.int).toArray.size =
        .ok (firstAdmitted values.toArray (.limit a)) := by
  have hsize : (values.map Datum.int).toArray.size = values.toArray.size := by simp
  rw [hsize, firstAdmitted_limit]
  refine searchFrom_eq_ok _ (fun k => ?_) 0 _
  rw [getElem?_map_int]
  cases values.toArray[k]? with
  | none => rfl
  | some v => exact Datum.compare_less_int v a

/-- One interval and values that are integers: no comparison fails, and a hit is the same hit. -/
theorem hitsData_integers (values : List Int) (i : Interval) :
    hitsData (values.map .int).toArray i = .ok (hits values.toArray i) := by
  unfold hitsData hits
  cases i.lo with
  | unbounded =>
    simp only [pure_bind, getElem?_map_int, firstAdmitted]
    cases values.toArray[0]? with
    | none => rfl
    | some v => exact Datum.compare_atMost_upper v i.hi
  | limit a =>
    refine (congrArg (fun first => first >>= _) (searchFrom_integers values a)).trans ?_
    simp only [bind, Except.bind, getElem?_map_int]
    cases values.toArray[firstAdmitted values.toArray (.limit a)]? with
    | none => rfl
    | some v => exact Datum.compare_atMost_upper v i.hi

theorem decide_nil (r : IntervalSet) : decide [] r = .warn :=
  (decide_eq_warn_iff List.Pairwise.nil).2 fun _ hv => absurd hv List.not_mem_nil

/-- Values that are integers get the verdict on the integers. -/
theorem decideData_integers {d : Datum} {values : List Int} (r : IntervalSet)
    (htrue : d.isTrue = !values.isEmpty)
    (hitems : ∀ lo, positions d lo = .ok (values.map .int).toArray) :
    decideData d (.ranges r) = .ok (decide values r) := by
  unfold decideData
  simp only [htrue, hitems]
  cases values with
  | nil =>
    rw [decide_nil]
    rfl
  | cons v rest =>
    have hany := anyM_eq_ok (hitsData_integers (v :: rest)) r.parts
    simp only [List.isEmpty_cons, Bool.not_false, if_true, bind, Except.bind, hany]
    unfold decide
    split <;> rfl

/-- **The law of the verdict.**  Integers in a list and in a tuple, as an enumeration keeps them, get
the same verdict.  If they are ascending, it is `warn` exactly if none of them is contained in the
set; and in any order it is `safe` only if one of them is. -/
theorem decideData_law (values : List Int) (r : IntervalSet) :
    ∃ verdict, decideData (.list (values.map .int)) (.ranges r) = .ok verdict ∧
      decideData (.tuple (values.map .int)) (.ranges r) = .ok verdict ∧
      (∀ {σ : Type} (e : EnumValues σ), e.values = values → decide e.values r = verdict) ∧
      (values.Pairwise (· ≤ ·) → (verdict = .warn ↔ ∀ v ∈ values, r.contains v = false)) ∧
      (verdict = .safe → ∃ v ∈ values, r.contains v = true) := by
  have htrue : (values.map Datum.int).isEmpty = values.isEmpty := by simp
  refine ⟨decide values r, ?_, ?_, ?_, ?_, ?_⟩
  · exact decideData_integers r (by rw [Datum.isTrue, htrue]) fun _ => rfl
  · exact decideData_integers r (by rw [Datum.isTrue, htrue]) fun _ => rfl
  · intro σ e he
    rw [he]
  · intro hasc
    rw [decide_eq_warn_iff hasc]
    simp only [← Bool.not_eq_true, IntervalSet.contains_iff]
  · intro hsafe
    simpa only [IntervalSet.contains_iff] using exists_mem_of_decide_eq_safe hsafe

/-- Values on both sides of each interval, but in none; and values out of order, one of which is
found. -/
theorem decideData_law_twoParts :
    let r : IntervalSet := ⟨[.point 2, ⟨.limit 4, .limit 7, by decide⟩], by decide, by decide⟩
    ([1, 3, 3, 8] : List Int).Pairwise (· ≤ ·) ∧
      decideData (.tuple [.int 1, .int 3, .int 3, .int 8]) (.ranges r) = .ok .warn ∧
      decideData (.list [.int 6, .int 5, .int 1]) (.ranges r) = .ok .safe ∧
      ∃ v ∈ ([6, 5, 1] : List Int), r.contains v = true := by
  intro r
  have hasc : ([1, 3, 3, 8] : List Int).Pairwise (· ≤ ·) := by decide
  obtain ⟨verdict, -, htuple, -, hwarn, -⟩ := decideData_law [1, 3, 3, 8] r
  obtain ⟨other, hlist, -, henum, -, hsafe⟩ := decideData_law [6, 5, 1] r
  have hnone : ∀ v ∈ ([1, 3, 3, 8] : List Int), r.contains v = false := by decide
  let e : EnumValues Unit := ⟨⟨.nothing, .text "", ()⟩, [6, 5, 1], 0⟩
  have hother : other = .safe := by
    rw [← henum e rfl]
    simp [e, decide, r, hits, firstAdmitted, searchFrom, Interval.point]
  subst hother
  rw [(hwarn hasc).2 hnone] at htuple
  exact ⟨hasc, htuple, hlist, hsafe rfl⟩

end Verdict

/-- The law of the verdict for a list of the integers with a property. -/
theorem Lists.decide_eq_warn_iff {values : List Int} {P : Int → Prop} (h : Lists values P)
    {r : IntervalSet} : Verdict.decide values r = .warn ↔ ∀ n ∈ r, ¬ P n := by
  rw [Verdict.decide_eq_warn_iff (h.1.imp le_of_lt)]
  constructor
  · intro hnone n hn hP
    exact hnone n ((h.2 n).2 hP) hn
  · intro hnone v hv hvr
    exact hnone v hvr ((h.2 v).1 hv)

end DeadCast

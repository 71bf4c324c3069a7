import DeadCast.Datum.Use
import Mathlib.Tactic

/-!
# Equality of keys is equality of canonical forms

Keys are compared across kinds: a truth value equals the number that it counts as, an integer the
binary number of the same worth, and tuples are compared item by item.  `Datum.canonical` chooses
one value of each group of equal ones, and `Datum.sameKey_iff` says that two keys are equal exactly
if they have the same canonical form.  So equality of keys is an equivalence, which is what looking
things up under a key rests on.

For a value that is not the undefined number this equality is the plain one
(`Datum.sameKey_eq_same`); the undefined number equals nothing, not even itself, but is found again
under itself.
-/

namespace DeadCast

namespace Datum

/-! ## Canonical forms -/

/-- One binary number for each worth.  Undefined numbers differ by their marks. -/
def canonicalReal : Binary64 → Binary64
  | .finite q => .finite q
  | .negativeZero => .finite 0
  | .infinite negative => .infinite negative
  | .undefined mark => .undefined mark

mutual

/-- One value of each group of values that are equal as keys. -/
def canonical : Datum → Datum
  | .bool b => .real (.finite (if b then 1 else 0))
  | .int n => .real (.finite n)
  | .real x => .real (canonicalReal x)
  | .list items => .list (canonicalItems items)
  | .tuple items => .tuple (canonicalItems items)
  | d => d

/-- The canonical forms of the items of a list. -/
def canonicalItems : List Datum → List Datum
  | [] => []
  | d :: ds => canonical d :: canonicalItems ds

end

theorem sameKey_real_iff {x y : Binary64} :
    sameKey (.real x) (.real y) = true ↔ canonicalReal x = canonicalReal y := by
  cases x <;> cases y <;>
    simp [sameKey, sameUndefined, same, numeric?, Binary64.numeric, Numeric.same, canonicalReal]

/-- The worth of a number decides about equality with a number that is not binary. -/
theorem exact_same_iff {q : Rat} {x : Binary64} :
    Numeric.same (.exact q) x.numeric = true ↔ Binary64.finite q = canonicalReal x := by
  cases x <;> simp [Binary64.numeric, Numeric.same, canonicalReal]

theorem same_exact_iff {q : Rat} {x : Binary64} :
    Numeric.same x.numeric (.exact q) = true ↔ canonicalReal x = Binary64.finite q := by
  cases x <;> simp [Binary64.numeric, Numeric.same, canonicalReal]

mutual

/-- **Equality of keys is equality of canonical forms.** -/
theorem sameKey_iff (a b : Datum) : a.sameKey b = true ↔ a.canonical = b.canonical := by
  cases a with
  | bool x =>
    cases b with
    | real y =>
      simp only [sameKey, sameUndefined, same, numeric?, Bool.false_or, exact_same_iff, canonical,
        real.injEq]
    | _ => simp [sameKey, sameUndefined, same, canonical, numeric?, Numeric.same]
  | int m =>
    cases b with
    | real y =>
      simp only [sameKey, sameUndefined, same, numeric?, Bool.false_or, exact_same_iff, canonical,
        real.injEq]
    | _ => simp [sameKey, sameUndefined, same, canonical, numeric?, Numeric.same]
  | real x =>
    cases b with
    | real y => simp only [sameKey_real_iff, canonical, real.injEq]
    | bool y =>
      simp only [sameKey, sameUndefined, same, numeric?, Bool.false_or, same_exact_iff, canonical,
        real.injEq]
    | int n =>
      simp only [sameKey, sameUndefined, same, numeric?, Bool.false_or, same_exact_iff, canonical,
        real.injEq]
    | _ => simp [sameKey, sameUndefined, same, canonical, numeric?]
  | list as =>
    cases b with
    | list bs =>
      have hitems := sameItems_iff as bs
      simp only [sameKey, sameUndefined, same, Bool.false_or, hitems, canonical, list.injEq]
    | _ => simp [sameKey, sameUndefined, same, canonical, numeric?]
  | tuple as =>
    cases b with
    | tuple bs =>
      have hitems := sameItems_iff as bs
      simp only [sameKey, sameUndefined, same, Bool.false_or, hitems, canonical, tuple.injEq]
    | _ => simp [sameKey, sameUndefined, same, canonical, numeric?]
  | _ => cases b <;> simp [sameKey, sameUndefined, same, canonical, numeric?]

/-- Items are equal one by one. -/
theorem sameItems_iff (as bs : List Datum) :
    sameItems as bs = true ↔ canonicalItems as = canonicalItems bs := by
  cases as with
  | nil => cases bs <;> simp [sameItems, canonicalItems]
  | cons a as =>
    cases bs with
    | nil => simp [sameItems, canonicalItems]
    | cons b bs =>
      have hstep : sameItems (a :: as) (b :: bs) = (sameKey a b && sameItems as bs) := by
        simp only [sameItems, sameKey]
      rw [hstep, Bool.and_eq_true, sameKey_iff a b, sameItems_iff as bs]
      simp only [canonicalItems, List.cons.injEq]

end

/-! ## What follows for keys -/

@[simp]
theorem sameKey_refl (a : Datum) : a.sameKey a = true := (sameKey_iff a a).2 rfl

/-- The same keys are equal to equal keys. -/
theorem sameKey_congr {a b : Datum} (hab : a.sameKey b = true) (c : Datum) :
    c.sameKey a = c.sameKey b := by
  rw [Bool.eq_iff_iff, sameKey_iff, sameKey_iff, (sameKey_iff a b).1 hab]

@[simp]
theorem sameKey_int {m n : Int} : sameKey (.int m) (.int n) = true ↔ m = n := by
  rw [sameKey_iff]
  simp [canonical]

/-- Pairs are equal part by part. -/
@[simp]
theorem sameKey_pair (a b c d : Datum) :
    sameKey (.tuple [a, b]) (.tuple [c, d]) = (a.sameKey c && b.sameKey d) := by
  rw [Bool.eq_iff_iff, Bool.and_eq_true, sameKey_iff, sameKey_iff, sameKey_iff]
  simp [canonical, canonicalItems]

/-- Is the value the undefined number? -/
def isUndefined : Datum → Bool
  | .real (.undefined _) => true
  | _ => false

/-- The undefined number apart, equality of keys is equality of values. -/
theorem sameKey_eq_same {a : Datum} (h : a.isUndefined = false) (b : Datum) :
    a.sameKey b = a.same b := by
  unfold sameKey
  rw [Bool.or_eq_right_iff_imp]
  intro hu
  unfold sameUndefined at hu
  split at hu
  · cases h
  · cases hu

/-! ## Texts -/

@[simp]
theorem isText_iff {d : Datum} {s : String} : d.isText s = true ↔ d = .text s := by
  cases d <;> simp [isText, same, numeric?]

theorem sameKey_text_iff {d : Datum} {s : String} :
    (Datum.text s).sameKey d = true ↔ d = .text s := by
  cases d with
  | text t =>
    simp only [sameKey, sameUndefined, same, Bool.false_or, beq_iff_eq, text.injEq]
    exact eq_comm
  | _ => simp [sameKey, sameUndefined, same, numeric?]

/-- A value is found among texts exactly if it is one of them. -/
theorem isAmong_texts_iff {d : Datum} {ds : List Datum} (h : ∀ x ∈ ds, ∃ s, x = .text s) :
    d.isAmong ds = true ↔ d ∈ ds := by
  rw [isAmong, List.any_eq_true]
  constructor
  · rintro ⟨x, hx, hsame⟩
    obtain ⟨s, rfl⟩ := h x hx
    rwa [sameKey_text_iff.1 hsame]
  · intro hd
    exact ⟨d, hd, sameKey_refl d⟩

end Datum

end DeadCast

import DeadCast.Solver.Formula
import Mathlib.Tactic

/-!
# Words and their signed reading

A word of a given width is written as its residue, and a comparison or an objective reads it as a
number in two's complement (`Domain.reading`).  That reading is the usual one
(`Domain.reading_words`), so it lies between `-2 ^ (w - 1)` and `2 ^ (w - 1) - 1`
(`Domain.reading_bounds`).

Terms and conditions see the variable through its residue only (`Term.value_wrap`,
`Formula.holds_wrap`), so it does not matter which integer stands for a word.
-/

namespace DeadCast

namespace Domain

theorem wordCount_eq (w : Nat) : (wordCount w : Int) = 2 ^ w := by
  simp [wordCount]

@[simp]
theorem wrap_wrap (d : Domain) (n : Int) : d.wrap (d.wrap n) = d.wrap n := by
  cases d <;> simp [wrap]

theorem wrap_words_bounds (w : Nat) (n : Int) :
    0 ≤ wrap (.words w) n ∧ wrap (.words w) n < 2 ^ w := by
  have hpos : (0 : Int) < 2 ^ w := by positivity
  rw [wrap, wordCount_eq]
  exact ⟨Int.emod_nonneg n hpos.ne', Int.emod_lt_of_pos n hpos⟩

/-- Twice as many words with one more bit. -/
theorem wordCount_half {w : Nat} (hw : 0 < w) :
    (wordCount w : Int) = 2 * wordCount (w - 1) := by
  rw [wordCount_eq, wordCount_eq, ← pow_succ', Nat.sub_add_cancel hw]

/-- The residue of a number that has a signed reading. -/
theorem wrap_words_of_bounds {w : Nat} (hw : 0 < w) {n : Int}
    (hn : -wordCount (w - 1) ≤ n ∧ n < wordCount (w - 1)) :
    wrap (.words w) n = if n < 0 then n + wordCount w else n := by
  have hhalf := wordCount_half hw
  rw [wrap]
  split
  · rw [← Int.add_emod_right, Int.emod_eq_of_lt (by omega) (by omega)]
  · exact Int.emod_eq_of_lt (by omega) (by omega)

/-- A residue read with a sign is at most half of the words away from zero. -/
theorem signed_words_bounds {w : Nat} (hw : 0 < w) {n : Int} (hn : 0 ≤ n ∧ n < 2 ^ w) :
    -2 ^ (w - 1) ≤ signed (.words w) n ∧ signed (.words w) n ≤ 2 ^ (w - 1) - 1 := by
  have hhalf := wordCount_half hw
  rw [wordCount_eq, wordCount_eq] at hhalf
  rw [signed, wordCount_eq]
  split <;> omega

/-- What an integer says in a domain: itself, or in words the signed reading of its residue. -/
def reading (d : Domain) (n : Int) : Int := d.signed (d.wrap n)

/-- **The signed reading stays in its range.** -/
theorem reading_bounds {w : Nat} (hw : 0 < w) (n : Int) :
    -2 ^ (w - 1) ≤ reading (.words w) n ∧ reading (.words w) n ≤ 2 ^ (w - 1) - 1 :=
  signed_words_bounds hw (wrap_words_bounds w n)

/-- **The signed reading is two's complement.** -/
theorem reading_words (w : Nat) (n : Int) : reading (.words w) n = (BitVec.ofInt w n).toInt := by
  have hcount : ((2 ^ w : Nat) : Int) = wordCount w := rfl
  rw [BitVec.toInt_ofInt, Int.bmod, hcount, reading, wrap, signed]
  generalize n % (wordCount w : Int) = r
  generalize (wordCount w : Int) = m
  split <;> split <;> omega

/-- The signed reading has the residue of what it was read from. -/
theorem wrap_reading (w : Nat) (n : Int) :
    wrap (.words w) (reading (.words w) n) = wrap (.words w) n := by
  rw [reading_words, BitVec.toInt_ofInt]
  exact Int.bmod_emod

/-- A number in the range of the signed reading is read as itself. -/
theorem reading_of_bounds {w : Nat} (hw : 0 < w) {n : Int}
    (hn : -wordCount (w - 1) ≤ n ∧ n < wordCount (w - 1)) : reading (.words w) n = n := by
  have hhalf := wordCount_half hw
  rw [reading, wrap_words_of_bounds hw hn, signed]
  split <;> split <;> omega

end Domain

namespace Term

theorem value_wrap (d : Domain) (n : Int) (t : Term) : t.value d (d.wrap n) = t.value d n := by
  induction t with
  | x => exact d.wrap_wrap n
  | const c => rfl
  | neg a ih => simp only [value, ih]
  | add a b iha ihb => simp only [value, iha, ihb]
  | sub a b iha ihb => simp only [value, iha, ihb]
  | mul a b iha ihb => simp only [value, iha, ihb]
  | and a b iha ihb => simp only [value, iha, ihb]
  | or a b iha ihb => simp only [value, iha, ihb]
  | xor a b iha ihb => simp only [value, iha, ihb]

end Term

namespace Formula

mutual

theorem holds_wrap (d : Domain) (n : Int) : ∀ f : Formula, f.holds d (d.wrap n) = f.holds d n
  | .const b => rfl
  | .not f => by rw [holds, holds, holds_wrap d n f]
  | .all fs => by rw [holds, holds, allHold_wrap d n fs]
  | .any fs => by rw [holds, holds, anyHolds_wrap d n fs]
  | .compare r a b => by rw [holds, holds, a.value_wrap, b.value_wrap]

theorem allHold_wrap (d : Domain) (n : Int) :
    ∀ fs : List Formula, allHold d (d.wrap n) fs = allHold d n fs
  | [] => rfl
  | f :: fs => by rw [allHold, allHold, holds_wrap d n f, allHold_wrap d n fs]

theorem anyHolds_wrap (d : Domain) (n : Int) :
    ∀ fs : List Formula, anyHolds d (d.wrap n) fs = anyHolds d n fs
  | [] => rfl
  | f :: fs => by rw [anyHolds, anyHolds, holds_wrap d n f, anyHolds_wrap d n fs]

end

end Formula

end DeadCast

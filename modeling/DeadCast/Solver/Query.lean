import DeadCast.Datum.Ranges
import DeadCast.Log
import DeadCast.Options
import DeadCast.Solver.Objective

/-!
# Ranges from a solver

A front end that keeps the condition of a path as a list of constraints can bound an operand with a
solver that optimizes: the least and the greatest value of the operand under the constraints are the
edges of its range.  Values in between that the constraints forbid are not found out.

The solver is a program of its own, so it is a parameter: what it answers, and how it hands an
integer over.  An inquiry records the calls that it makes.
-/

namespace DeadCast

/-- Which end of the values is looked for. -/
inductive Direction where
  | least
  | greatest
  deriving DecidableEq, Repr

/-- What a solver says about the best value of an objective. -/
inductive Answer where
  | unsatisfiable
  /-- The solver gave up. -/
  | undecided
  | optimum (n : Int)
  /-- There are values beyond every bound. -/
  | unbounded
  deriving DecidableEq, Repr

/-- A solver, for constraints `κ` and operands `ω`. -/
structure Solver (κ ω : Type) where
  answer : Direction → List κ → Objective ω → Answer
  /-- Hands an optimum over as an integer. -/
  handOver : Int → Except Fault Int

/-- A call of the solver. -/
inductive SolverCall (κ ω : Type) where
  | setTimeout (milliseconds : Datum)
  | add (constraint : κ)
  | optimize (direction : Direction) (objective : Objective ω)
  | check

/-- What an inquiry comes to: the calls of the solver, what is logged, and the range; no range if
the solver has none. -/
structure Inquiry (κ ω : Type) where
  calls : List (SolverCall κ ω) := []
  log : List LogLine := []
  result : Except Fault (Option IntervalSet)

namespace Inquiry

variable {κ ω : Type}

/-- The calls for one optimum. -/
def callsFor (timeout : Datum) (d : Direction) (guard : List κ) (objective : Objective ω) :
    List (SolverCall κ ω) :=
  .setTimeout timeout :: guard.map .add ++ [.optimize d objective, .check]

/-- The line that tells that the solver gave up. -/
def gaveUpLine (name : String) (d : Direction) : LogLine :=
  let side := match d with
    | .least => "below"
    | .greatest => "above"
  ⟨.info, .solver, "z3 could not bound " ++ name ++ " from " ++ side ++ "; range unavailable"⟩

/-- The answer about one end: what comes of it if it is no edge, or the integer edge; none if the
end is open. -/
def edge (handOver : Int → Except Fault Int) (name : String) (d : Direction) : Answer →
    Except (List LogLine × Except Fault (Option IntervalSet)) (Option Int)
  | .unsatisfiable => .error ([], .error RangeFault.unsatisfiable.raised)
  | .undecided => .error ([gaveUpLine name d], .ok none)
  | .optimum n =>
    match handOver n with
    | .ok m => .ok (some m)
    | .error fault => .error ([], .error fault)
  | .unbounded => .ok none

/-- A lower edge that may be open. -/
def lowerOf : Option Int → Lower
  | some n => .limit n
  | none => .unbounded

/-- An upper edge that may be open. -/
def upperOf : Option Int → Upper
  | some n => .limit n
  | none => .unbounded

/-- Asks a solver for the range of an objective under a guard. -/
def ofObjective (solver : Solver κ ω) (timeout : Datum) (name : String) (o : Objective ω)
    (guard : List κ) : Inquiry κ ω :=
  let below := callsFor timeout .least guard o
  match edge solver.handOver name .least (solver.answer .least guard o) with
  | .error (log, result) => ⟨below, log, result⟩
  | .ok lo =>
    let both := below ++ callsFor timeout .greatest guard o
    match edge solver.handOver name .greatest (solver.answer .greatest guard o) with
    | .error (log, result) => ⟨both, log, result⟩
    | .ok hi =>
      let whole := (Interval.between (lowerOf lo) (upperOf hi)).mapError RangeFault.raised
      ⟨both, [], whole.map (some ∘ .ofInterval)⟩

/-- The range as an answer to an audit. -/
def range (q : Inquiry κ ω) : Except Fault Datum :=
  match q.result with
  | .ok (some r) => .ok (.ranges r)
  | .ok none => .ok .unavailable
  | .error f => .error f

end Inquiry

/-- A query for ranges, with the time that the solver is given in milliseconds. -/
structure RangeQuery where
  timeout : Datum := .int 5000

namespace RangeQuery

/-- A query can only be made if the solver is installed. -/
def make (installed : Bool) (timeout : Datum := .int 5000) : Except Fault RangeQuery :=
  if installed then .ok ⟨timeout⟩ else .error .noSolver

/-- The query that the options ask for. -/
def ofOptions (installed : Bool) (o : Options) : Except Fault RangeQuery :=
  make installed o.solverTimeout

/-- Asks for the range of an operand under a guard.  Without an objective there is no range. -/
def ask {κ ω : Type} (q : RangeQuery) (solver : Solver κ ω) (domain : Domain) (name : String)
    (operand : ω) (guard : List κ) : Inquiry κ ω :=
  match Objective.ofOperand domain operand with
  | none => { result := .ok none }
  | some o => .ofObjective solver q.timeout name o guard

end RangeQuery

end DeadCast

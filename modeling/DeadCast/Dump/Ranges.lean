import DeadCast.Datum.Ranges
import DeadCast.Dump.Known

/-!
# Operand ranges from facts

For one path the facts that hold on it, or on every path, are put together.  A fact of the kind
`impossible` rules something out: everything up to its value, everything from its value on, or the
value alone, as its bound says.  A fact of the kind `known` fixes the value, and of several the last
one counts.  Facts of other kinds say nothing that holds for sure.

If nothing is left, or the known value is ruled out, the facts contradict each other; that is a
range fault.  Without any fact the operand may be anything.
-/

namespace DeadCast

/-- What a fact says for sure. -/
inductive Clue where
  | equals (n : Int)
  | atLeast (n : Int)
  | atMost (n : Int)
  | differs (n : Int)
  deriving DecidableEq, Repr

namespace Fact

/-- The bound of a fact; without one the value alone is meant. -/
def boundOf (f : Fact) : Datum := (f.bound.getD .nothing).orElse (.text "Point")

/-- What a fact about the integer `n` says. -/
def clueAbout? (f : Fact) (n : Int) : Option Clue :=
  if f.kindOf.isText "known" then some (.equals n)
  else if f.kindOf.isText "impossible" then
    if f.boundOf.isText "Upper" then some (.atLeast (n + 1))
    else if f.boundOf.isText "Lower" then some (.atMost (n - 1))
    else some (.differs n)
  else none

/-- What a fact says on a path, if it holds there. -/
def clueOn (f : Fact) (path : Int) : Except Fault (Option Clue) := do
  let own ← f.pathId
  if own = 0 ∨ own = path then
    return (← f.integer).bind f.clueAbout?
  else
    return none

end Fact

/-- What is known about an operand on a path. -/
structure Knowledge where
  lo : Lower := .unbounded
  hi : Upper := .unbounded
  holes : List Int := []
  known : Option Int := none
  deriving DecidableEq, Repr

namespace Knowledge

/-- Takes a clue in. -/
def learn (k : Knowledge) : Clue → Knowledge
  | .equals n => { k with known := some n }
  | .atLeast n => { k with lo := k.lo.tighten n }
  | .atMost n => { k with hi := k.hi.tighten n }
  | .differs n => { k with holes := k.holes ++ [n] }

/-- The integers between the bounds, without the holes. -/
def possible (k : Knowledge) (path : Int) : Except RangeFault IntervalSet := do
  let whole ← match Interval.between k.lo k.hi with
    | .error (.inverted a b) => .error (.contradictoryBounds path a b)
    | other => other
  if k.holes.isEmpty then return .ofInterval whole
  else ((IntervalSet.ofInterval whole).exclude k.holes).mapError .ofFlaw

/-- The values that the operand may have. -/
def ranges (k : Knowledge) (path : Int) : Except RangeFault IntervalSet := do
  let possible ← k.possible path
  match k.known with
  | none => return possible
  | some n => if possible.contains n then return .point n else throw (.knownExcluded path n)

end Knowledge

/-- The types whose values are integers. -/
def integralTypes : List Datum :=
  [.text "bool", .text "char", .text "short", .text "wchar_t", .text "char16_t", .text "char32_t",
    .text "int", .text "long", .text "long long", .text "unknown int"]

/-- Is it a type of integers, and no pointer? -/
def ValueType.isIntegral (v : ValueType) : Except Fault Bool := do
  if (v.pointer.getD (.int 0)).isTrue then return false
  let type := v.type.getD (.text "")
  type.asKey
  return type.isAmong integralTypes

namespace Token

/-- What the facts about a token say on a path. -/
def clues (t : Token) (path : Int) : Except Fault (List Clue) := do
  return (← t.facts.mapM (·.clueOn path)).filterMap id

/-- The values that a token may have on a path, as its facts say. -/
def factRanges (t : Token) (path : Int) : Except Fault IntervalSet := do
  let k := (← t.clues path).foldl Knowledge.learn {}
  (k.ranges path).mapError RangeFault.raised

/-- Does the token have a value that is an integer? -/
def isIntegral (t : Token) : Except Fault Bool :=
  match t.valueType with
  | some v => v.isIntegral
  | none => .ok false

/-- The values that a token may have on a path; nothing is said of one that is no integer. -/
def rangeOn (t : Token) (path : Datum) : Except Fault Datum := do
  if ← t.isIntegral then
    let path ← (path.orElse (.int 0)).toInteger
    return .ranges (← t.factRanges path)
  else
    return .unavailable

/-- The same for an operand that may be missing. -/
def rangeOf (operand : Option Token) (path : Datum) : Except Fault Datum :=
  match operand with
  | some t => t.rangeOn path
  | none => .ok .unavailable

end Token

end DeadCast

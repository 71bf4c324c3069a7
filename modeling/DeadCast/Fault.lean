import DeadCast.Datum.Basic

/-!
# Faults

Whatever can go wrong is a `Fault`: a constructor names the cause and carries what the message
needs, and `Fault.message` is the one place where causes are put into words.

A `RangeFault` is special.  It says that range information breaks its contract (an empty set,
inverted edges, facts that contradict each other).  The checker counts such a fault and goes on,
while every other fault ends what it was doing.  `RangeFault.raised` is how it comes up.
-/

namespace DeadCast

/-! ## Range faults -/

/-- How range information breaks its contract. -/
inductive RangeFault where
  | lowerEdge (given : Datum)
  | upperEdge (given : Datum)
  | inverted (lo hi : Int)
  | empty
  | notInterval (member : Datum)
  | misordered (a b : Interval)
  | notRanges (given : Datum)
  | contradictoryBounds (path lo hi : Int)
  | knownExcluded (path known : Int)
  | unsatisfiable
  /-- A fault that a range query found on its own. -/
  | reported (detail : String) (payload : Datum)

namespace RangeFault

/-- A flaw of a list of intervals as a fault. -/
def ofFlaw : IntervalSet.Flaw → RangeFault
  | .empty => .empty
  | .misordered a b => .misordered a b

/-- What is wrong, in words. -/
def detail : RangeFault → String
  | .lowerEdge _ => "interval lower edge must be an int or NEG_INF"
  | .upperEdge _ => "interval upper edge must be an int or POS_INF"
  | .inverted _ _ => "inverted interval"
  | .empty => "empty range-set (infeasible path)"
  | .notInterval _ => "range-set member is not an Interval"
  | .misordered _ _ => "range-set intervals must be sorted and disjoint"
  | .notRanges _ => "oracle expects a RangeSet"
  | .contradictoryBounds path _ _ => "contradictory ValueFlow bounds on path " ++ decimal path
  | .knownExcluded path _ =>
    "known value contradicts impossible values on path " ++ decimal path
  | .unsatisfiable => "path constraints are unsatisfiable"
  | .reported detail _ => detail

/-- The value that is at fault, if there is one. -/
def payload : RangeFault → Datum
  | .lowerEdge given => given
  | .upperEdge given => given
  | .inverted lo hi => .tuple [.int lo, .int hi]
  | .empty => .nothing
  | .notInterval member => member
  | .misordered a b => .tuple [.text a.text, .text b.text]
  | .notRanges given => given
  | .contradictoryBounds _ lo hi => .tuple [.int lo, .int hi]
  | .knownExcluded _ known => .int known
  | .unsatisfiable => .nothing
  | .reported _ payload => payload

/-- Can the fault be put into words?  Not if an integer in them is too long to be written. -/
def isWritable : RangeFault → Bool
  | .misordered a b => a.isWritable && b.isWritable
  | .contradictoryBounds path lo hi =>
    DeadCast.isWritable path && DeadCast.isWritable lo && DeadCast.isWritable hi
  | .knownExcluded path known => DeadCast.isWritable path && DeadCast.isWritable known
  | f => f.payload.isWritable

/-- The words followed by the value at fault. -/
def message (f : RangeFault) : String :=
  if f.payload.isNothing then f.detail else f.detail ++ ": " ++ f.payload.literal

end RangeFault

/-! ## All faults -/

/-- The four comparisons of order. -/
inductive Comparison where
  | less
  | atMost
  | greater
  | atLeast
  deriving DecidableEq, Repr

/-- The sign of a comparison. -/
def Comparison.sign : Comparison → String
  | .less => "<"
  | .atMost => "<="
  | .greater => ">"
  | .atLeast => ">="

/-- The kinds of failure that a collaborator may raise on its own. -/
inductive ForeignKind where
  | value
  | type
  | key
  | system
  | runtime
  | parse
  deriving DecidableEq, Repr

/-- Whatever can go wrong. -/
inductive Fault where
  /-- Range information breaks its contract. -/
  | range (f : RangeFault)
  /-- An option has a value that it must not have. -/
  | option (name text : String)
  /-- A dump cannot be loaded; `cause` is the reason that the reader gave. -/
  | dump (path : String) (cause : Option String)
  /-- Any other fault that is named by its text alone. -/
  | general (text : String)
  /-- Two values have no order. -/
  | incomparable (op : Comparison) (left right : String)
  /-- The items of something that has none were asked for. -/
  | notIterable (kind : String)
  /-- A member was looked for in something that has none. -/
  | notContainer (kind : String)
  /-- Something that may change was used as a key. -/
  | unhashable (kind : String)
  /-- The length of something that has none was asked for. -/
  | unsized (kind : String)
  /-- A search was to run over something that has a length but no positions. -/
  | unindexed (kind : String)
  /-- The item at a position of something that has no positions was asked for. -/
  | unsubscriptable (kind : String)
  /-- A sum or difference of things that are no numbers. -/
  | notAddable (sign left right : String)
  /-- Something that has no integer value was to be made an integer. -/
  | notInteger (kind : String)
  /-- A text that is no decimal numeral was to be made an integer. -/
  | badNumeral (text : String)
  /-- A decimal numeral has too many digits. -/
  | longNumeral (digits : Nat)
  /-- An integer has too many digits to be written. -/
  | longInteger
  /-- What is not a number was to be made an integer. -/
  | undefinedInteger
  /-- An infinity was to be made an integer. -/
  | infiniteInteger
  /-- Something lacks an attribute. -/
  | noAttribute (kind name : String)
  /-- A value is not the word for a severity. -/
  | unknownSeverity (given : Datum)
  /-- A value is not the word for a line format. -/
  | unknownFormat (given : Datum)
  /-- A value cannot be written as JSON. -/
  | unwritable (kind : String)
  /-- Nothing is declared under a key. -/
  | missingKey (key : Datum)
  /-- The solver is not installed. -/
  | noSolver
  /-- The tokens of an enumeration body lead in a circle. -/
  | endlessBody
  /-- A collaborator failed in its own way. -/
  | foreign (kind : ForeignKind) (text : String)

namespace Fault

/-- The words for a fault. -/
def message : Fault → String
  | .range f => f.message
  | .option name text => "invalid option '" ++ name ++ "': " ++ text
  | .dump path cause =>
    "cannot load dump file '" ++ path ++ "'" ++
      (match cause with
        | some text => " (" ++ text ++ ")"
        | none => "")
  | .general text => text
  | .incomparable op left right =>
    "'" ++ op.sign ++ "' not supported between instances of '" ++ left ++ "' and '" ++ right ++ "'"
  | .notIterable kind => "'" ++ kind ++ "' object is not iterable"
  | .notContainer kind => "argument of type '" ++ kind ++ "' is not iterable"
  | .unhashable kind => "unhashable type: '" ++ kind ++ "'"
  | .unsized kind => "object of type '" ++ kind ++ "' has no len()"
  | .unindexed kind => "'" ++ kind ++ "' object does not support indexing"
  | .unsubscriptable kind => "'" ++ kind ++ "' object is not subscriptable"
  | .notAddable sign left right =>
    "unsupported operand type(s) for " ++ sign ++ ": '" ++ left ++ "' and '" ++ right ++ "'"
  | .notInteger kind =>
    "int() argument must be a string, a bytes-like object or a real number, not '" ++ kind ++ "'"
  | .badNumeral text =>
    "invalid literal for int() with base 10: " ++
      String.ofList ((Text.quoted text).toList.take 200)
  | .longNumeral digits =>
    "Exceeds the limit (4300 digits) for integer string conversion: value has " ++
      Nat.repr digits ++ " digits; use sys.set_int_max_str_digits() to increase the limit"
  | .longInteger =>
    "Exceeds the limit (4300 digits) for integer string conversion; " ++
      "use sys.set_int_max_str_digits() to increase the limit"
  | .undefinedInteger => "cannot convert float NaN to integer"
  | .infiniteInteger => "cannot convert float infinity to integer"
  | .noAttribute kind name => "'" ++ kind ++ "' object has no attribute '" ++ name ++ "'"
  | .unknownSeverity given => given.literal ++ " is not a valid DiagnosticSeverity"
  | .unknownFormat given => "unknown diagnostic format: " ++ given.literal
  | .unwritable kind => "Object of type " ++ kind ++ " is not JSON serializable"
  | .missingKey key => key.literal
  | .noSolver => "Z3 Python bindings ('z3-solver') required for Z3RangeQuery"
  | .endlessBody => "the tokens of an enumeration body lead in a circle"
  | .foreign kind text => if kind = .key then Text.quoted text else text

end Fault

/-- A range fault as it reaches a caller.  Its words are put together at once, so one that cannot be
put into words is not reported as a range fault at all. -/
def RangeFault.raised (f : RangeFault) : Fault := if f.isWritable then .range f else .longInteger

/-- The value as it is written in messages, if it can be written. -/
def Datum.literal? (d : Datum) : Except Fault String :=
  if d.isWritable then .ok d.literal else .error .longInteger

end DeadCast

import DeadCast.Datum.Use

/-!
# Options of a run

`Options` says how casts are checked and findings reported.  The fields hold values of any kind:
`Options.validate` is what tells good ones from bad ones, in a fixed order, so that of two bad
options always the same one is reported.  `Options.ofArguments` makes options of what the command
line gave.
-/

namespace DeadCast

/-- How casts are checked and findings reported. -/
structure Options where
  severity : Datum := .severity .warning
  cwe : Datum := .int 704
  reportFaults : Datum := .bool false
  dropRepeats : Datum := .bool true
  output : Datum := .text "json"
  castKinds : Datum := .tuple [.text "c_style", .text "static_cast"]
  solverTimeout : Datum := .int 5000
  verbosity : Datum := .int 0

/-- What the command line gave; a field that it did not mention is missing. -/
structure Arguments where
  severity : Option Datum := none
  castKinds : Option Datum := none
  reportFaults : Option Datum := none
  noDedup : Option Datum := none
  output : Option Datum := none
  solverTimeout : Option Datum := none
  verbose : Option Datum := none

namespace Options

/-- The forms of cast that can be checked. -/
def knownCastKinds : List Datum := [.text "c_style", .text "static_cast"]

/-- The forms of output. -/
def knownOutputs : List Datum := [.text "gcc", .text "json", .text "summary"]

/-- Refuses options with a value that makes no sense. -/
def validate (o : Options) : Except Fault Options := do
  match o.severity with
  | .severity _ => pure ()
  | d => throw (.option "severity" ("expected DiagnosticSeverity, got " ++ (← d.literal?)))
  if ← Datum.compare .less o.cwe (.int 0) then
    throw (.option "cwe" "must be >= 0")
  o.output.asKey
  if !o.output.isAmong knownOutputs then
    throw (.option "output" ("expected one of " ++ (Datum.list knownOutputs).literal))
  let kinds ← Datum.distinct (← o.castKinds.items)
  let unknown := kinds.filter fun kind => !kind.isAmong knownCastKinds
  if !unknown.isEmpty then
    let sorted ← Datum.sort unknown
    throw (.option "cast_kinds" ("unknown cast kinds " ++ (← (Datum.list sorted).literal?)))
  if ← Datum.compare .atMost o.solverTimeout (.int 0) then
    throw (.option "solver_timeout_ms" "must be positive")
  return o

/-- The severity that a value names. -/
def severityOf : Datum → Except Fault Severity
  | .severity s => .ok s
  | .text word =>
    match Severity.ofWord? word with
    | some s => .ok s
    | none => .error (.option "severity" (Fault.unknownSeverity (.text word)).message)
  | d => .error (.option "severity" (Fault.unknownSeverity d).message)

/-- Makes options of what the command line gave, and validates them. -/
def ofArguments (a : Arguments) : Except Fault Options := do
  let severity ← severityOf (a.severity.getD (.text "warning"))
  let kinds := a.castKinds.getD .nothing
  let castKinds ← if kinds.isTrue then
      Datum.tuple <$> (kinds.items >>= Datum.distinct)
    else
      pure (Datum.tuple knownCastKinds)
  let timeout ← (a.solverTimeout.getD (.int 5000)).toInteger
  let verbosity ← ((a.verbose.getD (.int 0)).orElse (.int 0)).toInteger
  validate {
    severity := .severity severity
    reportFaults := .bool (a.reportFaults.getD (.bool false)).isTrue
    dropRepeats := .bool (!(a.noDedup.getD (.bool false)).isTrue)
    output := a.output.getD (.text "json")
    castKinds := castKinds
    solverTimeout := .int timeout
    verbosity := .int verbosity }

end Options

end DeadCast

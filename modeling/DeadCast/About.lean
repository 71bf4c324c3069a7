/-!
# About the checker

The version of the checker, the terms it is given away under, and the names it announces to the
programs that use it.
-/

namespace DeadCast

namespace About

/-- The version. -/
def version : String := "0.1.0"

/-- The terms of use. -/
def license : String := "MIT"

/-- A part of the checker, with the names that it announces. -/
structure Part where
  name : String
  names : List String

/-- The parts that are always there. -/
def core : List Part :=
  [⟨"errors", ["EnumCastError", "RangeContractViolation", "ConfigError", "DumpLoadError"]⟩,
    ⟨"ranges", ["NEG_INF", "POS_INF", "UNAVAILABLE", "Interval", "RangeSet", "PathRangeQuery"]⟩,
    ⟨"enum_space", ["EnumHandle", "NOT_ENUM", "PlainEnum", "TypeQuery", "EnumDescriptor",
      "EnumValueSpace"]⟩,
    ⟨"oracle", ["Verdict", "decide"]⟩,
    ⟨"diagnostics", ["DiagnosticSeverity", "SourceLocation", "Diagnostic", "CollectingSink",
      "StreamSink"]⟩,
    ⟨"config", ["AnalysisConfig"]⟩,
    ⟨"visitor", ["CastOutcome", "CastSite", "CastSiteVisitor"]⟩,
    ⟨"valueflow", ["CppcheckTypeQuery", "ValueFlowRangeQuery", "iter_cast_sites"]⟩,
    ⟨"checker", ["EnumCastChecker", "run_addon"]⟩]

/-- The parts that may be missing. -/
def addons : List Part := [⟨"z3_ranges", ["Z3RangeQuery"]⟩]

/-- The announced names, part by part.  Each part gives the names that it has, or an explanation why
it cannot be used; without a core part or one of its names there is no checker. -/
def exports (part : String → Except String (List String)) : Except String (List String) := do
  let required ← core.mapM fun p =>
    match part p.name with
    | .error why =>
      .error ("enumcast: required submodule '" ++ p.name ++ "' failed to import: " ++ why)
    | .ok has =>
      match p.names.find? fun name => !has.contains name with
      | some name => .error ("enumcast." ++ p.name ++ " does not export '" ++ name ++ "'")
      | none => .ok p.names
  let optional := addons.map fun p =>
    match part p.name with
    | .error _ => []
    | .ok has => p.names.filter has.contains
  return required.flatten ++ optional.flatten ++ ["__version__"]

end About

end DeadCast

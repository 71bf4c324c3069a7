import DeadCast.Datum.Use

/-!
# Findings

A finding says what is wrong with one cast on one path, and where.  Two findings are repetitions of
each other if they agree in identifier, location and path (`Finding.Key`), whatever else they say.
-/

namespace DeadCast

/-- A place in a source file. -/
structure Location where
  file : Datum := .text ""
  line : Datum := .int 0
  column : Datum := .int 0

namespace Location

/-- File, line and column, without a column that is not known. -/
def text (l : Location) : String :=
  let place := l.file.display ++ ":" ++ l.line.display
  if l.column.isTrue then place ++ ":" ++ l.column.display else place

/-- May the place be written? -/
def isWritable (l : Location) : Bool :=
  l.file.isWritable && l.line.isWritable && l.column.isWritable

/-- File, line and column, if they can be written. -/
def text? (l : Location) : Except Fault String :=
  if l.isWritable then .ok l.text else .error .longInteger

/-- Equality of places. -/
def same (a b : Location) : Bool :=
  a.file.sameKey b.file && a.line.sameKey b.line && a.column.sameKey b.column

/-- Can the place be part of a key? -/
def isHashable (l : Location) : Bool :=
  l.file.isHashable && l.line.isHashable && l.column.isHashable

end Location

/-- One finding.  `evidence` is what a tool behind the checker may want to know. -/
structure Finding where
  id : String
  category : String
  message : String
  severity : Datum
  location : Location
  path : Datum := .int 0
  cwe : Datum := .int 0
  addon : Datum := .text "enumcast"
  evidence : List (String × Datum) := []

namespace Finding

/-- What tells repetitions of a finding: identifier, location and path. -/
structure Key where
  id : String
  location : Location
  path : Datum

/-- Equality of keys. -/
def Key.same (a b : Key) : Bool :=
  a.id == b.id && a.location.same b.location && a.path.sameKey b.path

/-- Can the key be looked up? -/
def Key.isHashable (k : Key) : Bool := k.location.isHashable && k.path.isHashable

/-- The key of a finding. -/
def key (f : Finding) : Key := ⟨f.id, f.location, f.path⟩

/-- Equality of findings; the evidence does not count. -/
def same (a b : Finding) : Bool :=
  a.key.same b.key && a.category == b.category && a.message == b.message &&
    a.severity.sameKey b.severity && a.cwe.sameKey b.cwe && a.addon.sameKey b.addon

/-- Can the finding itself be a key? -/
def isHashable (f : Finding) : Bool :=
  f.key.isHashable && f.severity.isHashable && f.cwe.isHashable && f.addon.isHashable

/-- The word for the severity of the finding. -/
def severityWord (f : Finding) : Except Fault String :=
  match f.severity with
  | .severity s => .ok s.word
  | d => .error (.noAttribute d.kind "value")

end Finding

end DeadCast

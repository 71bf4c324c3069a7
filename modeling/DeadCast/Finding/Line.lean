import DeadCast.Finding.Basic
import DeadCast.Text.Json

/-!
# Findings as lines of text

Each finding is written on one line, either as a JSON object in the form that Cppcheck reads from
its addons, or in the way of compiler messages.  JSON comes from an encoder that may refuse long
integers.
-/

namespace DeadCast

/-! ## JSON values -/

/-- What writes JSON.  An integer of more than `digits` decimal digits is refused; if there is no
such limit, none is. -/
structure JsonEncoder where
  digits : Option Nat := some digitLimit
  deriving DecidableEq, Repr

/-- Does the encoder write the integer? -/
def JsonEncoder.writes (encoder : JsonEncoder) (n : Int) : Bool :=
  encoder.digits.all (fitsDigits · n.natAbs)

namespace Datum

/-- The text of a binary number in JSON. -/
def jsonReal : Binary64 → String
  | .infinite negative => if negative then "-Infinity" else "Infinity"
  | .undefined _ => "NaN"
  | x => x.text

mutual

/-- The value as JSON, if it can be written. -/
def json (encoder : JsonEncoder) : Datum → Except Fault String
  | .nothing => .ok "null"
  | .bool b => .ok (if b then "true" else "false")
  | .int n => if encoder.writes n then .ok (decimal n) else .error .longInteger
  | .real x => .ok (jsonReal x)
  | .text s => .ok (Text.jsonString s)
  | .list ds => do return "[" ++ ", ".intercalate (← jsonItems encoder ds) ++ "]"
  | .tuple ds => do return "[" ++ ", ".intercalate (← jsonItems encoder ds) ++ "]"
  | .address n => .ok (decimal n)
  | d => .error (.unwritable d.kind)

/-- The values of a list as JSON. -/
def jsonItems (encoder : JsonEncoder) : List Datum → Except Fault (List String)
  | [] => .ok []
  | d :: ds => do
    let first ← json encoder d
    return first :: (← jsonItems encoder ds)

end

end Datum

/-- A member of a JSON object. -/
def jsonMember (encoder : JsonEncoder) (member : String × Datum) : Except Fault String := do
  return Text.jsonString member.1 ++ ": " ++ (← member.2.json encoder)

/-- A JSON object on one line. -/
def jsonObject (encoder : JsonEncoder) (members : List (String × Datum)) :
    Except Fault String := do
  return "\x7b" ++ ", ".intercalate (← members.mapM (jsonMember encoder)) ++ "\x7d"

/-! ## Lines -/

namespace Finding

/-- The members of the JSON object of a finding; the weakness number is left out if there is
none. -/
def members (f : Finding) : Except Fault (List (String × Datum)) := do
  let word ← f.severityWord
  return [("file", f.location.file), ("linenr", f.location.line), ("column", f.location.column),
      ("severity", .text word), ("message", .text f.message), ("addon", f.addon),
      ("errorId", .text f.id), ("extra", .text f.category)] ++
    (if f.cwe.isTrue then [("cwe", f.cwe)] else [])

/-- The finding as a JSON object on one line. -/
def jsonLine (encoder : JsonEncoder) (f : Finding) : Except Fault String := do
  jsonObject encoder (← f.members)

/-- The finding in the way of compiler messages. -/
def plainLine (f : Finding) : Except Fault String := do
  let word ← f.severityWord
  return (← f.location.text?) ++ ": " ++ word ++ ": " ++ f.message ++ " [" ++ f.id ++ "]"

end Finding

/-- How findings are written. -/
inductive LineFormat where
  | json (encoder : JsonEncoder)
  | plain
  deriving DecidableEq, Repr

namespace LineFormat

/-- The format of a word. -/
def ofDatum (encoder : JsonEncoder) (d : Datum) : Except Fault LineFormat :=
  if d.isText "json" then .ok (.json encoder)
  else if d.isText "gcc" then .ok .plain
  else .error (.unknownFormat d)

/-- A finding on a line, without the end of the line. -/
def line (format : LineFormat) (f : Finding) : Except Fault String :=
  match format with
  | .json encoder => f.jsonLine encoder
  | .plain => f.plainLine

end LineFormat

/-- Writes findings on lines of their own until one cannot be written: the text so far, and the
fault. -/
def writeLines (format : LineFormat) : List Finding → String × Except Fault Unit
  | [] => ("", .ok ())
  | f :: fs =>
    match format.line f with
    | .error fault => ("", .error fault)
    | .ok line =>
      let (text, result) := writeLines format fs
      (line ++ "\n" ++ text, result)

/-- A writer that puts each finding on a line as it comes, and counts. -/
structure LineWriter where
  format : LineFormat
  written : String := ""
  count : Nat := 0

/-- Writes one more finding. -/
def LineWriter.emit (w : LineWriter) (f : Finding) : Except Fault LineWriter := do
  let line ← w.format.line f
  return { w with written := w.written ++ line ++ "\n", count := w.count + 1 }

end DeadCast

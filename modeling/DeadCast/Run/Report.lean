import DeadCast.Finding.Line
import DeadCast.Number.Fixed
import DeadCast.Run.Session

/-!
# The report of a run

A report holds the findings of a run, some statistics and the dumps that were checked, and can be
written in three ways: findings as JSON lines, findings as plain lines, or a summary.  Durations
come from a clock, which is read at the start and at the end of a run.
-/

namespace DeadCast

/-- What a run came to. -/
structure Report where
  findings : List Finding := []
  stats : List (String × Datum) := []
  files : List String := []

namespace Report

/-- How many dead casts were found. -/
def deadCasts (r : Report) : Nat := (r.findings.filter (·.id == deadCastId)).length

/-- The findings in one source file. -/
def inFile (r : Report) (file : String) : List Finding :=
  r.findings.filter (·.location.file.isText file)

/-- All findings, one on a line. -/
def lines (r : Report) (format : LineFormat) : Except Fault String := do
  return "\n".intercalate (← r.findings.mapM format.line)

/-- A statistic on a line; numbers with a fraction get one place behind the point. -/
def statLine (stat : String × Datum) : String :=
  "  " ++ stat.1 ++ ": " ++
    match stat.2 with
    | .real x => x.oneDecimal
    | d => d.display

/-- The summary: how much was found in how many dumps, and the statistics by name. -/
def summary (r : Report) : String :=
  let head := "enum cast check: " ++ Nat.repr r.deadCasts ++ " finding(s) in " ++
    Nat.repr r.files.length ++ " dump file(s)"
  let sorted := r.stats.mergeSort fun a b => decide (a.1 ≤ b.1)
  "\n".intercalate (head :: sorted.map statLine)

/-- Sets a statistic. -/
def setStat (r : Report) (name : String) (value : Datum) : Report :=
  { r with stats := r.stats.filter (·.1 != name) ++ [(name, value)] }

end Report

/-- A clock gives the time of its first, second, … reading in seconds. -/
abbrev Clock := Nat → Binary64

namespace Clock

/-- The clock that goes on by one tick from reading to reading. -/
def ticking (tick : Binary64) : Clock := fun k => (Binary64.ofInt k).mul tick

/-- The milliseconds between two readings. -/
def elapsed (c : Clock) (start finish : Nat) : Datum :=
  .real (((c finish).sub (c start)).mul (.ofInt 1000))

end Clock

/-- Checks configurations in a session and reports on the session so far.  The clock was read
`readings` times before, and is read twice more. -/
def Session.report (s : Session) (clock : Clock) (readings : Nat) (cs : List Configuration) :
    Session × Except Fault Report :=
  match s.runAll cs with
  | (s, .error f) => (s, .error f)
  | (s, .ok ()) =>
    (s, .ok {
      findings := s.findings
      stats := s.stats ++ [("enums_cached", .int s.desk.catalogue.size),
        ("elapsed_ms", clock.elapsed readings (readings + 1))] })

end DeadCast

/-!
# Log lines

What the checker tells about its own work goes to a log, apart from the findings.  A line has a
level, the part of the program that wrote it, and a text.
-/

namespace DeadCast

/-- How much a log line matters, from least to most. -/
inductive Level where
  | debug
  | info
  | warning
  | error
  deriving DecidableEq, Repr

/-- The word for a level. -/
def Level.word : Level → String
  | .debug => "DEBUG"
  | .info => "INFO"
  | .warning => "WARNING"
  | .error => "ERROR"

/-- The rank of a level. -/
def Level.rank : Level → Nat
  | .debug => 0
  | .info => 1
  | .warning => 2
  | .error => 3

/-- The parts of the program that write log lines. -/
inductive Channel where
  | program
  | catalogue
  | audit
  | solver
  deriving DecidableEq, Repr

/-- The name under which a part of the program writes. -/
def Channel.name : Channel → String
  | .program => "enumcast"
  | .catalogue => "enumcast.enum_space"
  | .audit => "enumcast.visitor"
  | .solver => "enumcast.z3_ranges"

/-- A log line. -/
structure LogLine where
  level : Level
  channel : Channel
  text : String
  deriving DecidableEq, Repr

namespace LogLine

/-- The name of a level in five columns. -/
def levelColumn (l : Level) : String :=
  let cs := l.word.toList.take 5
  String.ofList (cs ++ List.replicate (5 - cs.length) ' ')

/-- The line as it is shown to the user. -/
def shown (line : LogLine) : String :=
  "[" ++ levelColumn line.level ++ "] " ++ line.channel.name ++ ": " ++ line.text

end LogLine

end DeadCast

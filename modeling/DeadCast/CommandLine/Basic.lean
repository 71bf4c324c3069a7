import DeadCast.Options
import DeadCast.Text.Digit

/-!
# The command line

The arguments are the paths of dumps, with options between them.  An option that is written with
two dashes may be cut short as long as only one option starts like that, and may have its argument
behind an equals sign; options of one letter may be written together.  All paths have to stand
together, and after `--` everything is a path.

`CommandLine.parse` gives what the arguments say or how the program ends at once: with the help
text, or with a complaint after the usage text.
-/

namespace DeadCast

namespace CommandLine

/-! ## Options -/

/-- The options. -/
inductive Switch where
  | help
  | output
  | severity
  | castKinds
  | reportFaults
  | noDedup
  | verbose
  deriving DecidableEq, Repr

/-- How many arguments an option takes. -/
inductive Arity where
  | zero
  | one
  | any
  deriving DecidableEq, Repr

namespace Switch

/-- How an option may be written. -/
def spellings : Switch → List String
  | .help => ["-h", "--help"]
  | .output => ["--output"]
  | .severity => ["--severity"]
  | .castKinds => ["--cast-kinds"]
  | .reportFaults => ["--report-faults"]
  | .noDedup => ["--no-dedup"]
  | .verbose => ["-v", "--verbose"]

/-- All options, in the order in which they are listed. -/
def all : List Switch :=
  [.help, .output, .severity, .castKinds, .reportFaults, .noDedup, .verbose]

/-- How many arguments the option takes. -/
def arity : Switch → Arity
  | .output => .one
  | .severity => .one
  | .castKinds => .any
  | _ => .zero

/-- The arguments that the option admits. -/
def choices : Switch → List String
  | .output => ["json", "gcc", "summary"]
  | .severity => Severity.all.map Severity.word
  | .castKinds => ["c_style", "static_cast"]
  | _ => []

/-- The name of the option in complaints. -/
def label (s : Switch) : String := "/".intercalate s.spellings

end Switch

/-- All spellings with their options. -/
def spellings : List (String × Switch) :=
  Switch.all.flatMap fun s => s.spellings.map fun spelling => (spelling, s)

/-- The option of a spelling. -/
def switchOf? (spelling : String) : Option Switch := spellings.lookup spelling

/-! ## How the program may end at once -/

/-- Ends the program at once. -/
structure Ending where
  code : Nat
  output : String
  complaint : String
  deriving DecidableEq, Repr

/-- The usage text. -/
def usage : String :=
  "usage: enumcast [-h] [--output \x7bjson,gcc,summary\x7d]\n" ++
  "                [--severity \x7berror,warning,style,performance,portability,information\x7d]\n" ++
  "                [--cast-kinds [\x7bc_style,static_cast\x7d ...]] [--report-faults]\n" ++
  "                [--no-dedup] [-v]\n" ++
  "                dump_files [dump_files ...]\n"

/-- The help text. -/
def help : String :=
  usage ++
  "\n" ++
  "Cppcheck addon: casts to an enum that can never yield an enumerator\n" ++
  "\n" ++
  "positional arguments:\n" ++
  "  dump_files            Path to .dump file(s)\n" ++
  "\n" ++
  "options:\n" ++
  "  -h, --help            show this help message and exit\n" ++
  "  --output \x7bjson,gcc,summary\x7d\n" ++
  "                        Output format\n" ++
  "  --severity \x7berror,warning,style,performance,portability,information\x7d\n" ++
  "                        Severity reported for findings\n" ++
  "  --cast-kinds [\x7bc_style,static_cast\x7d ...]\n" ++
  "                        Cast forms to inspect (default: all)\n" ++
  "  --report-faults       Report inconsistent ValueFlow data as information\n" ++
  "                        diagnostics\n" ++
  "  --no-dedup            Keep repeated findings for the same cast and path\n" ++
  "  -v, --verbose\n"

/-- The ending with the help text. -/
def helpEnding : Ending := ⟨0, help, ""⟩

/-- The ending with a complaint. -/
def complain (text : String) : Ending := ⟨2, "", usage ++ "enumcast: error: " ++ text ++ "\n"⟩

/-- The ending with a complaint about an option. -/
def complainOf (s : Switch) (text : String) : Ending :=
  complain ("argument " ++ s.label ++ ": " ++ text)

end CommandLine

end DeadCast

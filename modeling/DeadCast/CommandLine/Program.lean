import DeadCast.CommandLine.Parse
import DeadCast.Run.Addon

/-!
# The program

What the program prints, complains about and returns, given its arguments, the files that it can
see and a clock.  Log lines count as complaints; how many of them are shown depends on how often
the option `-v` is given.
-/

namespace DeadCast

/-- What a run of the program comes to: the text it prints, the text it complains with, and its exit
code. -/
structure ProgramResult where
  output : String
  complaints : String
  result : Except Fault Nat

namespace Program

/-- The least level that is shown. -/
def threshold (verbose : Nat) : Level :=
  match verbose with
  | 0 => .warning
  | 1 => .info
  | _ => .debug

/-- The log lines that are shown, each with a line end. -/
def shownLog (verbose : Nat) (log : List LogLine) : String :=
  let lines := log.filter fun line => (threshold verbose).rank ≤ line.level.rank
  String.join (lines.map fun line => line.shown ++ "\n")

/-- Runs the program. -/
def run (fs : Files) (clock : Clock) (argv : List String) : ProgramResult :=
  match CommandLine.parse argv with
  | .error ending => ⟨ending.output, ending.complaint, .ok ending.code⟩
  | .ok parsed =>
    match Options.ofArguments parsed.arguments with
    | .error (.option name text) =>
      let line : LogLine := ⟨.error, .program, (Fault.option name text).message⟩
      ⟨"", shownLog parsed.verbose [line], .ok 2⟩
    | .error f => ⟨"", "", .error f⟩
    | .ok options =>
      let done := runAddon {} fs clock options (parsed.paths.getD [])
      ⟨done.output, shownLog parsed.verbose done.log, done.result⟩

end Program

end DeadCast

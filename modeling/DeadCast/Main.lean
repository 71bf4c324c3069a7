import DeadCast.CommandLine.Program

/-!
# The command

The outer layer of the program: it looks at the files that the arguments may mean, reads the clock,
and prints what `Program.run` says.  Dumps are parsed by a reader that comes with Cppcheck and is not
part of this program; where there is none, as here, every dump is one that cannot be loaded.
-/

namespace DeadCast

namespace Command

/-- What is at a path: a file if something can be read from it. -/
def lookAt (path : String) : IO (String × DumpFile) := do
  try
    let handle ← IO.FS.Handle.mk path .read
    let _ ← handle.read 1
    return (path, .parsed [])
  catch _ => return (path, .missing)

/-- The time in seconds. -/
def now : IO Binary64 := do
  return Binary64.nearest (mkRat (← IO.monoNanosNow) 1000000000) false

/-- Runs the program and prints; the exit code. -/
def run (argv : List String) : IO UInt32 := do
  let start ← now
  let found ← argv.mapM lookAt
  let finish ← now
  let files : Files := { hasReader := false, lookUp := fun _ p => (found.lookup p).getD .missing }
  let clock : Clock := fun
    | 0 => start
    | _ => finish
  let done := Program.run files clock argv
  IO.print done.output
  IO.eprint done.complaints
  match done.result with
  | .ok code => return code.toUInt32
  | .error f =>
    IO.eprintln f.message
    return 1

end Command

end DeadCast

/-- The entry point. -/
def main (argv : List String) : IO UInt32 := DeadCast.Command.run argv

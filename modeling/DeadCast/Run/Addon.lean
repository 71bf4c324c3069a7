import DeadCast.Run.Report

/-!
# Checking dump files

The addon checks every configuration of every dump that it is given, in one session, and prints
what it found.  A path that is no file or that cannot be loaded is logged and passed over.  Looks
at paths are counted, because two looks at one path need not find the same.

The exit code is `2` if a path was passed over, else `1` if a dead cast was found, else `0`.
-/

namespace DeadCast

/-- What a path leads to. -/
inductive DumpFile where
  | missing
  | directory
  | parsed (configurations : List Configuration)
  /-- A file on which the reader of dumps fails. -/
  | broken (fault : Fault)

/-- The files that the addon can see, and whether there is a reader of dumps.  `lookUp k path` is
what the look at `path` after `k` other looks finds. -/
structure Files where
  hasReader : Bool := true
  lookUp : Nat → String → DumpFile

/-- Does the fault say that a file cannot be read, parsed or made sense of? -/
def Fault.isAboutFile : Fault → Bool
  | .foreign .system _ => true
  | .foreign .value _ => true
  | .foreign .parse _ => true
  | .badNumeral _ => true
  | .longNumeral _ => true
  | .longInteger => true
  | .undefinedInteger => true
  | .unknownSeverity _ => true
  | .unknownFormat _ => true
  | _ => false

namespace Files

/-- Is there a file at the path, and no directory? -/
def isFile (fs : Files) (k : Nat) (path : String) : Bool :=
  match fs.lookUp k path with
  | .missing => false
  | .directory => false
  | _ => true

/-- Loads a dump.  Failures to read, to parse or to make sense of the file are reported as such;
other failures of the reader are passed on. -/
def load (fs : Files) (k : Nat) (path : String) : Except Fault (List Configuration) :=
  if fs.hasReader then
    match fs.lookUp k path with
    | .parsed configurations => .ok configurations
    | .broken fault =>
      if fault.isAboutFile then .error (.dump path (some fault.message)) else .error fault
    | .missing =>
      .error (.dump path (some ("[Errno 2] No such file or directory: " ++ Text.quoted path)))
    | .directory => .error (.dump path (some ("[Errno 21] Is a directory: " ++ Text.quoted path)))
  else
    .error (.dump path (some "No module named 'cppcheckdata'"))

end Files

/-- The state of the addon between two paths. -/
structure AddonState where
  session : Session
  report : Report := {}
  failed : Bool := false
  /-- How often the clock was read. -/
  readings : Nat
  /-- How often a path was looked at. -/
  looks : Nat := 0

namespace AddonState

/-- Adds a log line. -/
def note (a : AddonState) (level : Level) (text : String) : AddonState :=
  { a with session :=
      { a.session with desk := a.session.desk.note [⟨level, .program, text⟩] } }

/-- Passes over a path. -/
def passOver (a : AddonState) (text : String) : AddonState :=
  { a.note .error text with failed := true }

/-- Checks the dump at one path. -/
def check (a : AddonState) (fs : Files) (clock : Clock) (path : String) :
    AddonState × Except Fault Unit :=
  let look := a.looks
  let a := { a with looks := look + 1 }
  if fs.isFile look path then
    match fs.load look path with
    | .error (.dump p cause) => (a.passOver (Fault.dump p cause).message, .ok ())
    | .error f => (a, .error f)
    | .ok configurations =>
      let a := a.note .info ("checking " ++ path)
      match a.session.report clock a.readings configurations with
      | (session, .error f) => ({ a with session := session }, .error f)
      | (session, .ok r) =>
        ({ a with
            session := session
            report := { r with files := a.report.files ++ [path] }
            readings := a.readings + 2 }, .ok ())
  else
    (a.passOver ("dump file not found: " ++ path), .ok ())

/-- Checks the dumps at paths until one ends in a fault. -/
def checkAll (a : AddonState) (fs : Files) (clock : Clock) :
    List String → AddonState × Except Fault Unit
  | [] => (a, .ok ())
  | path :: rest =>
    match a.check fs clock path with
    | (a, .ok ()) => a.checkAll fs clock rest
    | (a, .error f) => (a, .error f)

/-- The exit code. -/
def exitCode (a : AddonState) : Nat :=
  if a.failed then 2 else if a.report.deadCasts = 0 then 0 else 1

end AddonState

/-- What a run of the addon comes to: what it prints and logs, and its exit code. -/
structure AddonResult where
  output : String
  log : List LogLine
  result : Except Fault Nat

/-- What is printed in the chosen form of output. -/
def Report.printed (r : Report) (encoder : JsonEncoder) (o : Options) :
    String × Except Fault Unit :=
  if o.output.isText "json" then writeLines (.json encoder) r.findings
  else if o.output.isText "gcc" then writeLines .plain r.findings
  else (r.summary ++ "\n", .ok ())

/-- Checks the dumps at the given paths and prints the findings. -/
def runAddon (encoder : JsonEncoder) (fs : Files) (clock : Clock) (o : Options)
    (paths : List String) : AddonResult :=
  match AddonState.checkAll { session := .new o, readings := 1 } fs clock paths with
  | (a, .error f) => ⟨"", a.session.desk.log, .error f⟩
  | (a, .ok ()) =>
    let report := a.report.setStat "elapsed_ms" (clock.elapsed 0 a.readings)
    let (output, written) := report.printed encoder o
    ⟨output, a.session.desk.log, written.map fun _ => a.exitCode⟩

end DeadCast

import DeadCast.CommandLine.Basic

/-!
# Reading the command line

Reading has two passes.  The first says of each argument whether it is plain, an option, or the
separator `--` (`kindOf`).  The second goes from left to right and takes runs of plain arguments as
paths and options with what belongs to them (`parseFrom`).
-/

namespace DeadCast

namespace CommandLine

/-! ## First pass: kinds of argument -/

/-- The kind of an argument. -/
inductive Kind where
  | plain
  | separator
  /-- An option, known or not, with an argument that is written together with it. -/
  | switch (known : Option Switch) (spelling : String) (attached : Option String)
  deriving DecidableEq, Repr

/-- An argument and its kind. -/
abbrev Word := String × Kind

/-- Is the argument an option? -/
def Kind.isSwitch : Kind → Bool
  | .switch .. => true
  | _ => false

/-- Is the argument plain? -/
def Kind.isPlain : Kind → Bool
  | .plain => true
  | _ => false

/-- Splits a text at its first equals sign. -/
def splitEquals (cs : List Char) : List Char × Option (List Char) :=
  match cs.dropWhile (· != '=') with
  | [] => (cs, none)
  | _ :: rest => (cs.takeWhile (· != '='), some rest)

/-- A spelling that may be meant, its option, and an attached argument. -/
structure Reading where
  switch : Switch
  spelling : String
  attached : Option String

/-- The options that an argument with two dashes may be short for. -/
def longReadings (cs : List Char) : List Reading :=
  let (start, attached) := splitEquals cs
  spellings.filterMap fun (spelling, s) =>
    if start.isPrefixOf spelling.toList then some ⟨s, spelling, attached.map String.ofList⟩
    else none

/-- The options that an argument with one dash may mean: an option of one letter with the rest
attached, or an option that starts like the argument. -/
def shortReadings (cs : List Char) : List Reading :=
  spellings.filterMap fun (spelling, s) =>
    if spelling.toList = cs.take 2 then some ⟨s, spelling, some (String.ofList (cs.drop 2))⟩
    else if cs.isPrefixOf spelling.toList then some ⟨s, spelling, none⟩
    else none

/-- Does the text look like a negative number? -/
def isNegativeNumber (cs : List Char) : Bool :=
  let isDecimal := fun c => (Text.decimalValue? c).isSome
  match cs with
  | '-' :: rest =>
    let rest := if rest.getLast? = some '\n' then rest.dropLast else rest
    (!rest.isEmpty && rest.all isDecimal) ||
      match rest.dropWhile isDecimal with
      | '.' :: fraction => !fraction.isEmpty && fraction.all isDecimal
      | _ => false
  | _ => false

/-- The kind of an argument that starts with a dash and is not itself an option. -/
def kindOfDashed (word : String) (cs : List Char) : Except Ending Kind :=
  let exact := match splitEquals cs with
    | (start, some attached) =>
      (switchOf? (String.ofList start)).map fun s =>
        Kind.switch (some s) (String.ofList start) (some (String.ofList attached))
    | (_, none) => none
  match exact with
  | some kind => .ok kind
  | none =>
    match if cs.take 2 = ['-', '-'] then longReadings cs else shortReadings cs with
    | [r] => .ok (.switch (some r.switch) r.spelling r.attached)
    | [] =>
      if isNegativeNumber cs || cs.contains ' ' then .ok .plain
      else .ok (.switch none word none)
    | many =>
      .error (complain ("ambiguous option: " ++ word ++ " could match " ++
        ", ".intercalate (many.map Reading.spelling)))

/-- The kind of an argument before any separator. -/
def kindOf (word : String) : Except Ending Kind :=
  match word.toList with
  | '-' :: c :: rest =>
    match switchOf? word with
    | some s => .ok (.switch (some s) word none)
    | none => kindOfDashed word ('-' :: c :: rest)
  | _ => .ok .plain

/-- The kinds of all arguments; after the first separator all are plain. -/
def kinds : List String → Except Ending (List Word)
  | [] => .ok []
  | word :: rest =>
    if word = "--" then .ok ((word, .separator) :: rest.map fun w => (w, .plain))
    else do
      let kind ← kindOf word
      return (word, kind) :: (← kinds rest)

/-! ## What the arguments say -/

/-- What the arguments say so far. -/
structure Parsed where
  paths : Option (List String) := none
  output : Datum := .text "json"
  severity : Datum := .text "warning"
  castKinds : Datum := .nothing
  reportFaults : Bool := false
  noDedup : Bool := false
  verbose : Nat := 0
  /-- Arguments that nobody asked for. -/
  extras : List String := []

/-- Removes the first separator from a list. -/
def dropSeparator (ws : List String) : List String := ws.erase "--"

/-- Refuses an argument that an option does not admit. -/
def checkChoice (s : Switch) (word : String) : Except Ending Unit :=
  if s.choices.contains word then .ok ()
  else .error (complainOf s ("invalid choice: " ++ Text.quoted word ++ " (choose from " ++
    ", ".intercalate (s.choices.map Text.quoted) ++ ")"))

/-- The argument of an option that takes one. -/
def single (ws : List String) : Datum :=
  match ws with
  | [w] => .text w
  | _ => .list (ws.map .text)

/-- Takes an option in, with its arguments. -/
def Parsed.take (p : Parsed) (s : Switch) (arguments : List String) : Except Ending Parsed := do
  let ws := dropSeparator arguments
  ws.forM (checkChoice s)
  match s with
  | .help => throw helpEnding
  | .output => return { p with output := single ws }
  | .severity => return { p with severity := single ws }
  | .castKinds => return { p with castKinds := .list (ws.map .text) }
  | .reportFaults => return { p with reportFaults := true }
  | .noDedup => return { p with noDedup := true }
  | .verbose => return { p with verbose := p.verbose + 1 }

/-! ## Second pass -/

/-- The complaint about an argument that an option does not take. -/
def ignored (s : Switch) (attached : List Char) : Ending :=
  complainOf s ("ignored explicit argument " ++ Text.quoted (String.ofList attached))

/-- Options of one letter that are written together, without arguments. -/
def letters (s : Switch) : List Char → Except Ending (List Switch)
  | [] => .ok [s]
  | c :: rest =>
    match switchOf? (String.ofList ['-', c]) with
    | some next => do return s :: (← letters next rest)
    | none => .error (ignored s (c :: rest))

/-- An option with an argument that is written together with it. -/
def attachedSwitches (s : Switch) (spelling attached : String) :
    Except Ending (List (Switch × List String)) :=
  if s.arity = .zero then
    if spelling.toList.take 2 ≠ ['-', '-'] ∧ attached ≠ "" then do
      return (← letters s attached.toList).map fun t => (t, [])
    else
      .error (ignored s attached.toList)
  else
    .ok [(s, [attached])]

/-- The arguments behind an option that belong to it. -/
def argumentsOf (s : Switch) (rest : List Word) : Except Ending (List String) :=
  match s.arity with
  | .zero => .ok []
  | .one =>
    match rest with
    | (w, .plain) :: _ => .ok [w]
    | _ => .error (complainOf s "expected one argument")
  | .any => .ok ((rest.takeWhile (·.2.isPlain)).map Prod.fst)

/-- Takes a run of arguments between options: as the paths, if there are none yet. -/
def Parsed.takeRun (p : Parsed) (run : List Word) : Parsed :=
  let ws := run.map Prod.fst
  match p.paths with
  | none =>
    if run.any (·.2.isPlain) then { p with paths := some (dropSeparator ws) }
    else { p with extras := p.extras ++ ws }
  | some _ => { p with extras := p.extras ++ ws }

/-- Reads words from left to right. -/
def parseFrom (p : Parsed) : List Word → Except Ending Parsed
  | [] => .ok p
  | (word, .switch none _ _) :: rest => parseFrom { p with extras := p.extras ++ [word] } rest
  | (_, .switch (some s) spelling (some attached)) :: rest => do
    let taken ← attachedSwitches s spelling attached
    let p ← taken.foldlM (fun p t => p.take t.1 t.2) p
    parseFrom p rest
  | (_, .switch (some s) _ none) :: rest => do
    let arguments ← argumentsOf s rest
    let p ← p.take s arguments
    parseFrom p (rest.drop arguments.length)
  | word :: rest =>
    let run := word :: rest.takeWhile (!·.2.isSwitch)
    parseFrom (p.takeRun run) (rest.dropWhile (!·.2.isSwitch))
termination_by words => words.length
decreasing_by
  all_goals simp only [List.length_cons, List.length_drop]
  · omega
  · omega
  · omega
  · have := (List.dropWhile_sublist (fun w : Word => !w.2.isSwitch) (l := rest)).length_le
    omega

/-- What the arguments say, or how the program ends at once. -/
def parse (argv : List String) : Except Ending Parsed := do
  let words ← kinds argv
  let p ← parseFrom {} words
  if p.paths.isNone then
    throw (complain "the following arguments are required: dump_files")
  if !p.extras.isEmpty then
    throw (complain ("unrecognized arguments: " ++ " ".intercalate p.extras))
  return p

/-- What the arguments say about the options of a run. -/
def Parsed.arguments (p : Parsed) : Arguments where
  severity := some p.severity
  castKinds := some p.castKinds
  reportFaults := some (.bool p.reportFaults)
  noDedup := some (.bool p.noDedup)
  output := some p.output
  verbose := some (.int p.verbose)

end CommandLine

end DeadCast

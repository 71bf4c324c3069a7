import DeadCast.Dump.CastSite

/-!
# A session of the checker

One session checks any number of configurations, with one catalogue, one ledger and one tally for
all of them.  A configuration is checked in three steps: `configure` opens a new realm for its
enumerations, because identifiers of scopes are unique within one configuration only, `collect`
lists its casts, and `diagnose` visits them.  `Session.run` does all three.

A step may end in a fault.  The session goes on from whatever state the step left: casts that were
not all visited stay pending, and what was counted and found before the fault stays.
-/

namespace DeadCast

/-- The state of the checker. -/
structure Session where
  options : Options
  /-- How many realms were opened. -/
  serial : Nat := 0
  /-- The realm of the enumerations; nothing before the first one is opened. -/
  realm : Datum := .nothing
  pending : List CastSite := []
  desk : Desk DumpScope := {}

namespace Session

/-- A session at its start. -/
def new (o : Options) : Session where
  options := o
  desk := { ledger := { dropRepeats := o.dropRepeats.isTrue } }

/-- Was a realm opened? -/
def isConfigured (s : Session) : Bool := s.serial != 0

/-- Opens a new realm for the enumerations of a configuration. -/
def configure (s : Session) (c : Configuration) : Session :=
  let serial := s.serial + 1
  let name := (c.name.getD (.text "")).orElse (.text "")
  { s with serial := serial, realm := .tuple [.int serial, name] }

/-- The line that tells how many casts were found. -/
def collectedLine (sites : List CastSite) : LogLine :=
  ⟨.debug, .program, "collected " ++ Nat.repr sites.length ++ " cast site(s)"⟩

/-- Lists the casts of a configuration; they replace those that are pending. -/
def collect (s : Session) (c : Configuration) : Session × Except Fault Unit :=
  match c.castSites s.options with
  | (sites, .ok ()) =>
    ({ s with pending := sites, desk := s.desk.note [collectedLine sites] }, .ok ())
  | (_, .error f) => (s, .error f)

/-- Visits casts until one ends in a fault. -/
def visitAll (realm : Datum) (o : Options) (d : Desk DumpScope) :
    List CastSite → Desk DumpScope × Except Fault Unit
  | [] => (d, .ok ())
  | site :: rest =>
    match d.visit (frontEnd realm) o site.site (.int site.path) with
    | (d, .ok _) => visitAll realm o d rest
    | (d, .error f) => (d, .error f)

/-- Visits the pending casts.  A realm is opened for the configuration if there is none yet. -/
def diagnose (s : Session) (c : Configuration) : Session × Except Fault Unit :=
  let s := if s.isConfigured then s else s.configure c
  match visitAll s.realm s.options s.desk s.pending with
  | (desk, .ok ()) => ({ s with desk := desk, pending := [] }, .ok ())
  | (desk, .error f) => ({ s with desk := desk }, .error f)

/-- Checks a configuration. -/
def run (s : Session) (c : Configuration) : Session × Except Fault Unit :=
  match (s.configure c).collect c with
  | (s, .error f) => (s, .error f)
  | (s, .ok ()) => s.diagnose c

/-- Checks configurations until one ends in a fault. -/
def runAll (s : Session) : List Configuration → Session × Except Fault Unit
  | [] => (s, .ok ())
  | c :: rest =>
    match s.run c with
    | (s, .ok ()) => s.runAll rest
    | (s, .error f) => (s, .error f)

/-- The findings so far. -/
def findings (s : Session) : List Finding := s.desk.ledger.findings

/-- The tally as statistics; there are none before the first realm is opened. -/
def stats (s : Session) : List (String × Datum) :=
  if s.isConfigured then s.desk.tally.stats else []

end Session

end DeadCast

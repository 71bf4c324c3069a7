import DeadCast.Enumeration.Catalogue
import DeadCast.Finding.Ledger
import DeadCast.Options
import DeadCast.Verdict

/-!
# Auditing casts

A cast is looked at once for every path on which it can be reached.  Each visit ends in an
`Outcome`:

* the target type is no enumeration: there is nothing to check;
* the front end does not track the operand: the checker abstains;
* some value that the operand may have is an enumerator value: the cast is safe;
* no value is: the cast is reported;
* the range information breaks its contract: that is counted, reported if the options ask for it,
  and never taken for a verdict.

The visits of one run share a `Desk`: the catalogue of enumerations, the ledger of findings, the
tally of outcomes and the log.  Every other fault of the front end ends the visit and leaves tally
and ledger as they were.
-/

namespace DeadCast

/-! ## Outcomes -/

/-- How a visit ended. -/
inductive Outcome where
  | notEnum
  | abstained
  | safe
  | warn
  | contractFault
  deriving DecidableEq, Repr

namespace Outcome

/-- All outcomes, in the order in which they are listed. -/
def all : List Outcome := [.notEnum, .abstained, .safe, .warn, .contractFault]

/-- The word for an outcome. -/
def word : Outcome → String
  | .notEnum => "not-enum"
  | .abstained => "abstained"
  | .safe => "safe"
  | .warn => "warn"
  | .contractFault => "contract-fault"

end Outcome

/-- How often each outcome occurred. -/
structure Tally where
  notEnum : Nat := 0
  abstained : Nat := 0
  safe : Nat := 0
  warn : Nat := 0
  contractFault : Nat := 0
  deriving DecidableEq, Repr

namespace Tally

/-- How often an outcome occurred. -/
def get (t : Tally) : Outcome → Nat
  | .notEnum => t.notEnum
  | .abstained => t.abstained
  | .safe => t.safe
  | .warn => t.warn
  | .contractFault => t.contractFault

/-- Counts one more outcome. -/
def count (t : Tally) : Outcome → Tally
  | .notEnum => { t with notEnum := t.notEnum + 1 }
  | .abstained => { t with abstained := t.abstained + 1 }
  | .safe => { t with safe := t.safe + 1 }
  | .warn => { t with warn := t.warn + 1 }
  | .contractFault => { t with contractFault := t.contractFault + 1 }

/-- The tally as statistics. -/
def stats (t : Tally) : List (String × Datum) :=
  Outcome.all.map fun o => (o.word, .int (t.get o))

end Tally

/-! ## What is visited, and by whom -/

/-- One cast on one path: the type that is cast to, the operand, the path, and where the cast
stands. -/
structure Site (τ ω : Type) where
  target : τ
  operand : ω
  path : Datum := .int 0
  location : Location := {}

/-- What the checker asks about the program under check.  `τ` are its types, `ω` its operands, `π`
what is known about a path, and `σ` what leads to the declaration of an enumeration. -/
structure FrontEnd (τ ω π σ : Type) where
  classify : τ → Except Fault (TypeKind σ)
  constants : EnumRef σ → Except Fault Datum
  rangeOf : ω → π → Except Fault Datum

/-- What the visits of one run share. -/
structure Desk (σ : Type) where
  catalogue : Catalogue σ := {}
  ledger : Ledger := {}
  tally : Tally := {}
  log : List LogLine := []

namespace Desk

variable {σ : Type}

/-- Adds log lines. -/
def note (d : Desk σ) (lines : List LogLine) : Desk σ := { d with log := d.log ++ lines }

/-- Counts an outcome. -/
def count (d : Desk σ) (o : Outcome) : Desk σ := { d with tally := d.tally.count o }

/-- Enters a finding and counts the outcome, unless the ledger refuses the finding. -/
def enter (d : Desk σ) (f : Finding) (o : Outcome) : Desk σ × Except Fault Outcome :=
  match d.ledger.emit f with
  | .ok ledger => ({ d with ledger := ledger }.count o, .ok o)
  | .error fault => (d, .error fault)

end Desk

/-! ## Findings of a visit -/

/-- The identifier of findings about dead casts. -/
def deadCastId : String := "enumCastOutOfRange"

/-- The identifier of findings about range information that breaks its contract. -/
def rangeFaultId : String := "enumCastRangeFault"

section Visit

variable {τ ω π σ : Type}

/-- The finding about a dead cast. -/
def deadCast (o : Options) (site : Site τ ω) (e : EnumValues σ) (r : IntervalSet) : Finding where
  id := deadCastId
  category := "Enum cast out of range"
  message := "The value provided to the cast expression is not in the valid range " ++
    "of values for the enum."
  severity := o.severity
  location := site.location
  path := site.path
  cwe := o.cwe
  evidence := [("enum", .text e.ref.display), ("enumerators", .list (e.values.map .int)),
    ("ranges", .list (r.parts.map fun i => .text i.text)), ("path", site.path)]

/-- The finding about range information that breaks its contract. -/
def rangeFault (site : Site τ ω) (f : RangeFault) : Finding where
  id := rangeFaultId
  category := "Internal consistency fault"
  message := "Range information for the cast operand is inconsistent: " ++ f.detail
  severity := .severity .information
  location := site.location
  path := site.path

/-- The line that tells that the checker abstains. -/
def abstainLine (site : Site τ ω) : LogLine :=
  ⟨.debug, .audit, site.location.text ++ ": operand range unavailable, abstaining"⟩

/-- The line that tells about a breach of contract. -/
def faultLine (site : Site τ ω) (f : RangeFault) : LogLine :=
  ⟨.warning, .audit, site.location.text ++ ": malformed range for cast operand on path " ++
    site.path.literal ++ ": " ++ f.message⟩

/-- The line that tells about a dead cast. -/
def deadLine (site : Site τ ω) (e : EnumValues σ) : LogLine :=
  ⟨.info, .audit, site.location.text ++ ": no value of the operand can name an enumerator of " ++
    e.ref.display ++ " (path " ++ site.path.literal ++ ")"⟩

/-! ## One visit -/

/-- Ends a visit whose range information breaks its contract. -/
def Desk.breach (d : Desk σ) (o : Options) (site : Site τ ω) (f : RangeFault) :
    Desk σ × Except Fault Outcome :=
  let d := d.note [faultLine site f]
  if o.reportFaults.isTrue then
    d.enter (rangeFault site f) .contractFault
  else
    (d.count .contractFault, .ok .contractFault)

/-- Ends a visit for which the front end gave an answer about the operand. -/
def Desk.settle (d : Desk σ) (o : Options) (site : Site τ ω) (e : EnumValues σ) (ranges : Datum) :
    Desk σ × Except Fault Outcome :=
  match ranges with
  | .unavailable => ((d.note [abstainLine site]).count .abstained, .ok .abstained)
  | .ranges r =>
    match Verdict.decide e.values r with
    | .safe => (d.count .safe, .ok .safe)
    | .warn =>
      let d := d.note [deadLine site e]
      if r.isWritable then d.enter (deadCast o site e r) .warn else (d, .error .longInteger)
  | other =>
    match (RangeFault.notRanges other).raised with
    | .range f => d.breach o site f
    | f => (d, .error f)

/-- Looks at one cast on one path. -/
def Desk.visit (d : Desk σ) (front : FrontEnd τ ω π σ) (o : Options) (site : Site τ ω)
    (state : π) : Desk σ × Except Fault Outcome :=
  match front.classify site.target with
  | .error f => (d, .error f)
  | .ok .notEnum => (d.count .notEnum, .ok .notEnum)
  | .ok (.plainEnum ref) =>
    let step := d.catalogue.fetch front.constants ref
    let d := { d with catalogue := step.catalogue }.note step.log
    match step.result with
    | .error f => (d, .error f)
    | .ok e =>
      match front.rangeOf site.operand state with
      | .ok ranges => d.settle o site e ranges
      | .error (.range f) => d.breach o site f
      | .error f => (d, .error f)

end Visit

end DeadCast

import DeadCast.Audit.Basic
import DeadCast.Dump.EnumBody
import DeadCast.Dump.Ranges

/-!
# The casts of a configuration

A cast is an opening parenthesis: that of a call of `static_cast`, or one that Cppcheck marked as a
cast in the style of C.  It is checked once for every path that the facts about its operand name,
from the least on; the facts that hold on every path then count on each of them.  Only if no fact
names a path is the cast checked on path `0`.

`frontEnd` answers the questions of an audit from the dump.
-/

namespace DeadCast

/-- A cast of a configuration on one path. -/
structure CastSite where
  configuration : Configuration
  /-- The position of the cast. -/
  position : Nat
  /-- The position of the operand. -/
  operand : Nat
  path : Int
  location : Location

namespace Configuration

/-- The position of the operand of a cast of one of the given kinds. -/
def castOperand (c : Configuration) (kinds : Datum) (t : Token) : Except Fault (Option Nat) := do
  if !t.text.isText "(" then return none
  if ← kinds.hasText "static_cast" then
    if (Token.textOf (c.follow? t.operand1)).isText "static_cast" then return t.operand2
  if ← kinds.hasText "c_style" then
    if Token.isSet t.isCast then return t.operand1.or t.operand2
  return none

end Configuration

/-- The paths that facts name, or path `0` if they name none. -/
def pathIds (facts : List Fact) : Except Fault (List Int) := do
  let named := ascending ((← facts.mapM Fact.pathId).filter (· ≠ 0))
  return if named.isEmpty then [0] else named

namespace Configuration

/-- The casts at one position, one for each path. -/
def sitesAt (c : Configuration) (kinds : Datum) (position : Nat) :
    Except Fault (List CastSite) := do
  match c.token? position with
  | none => return []
  | some t =>
    match ← c.castOperand kinds t with
    | none => return []
    | some operand =>
      let facts := ((c.token? operand).map Token.facts).getD []
      return (← pathIds facts).map fun path => ⟨c, position, operand, path, t.location⟩

/-- The casts at the given positions up to the first fault. -/
def sitesFrom (c : Configuration) (kinds : Datum) : List Nat → List CastSite × Except Fault Unit
  | [] => ([], .ok ())
  | position :: rest =>
    match c.sitesAt kinds position with
    | .error f => ([], .error f)
    | .ok sites =>
      let (more, result) := c.sitesFrom kinds rest
      (sites ++ more, result)

/-- The casts of a configuration, in the order of its tokens and ascending paths, up to the first
fault. -/
def castSites (c : Configuration) (o : Options) : List CastSite × Except Fault Unit :=
  c.sitesFrom o.castKinds c.listed

end Configuration

/-! ## The dump as a front end -/

/-- A type of a configuration; missing if nothing is known about it. -/
structure DumpType where
  configuration : Configuration
  valueType : Option ValueType

/-- Where an enumeration is declared. -/
structure DumpScope where
  configuration : Configuration
  scope : Scope
  /-- The position of the scope in the configuration. -/
  position : Nat

namespace DumpType

/-- The enumeration that a scope declares, under its key.  Identifiers of scopes are unique within
one configuration only, so `realm` is added to them unless it is nothing. -/
def enumRef (c : Configuration) (realm : Datum) (position : Nat) (s : Scope) :
    EnumRef DumpScope where
  key :=
    let own := s.id.getD (.address s.address)
    if realm.isNothing then own else .tuple [realm, own]
  name := (s.className.getD (.text "")).orElse (.text "")
  origin := ⟨c, s, position⟩

/-- Is the type an enumeration? -/
def classify (realm : Datum) (t : DumpType) : TypeKind DumpScope :=
  match t.valueType with
  | none => .notEnum
  | some v =>
    if (v.pointer.getD (.int 0)).isTrue then .notEnum
    else
      match v.scope.bind fun k => (t.configuration.scopes[k]?).map fun s => (k, s) with
      | none => .notEnum
      | some (k, s) =>
        if (s.type.getD (.text "")).isText "Enum" then
          .plainEnum (enumRef t.configuration realm k s)
        else
          .notEnum

end DumpType

/-- The constants of an enumeration as values; what is not known is nothing. -/
def DumpScope.constants (d : DumpScope) : Except Fault (List Datum) := do
  return (← d.scope.constants d.configuration).map fun
    | some n => .int n
    | none => .nothing

/-- The front end that answers from a dump.  `realm` tells the enumerations of one configuration
from those of another. -/
def frontEnd (realm : Datum) : FrontEnd DumpType Token Datum DumpScope where
  classify t := .ok (t.classify realm)
  constants ref := do return .list (← ref.origin.constants)
  rangeOf := Token.rangeOn

namespace CastSite

/-- The type that is cast to. -/
def target (s : CastSite) : DumpType where
  configuration := s.configuration
  valueType := (s.configuration.token? s.position).bind Token.valueType

/-- The site as an audit sees it. -/
def site (s : CastSite) : Site DumpType Token where
  target := s.target
  operand := (s.configuration.token? s.operand).getD {}
  path := .int s.path
  location := s.location

end CastSite

end DeadCast

import DeadCast.Datum.Use
import DeadCast.Log
import DeadCast.Number.Ascending

/-!
# Enumerations

An enumeration is known by a key; two references with equal keys mean the same enumeration, however
they name it (`EnumRef`).  What counts about it is the set of values of its enumerators
(`EnumValues`): not the values between the least and the greatest one, but exactly those that are
declared.  Enumerators whose value could not be found out are left out and counted.
-/

namespace DeadCast

/-- A reference to an enumeration.  `origin` is whatever the front end needs to find its
declaration. -/
structure EnumRef (σ : Type) where
  key : Datum
  name : Label
  origin : σ

namespace EnumRef

variable {σ : Type}

/-- The name of the enumeration in messages. -/
def display (e : EnumRef σ) : String :=
  if e.name.datum.isTrue then "enum " ++ e.name.datum.display else "enum <anonymous>"

/-- Equality of references: key and name, but not where they come from. -/
def same (a b : EnumRef σ) : Bool := a.key.sameKey b.key && a.name.datum.sameKey b.name.datum

/-- Can the reference itself be a key? -/
def isHashable (e : EnumRef σ) : Bool := e.key.isHashable && e.name.datum.isHashable

/-- The reference as it is written in messages about values, if its key can be written. -/
def literal? (e : EnumRef σ) : Except Fault String := do
  return "EnumHandle(key=" ++ (← e.key.literal?) ++ ", name=" ++ e.name.datum.literal ++ ")"

end EnumRef

/-- What a front end says about a type. -/
inductive TypeKind (σ : Type) where
  | notEnum
  | plainEnum (ref : EnumRef σ)

namespace TypeKind

variable {σ : Type}

/-- Equality of answers. -/
def same : TypeKind σ → TypeKind σ → Bool
  | .notEnum, .notEnum => true
  | .plainEnum a, .plainEnum b => a.same b
  | _, _ => false

/-- The answer as it is written in messages about values, if it can be written. -/
def literal? : TypeKind σ → Except Fault String
  | .notEnum => .ok "NOT_ENUM"
  | .plainEnum ref => do return "PlainEnum(handle=" ++ (← ref.literal?) ++ ")"

end TypeKind

/-- The values of an enumeration, ascending, and how many enumerators have none. -/
structure EnumValues (σ : Type) where
  ref : EnumRef σ
  values : List Int
  unresolved : Nat

namespace EnumValues

variable {σ : Type}

/-- Collects the integers among the declared constants.  Truth values are no integers here. -/
def ofConstants (ref : EnumRef σ) (constants : List Datum) : EnumValues σ where
  ref := ref
  values := ascending (constants.filterMap Datum.integer?)
  unresolved := (constants.filter fun c => c.integer?.isNone).length

/-- Is no value known? -/
def isEmpty (e : EnumValues σ) : Bool := e.values.isEmpty

/-- Is a value one of the enumeration? -/
def has (e : EnumValues σ) (d : Datum) : Bool := d.isAmong (e.values.map .int)

/-- The line that tells about enumerators without a value. -/
def skippedLine (e : EnumValues σ) : List LogLine :=
  if e.unresolved = 0 then []
  else [⟨.debug, .catalogue, e.ref.display ++ ": " ++ Nat.repr e.unresolved ++
    " enumerator(s) without a concrete value were skipped"⟩]

/-- The line that tells which values were found. -/
def builtLine (e : EnumValues σ) : LogLine :=
  ⟨.debug, .catalogue, "built value space for " ++ e.ref.display ++ ": " ++
    (Datum.tuple (e.values.map .int)).literal⟩

end EnumValues

end DeadCast

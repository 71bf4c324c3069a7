import DeadCast.Enumeration.Basic

/-!
# The catalogue of enumerations

The values of an enumeration are worked out once and then kept for the rest of the run, under the
key of the enumeration.  `Catalogue.fetch` gives the kept values, or works them out and keeps them;
`Catalogue.build` works them out without keeping them.

Working them out means asking the front end for the declared constants.  The catalogue counts how
often it asks (`queries`), also when the front end fails; a failure leaves the kept values alone.
-/

namespace DeadCast

/-- The values of the enumerations that were asked for so far. -/
structure Catalogue (σ : Type) where
  entries : List (Datum × EnumValues σ) := []
  queries : Nat := 0

namespace Catalogue

variable {σ : Type}

/-- The kept values under a key. -/
def find? (c : Catalogue σ) (key : Datum) : Option (EnumValues σ) :=
  (c.entries.find? fun entry => entry.1.sameKey key).map Prod.snd

/-- What a step of the catalogue comes to: the catalogue after it, what it logs, and its result. -/
structure Step (σ α : Type) where
  catalogue : Catalogue σ
  log : List LogLine
  result : Except Fault α

/-- Works out the values of an enumeration without keeping them. -/
def build (c : Catalogue σ) (constants : EnumRef σ → Except Fault Datum) (ref : EnumRef σ) :
    Step σ (EnumValues σ) :=
  let asked := { c with queries := c.queries + 1 }
  match constants ref >>= Datum.items with
  | .error f => ⟨asked, [], .error f⟩
  | .ok found =>
    let e := EnumValues.ofConstants ref found
    ⟨asked, e.skippedLine, .ok e⟩

/-- Keeps values under the key of their enumeration. -/
def keep (c : Catalogue σ) (e : EnumValues σ) : Catalogue σ :=
  { c with entries := c.entries ++ [(e.ref.key, e)] }

/-- The kept values of an enumeration, worked out now if there are none yet. -/
def fetch (c : Catalogue σ) (constants : EnumRef σ → Except Fault Datum) (ref : EnumRef σ) :
    Step σ (EnumValues σ) :=
  match ref.key.asKey with
  | .error f => ⟨c, [], .error f⟩
  | .ok () =>
    match c.find? ref.key with
    | some e => ⟨c, [], .ok e⟩
    | none =>
      let step := c.build constants ref
      match step.result with
      | .error f => ⟨step.catalogue, step.log, .error f⟩
      | .ok e => ⟨step.catalogue.keep e, step.log ++ [e.builtLine], .ok e⟩

/-- Forgets all kept values. -/
def clear (c : Catalogue σ) : Catalogue σ := { c with entries := [] }

/-- Are values kept under a key? -/
def contains (c : Catalogue σ) (key : Datum) : Except Fault Bool := do
  key.asKey
  return (c.find? key).isSome

/-- How many enumerations have their values kept. -/
def size (c : Catalogue σ) : Nat := c.entries.length

end Catalogue

end DeadCast

import DeadCast.Proofs.Dump.CastSite
import DeadCast.Run.Report
import Mathlib.Tactic

/-!
# Running a session

A run opens a realm, lists the casts of the configuration and visits them in that realm.
`Session.run_eq` puts the three steps together: what a run does depends on the options, on the
desk and on the serial number of the session, and on nothing else that earlier runs left behind.
In particular the casts that a failed run left pending are never visited by a later run.

Kept values are found again only inside their realm.  `Session.realmOf` is the realm that the run
with a given serial number opens for a configuration.
-/

namespace DeadCast

/-- The identity of a scope inside its configuration: its identifier, or its address. -/
def Scope.ownKey (s : Scope) : Datum := s.id.getD (.address s.address)

namespace DumpType

/-- In a realm, the key of an enumeration is the pair of the realm and the identity of its scope. -/
theorem key_enumRef {realm : Datum} (h : realm.isNothing = false) (c : Configuration) (k : Nat)
    (scope : Scope) : (enumRef c realm k scope).key = .tuple [realm, scope.ownKey] := by
  simp [enumRef, h, Scope.ownKey]

end DumpType

/-- The constants of an enumeration are those that its scope declares. -/
theorem constants_frontEnd (realm : Datum) (ref : EnumRef DumpScope) :
    (frontEnd realm).constants ref >>= Datum.items =
      (ref.origin.scope.constants ref.origin.configuration).map (·.map constantDatum) := by
  have hconstants : ref.origin.constants =
      (ref.origin.scope.constants ref.origin.configuration).map (·.map constantDatum) := by
    unfold DumpScope.constants
    cases ref.origin.scope.constants ref.origin.configuration <;> rfl
  show (do return Datum.list (← ref.origin.constants)) >>= Datum.items = _
  rw [hconstants]
  cases ref.origin.scope.constants ref.origin.configuration <;> rfl

namespace Session

/-- The realm that is opened for a configuration as the one with this serial number. -/
def realmOf (serial : Nat) (c : Configuration) : Datum :=
  .tuple [.int serial, (c.name.getD (.text "")).orElse (.text "")]

@[simp]
theorem isNothing_realmOf (serial : Nat) (c : Configuration) :
    (realmOf serial c).isNothing = false := rfl

/-- **What a run does.** -/
theorem run_eq (s : Session) (c : Configuration) :
    s.run c =
      match c.castSites s.options with
      | (_, .error f) => (s.configure c, .error f)
      | (sites, .ok ()) =>
        match visitAll (realmOf (s.serial + 1) c) s.options (s.desk.note [collectedLine sites])
          sites with
        | (desk, .ok ()) => ({ s.configure c with desk := desk, pending := [] }, .ok ())
        | (desk, .error f) =>
          ({ s.configure c with desk := desk, pending := sites }, .error f) := by
  have hoptions : (s.configure c).options = s.options := rfl
  unfold run collect
  rw [hoptions]
  cases hsites : c.castSites s.options with
  | mk sites result =>
    cases result with
    | error f => rfl
    | ok u =>
      -- a realm was opened, so `diagnose` opens no other one
      simp only [diagnose]
      rfl

/-- Visiting casts one after the other. -/
theorem visitAll_cons (realm : Datum) (o : Options) (d : Desk DumpScope) (s : CastSite)
    (rest : List CastSite) :
    visitAll realm o d (s :: rest) =
      match d.visit (frontEnd realm) o s.site (.int s.path) with
      | (d, .ok _) => visitAll realm o d rest
      | (d, .error f) => (d, .error f) := rfl

end Session

end DeadCast

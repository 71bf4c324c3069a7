import DeadCast.Finding.Basic

/-!
# The ledger of findings

Findings are collected in the order in which they are made.  A ledger that drops repetitions keeps
only the first finding of each identifier, location and path; for that it has to look them up, so a
finding whose path or location cannot be a key is a fault that leaves the ledger as it was.
-/

namespace DeadCast

/-- The findings made so far, and the keys whose repetitions are dropped. -/
structure Ledger where
  dropRepeats : Bool := false
  findings : List Finding := []
  seen : List Finding.Key := []

namespace Ledger

/-- Enters a finding. -/
def emit (l : Ledger) (f : Finding) : Except Fault Ledger :=
  if l.dropRepeats then
    if f.key.isHashable then
      if l.seen.any (·.same f.key) then .ok l
      else .ok { l with findings := l.findings ++ [f], seen := l.seen ++ [f.key] }
    else
      .error (.unhashable "list")
  else
    .ok { l with findings := l.findings ++ [f] }

end Ledger

end DeadCast

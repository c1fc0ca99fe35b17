import TreeConsole.Client.Basic

/-!
# Planned failures

A plan that makes some requests fail: after so many requests of a name have been let through, the
next one fails. Of several plans for one name the first counts until it has been used up.
-/

namespace TreeConsole

/-- One planned failure. -/
structure Fault where
  /-- The name of the requests it is about. -/
  name : String
  error : NodeError
  /-- How many of them are let through first. -/
  skip : Nat
  deriving DecidableEq, Repr, Inhabited

namespace Fault

/-- What becomes of a request under a plan, and the plan afterwards. -/
def refuse (q : Request) : List Fault → Option NodeError × List Fault
  | [] => (none, [])
  | f :: faults =>
    if f.name = q.name then
      match f.skip with
      | 0 => (some f.error, faults)
      | skip + 1 => (none, { f with skip } :: faults)
    else ((refuse q faults).1, f :: (refuse q faults).2)

end Fault

/-- The client whose requests fail by a plan. -/
def Client.failing {σ : Type} (c : Client σ) : Client (σ × List Fault) :=
  c.interrupted Fault.refuse

end TreeConsole

import CuttingPlane.Snapshot
import CuttingPlane.Valuation

/-!
# Solutions

What a solve comes to, its wording and its printed form.
-/

namespace CuttingPlane

inductive Outcome where
  /-- A whole optimum was reached. -/
  | optimal
  | unbounded
  | infeasible
  /-- The pivots or the cuts were spent first. -/
  | nonConvergent
  | cancelled
deriving Repr, DecidableEq

namespace Outcome

def all : List Outcome := [optimal, unbounded, infeasible, nonConvergent, cancelled]

def name : Outcome → String
  | optimal => "Optimal"
  | unbounded => "Unbounded"
  | infeasible => "Infeasible"
  | nonConvergent => "NonConvergent"
  | cancelled => "Cancelled"

def ofName? (s : String) : Option Outcome :=
  all.find? fun o => o.name == s

end Outcome

/-- The outcome of a solve, the values and the objective of an optimum, the number of cuts and the
snapshots. -/
structure Solution (α : Type) where
  outcome : Outcome
  values : Valuation α
  objective : Option α
  cuts : Nat
  trace : List (Snapshot α)

namespace Solution

/-- A solve that ended without an optimum. -/
def failed {α : Type} (outcome : Outcome) (cuts : Nat) : Solution α :=
  ⟨outcome, .empty, none, cuts, []⟩

def message {α : Type} (s : Solution α) : String :=
  match s.outcome with
  | .optimal => "Optimal integer solution found"
  | .unbounded => "The objective function is unbounded"
  | .infeasible => "No integer solution (no further cut is possible)"
  | .nonConvergent => s!"Too many iterations ({s.cuts} cuts), no solution found"
  | .cancelled => "The solve was cancelled"

/-- The printed form: the wording, then a line per value and one for the objective. -/
def text (s : Solution Float) : String :=
  let line := fun (name : String) (value : Float) => s!"{name} = {Decimal.plainText value}\n"
  s.message ++ "\n" ++ String.join (s.values.toList.map fun p => line p.1 p.2)
    ++ (s.objective.map (line objectiveLabel)).getD ""

end Solution
end CuttingPlane

import CuttingPlane.Problem

/-!
# Production plans

From a problem as a user states it to a plan: the shapes and the numbers are checked, the problem is
solved in whole numbers, and every outcome but an optimum is an error.
-/

namespace CuttingPlane

/-- A problem as stated, with the options of its solve. -/
structure PlanRequest (α : Type) where
  supply : List α
  consumption : List (List α)
  profit : List α
  options : Options α
deriving DecidableEq

/-- What to make of every product, and what that earns. -/
structure Plan (α : Type) where
  quantities : List α
  maxIncome : α
  cuts : Nat
  message : String
  trace : List (Snapshot α)
deriving DecidableEq

/-- A number of a request, by its place. Resources and products are counted from one. -/
inductive Field where
  | supply (resource : Nat)
  | consumption (resource product : Nat)
  | profit (product : Nat)
deriving Repr, DecidableEq

inductive PlanError (α : Type) where
  /-- There is not one row of consumptions per supply. -/
  | rowCount (rows supplies : Nat)
  /-- A row of consumptions does not have one entry per profit. -/
  | rowLength (entries profits : Nat)
  | noProducts
  /-- Numbers that are negative or not finite. -/
  | inadmissible (fields : List (Field × α))
  | untabled (reason : TableauError)
  /-- The solve ended without an optimum. -/
  | unsolved (outcome : String)
deriving DecidableEq

inductive PlanEvent (α : Type) where
  | received (request : PlanRequest α)
  | shapesAgree
  | posed (problem : Problem α)
  | sized (products resources : Nat)
  | solving (event : Event α)
  | solved (solution : Solution α)

namespace PlanRequest

variable {α : Type}

def problem (request : PlanRequest α) : Problem α :=
  ⟨request.supply, request.consumption, request.profit⟩

/-- What is wrong with the shapes, the first that does not agree. -/
def shapeError? (request : PlanRequest α) : Option (PlanError α) :=
  if request.consumption.length ≠ request.supply.length then
    some (.rowCount request.consumption.length request.supply.length)
  else
    match request.consumption.find? fun row => row.length ≠ request.profit.length with
    | some row => some (.rowLength row.length request.profit.length)
    | none => if request.profit.isEmpty then some .noProducts else none

/-- The numbers of a request with their places: supplies, consumptions, profits. -/
def fields (request : PlanRequest α) : List (Field × α) :=
  let supplies := request.supply.mapIdx fun i x => (Field.supply (i + 1), x)
  let rows := request.consumption.mapIdx fun i row => row.mapIdx fun j x => (Field.consumption (i + 1) (j + 1), x)
  let profits := request.profit.mapIdx fun j x => (Field.profit (j + 1), x)
  supplies ++ rows.flatten ++ profits

variable [Scalar α]

/-- Whether a number of a request is usable: finite and not negative. -/
def isAdmissible (x : α) : Bool :=
  Scalar.isFinite x && !decide (x < 0)

def inadmissible (request : PlanRequest α) : List (Field × α) :=
  request.fields.filter fun p => !isAdmissible p.2

end PlanRequest

namespace Plan

variable {α : Type} [Scalar α]

structure Report (α : Type) where
  result : Except Fault (Except (PlanError α) (Plan α))
  events : List (PlanEvent α)

/-- The plan that a solution of a problem stands for. -/
def ofSolution (problem : Problem α) (solution : Solution α) : Plan α :=
  let quantities := (List.range problem.products).map fun j =>
    -- What a solution does not name is not made.
    (solution.values.get? (Problem.variableName (j + 1))).getD 0
  { quantities
    maxIncome := problem.income quantities
    cuts := solution.cuts
    message := solution.message
    trace := solution.trace }

/-- The result of a finished solve. -/
def conclude (problem : Problem α) (solution : Solution α) : Except (PlanError α) (Plan α) :=
  if solution.outcome = .optimal then .ok (ofSolution problem solution)
  else .error (.unsolved solution.message)

/-- Solves a problem whose shapes and numbers are in order. -/
def solveProblem (problem : Problem α) (options : Options α) (flag : StopFlag α) : Report α :=
  match Reading.checked.startingTableau problem with
  | .error fault => ⟨.error fault, []⟩
  | .ok (.error reason) => ⟨.ok (.error (.untabled reason)), []⟩
  | .ok (.ok t) =>
    let run := t.solveInto options .keep flag
    let seen := run.events.map .solving
    match run.result with
    | .error fault => ⟨.error fault, seen⟩
    | .ok solution => ⟨.ok (conclude problem solution), seen ++ [.solved solution]⟩

/-- Checks a request and plans for it. -/
def compute (request : PlanRequest α) (flag : StopFlag α) : Report α :=
  match request.shapeError? with
  | some error => ⟨.ok (.error error), [.received request]⟩
  | none =>
    let begun := [.received request, .shapesAgree]
    match request.inadmissible with
    | [] =>
      let problem := request.problem
      let report := solveProblem problem request.options flag
      ⟨report.result, begun ++ [.posed problem, .sized problem.products problem.resources] ++ report.events⟩
    | fields => ⟨.ok (.error (.inadmissible fields)), begun⟩

end Plan
end CuttingPlane

import CuttingPlane.Json.Value
import CuttingPlane.Plan.Basic

/-!
# JSON forms of the library's types

How each type is laid out as a JSON value. A grid is a triple of its entries, column after column,
its height and its width; values by name are a record; what is absent is `null`. The members of
requests and plans are in camel case, those of the other types in snake case.
-/

namespace CuttingPlane

def Json.listOf {β : Type} (form : β → Json) (xs : List β) : Json :=
  .list (xs.map form)

def Json.reals (xs : List Float) : Json :=
  .listOf .real xs

def Json.optional {β : Type} (form : β → Json) : Option β → Json
  | none => .null
  | some x => form x

def Grid.toJson (g : Grid Float) : Json :=
  .list [.reals g.entries.toList, .natural g.height, .natural g.width]

def Snapshot.toJson (s : Snapshot Float) : Json :=
  .record [("step_title", .text s.title), ("matrix", s.matrix.toJson),
    ("basic_vars", .listOf .text s.basic), ("nonbasic_vars", .listOf .text s.nonbasic)]

def Outcome.toJson (o : Outcome) : Json :=
  .text o.name

def Valuation.toJson (v : Valuation Float) : Json :=
  .record (v.toList.map fun p => (p.1, .real p.2))

def Solution.toJson (s : Solution Float) : Json :=
  .record [("outcome", s.outcome.toJson), ("values", s.values.toJson),
    ("objective", .optional .real s.objective), ("cuts", .natural s.cuts),
    ("trace", .listOf Snapshot.toJson s.trace)]

def Options.toJson (o : Options Float) : Json :=
  .record [("epsilon", .real o.epsilon), ("max_cuts", .natural o.maxCuts),
    ("max_pivots", .optional .natural o.maxPivots)]

def Problem.toJson (p : Problem Float) : Json :=
  .record [("supply", .reals p.supply), ("consumption", .listOf .reals p.consumption),
    ("profit", .reals p.profit)]

def PlanRequest.toJson (r : PlanRequest Float) : Json :=
  .record [("supply", .reals r.supply), ("consumption", .listOf .reals r.consumption),
    ("profit", .reals r.profit), ("options", r.options.toJson)]

def Plan.toJson (p : Plan Float) : Json :=
  .record [("quantities", .reals p.quantities), ("maxIncome", .real p.maxIncome),
    ("cuts", .natural p.cuts), ("message", .text p.message), ("trace", .listOf Snapshot.toJson p.trace)]

end CuttingPlane

import CuttingPlane.Snapshot

/-!
# Events

What happens while a tableau is worked on, as data: each event holds what it is about, and the events
of a run in their order are its history. Two kinds of events leave a snapshot, a pivot that was made
and a cut that was added.
-/

namespace CuttingPlane

/-- One thing that happened in a run. -/
inductive Event (α : Type) where
  /-- A pivot on `element` is about to be made. -/
  | pivoting (row column : Nat) (entering leaving : String) (element : α)
  /-- The pivot has no meaning, its element is zero. -/
  | zeroElement (row column : Nat)
  /-- A pivot was made. -/
  | pivoted (row column : Nat) (entering leaving : String) (after : Tableau α)
  /-- A row has a negative right-hand side and is going to be repaired. -/
  | repairing (row : Nat)
  /-- A row has a negative right-hand side and no negative coefficient. -/
  | stuck (row : Nat) (label : String) (rhs : α)
  /-- A row needs a repair, but no pivot is left. -/
  | repairsSpent (row : Nat)
  /-- A row limits the entering variable by this ratio. -/
  | ratio (row : Nat) (ratio : α)
  /-- A column improves the objective and no row limits it. -/
  | unlimited (column : Nat) (label : String)
  /-- The tableau could be improved, but no pivot is left of `limit`. -/
  | pivotsSpent (limit : Nat)
  /-- No column improves the objective and no row is infeasible. -/
  | optimum (tableau : Tableau α)
  /-- A row has only whole entries, there is no cut. -/
  | noCut (source : String)
  /-- A cut was added. -/
  | cut (source label : String) (row : List α) (after : Tableau α)
  /-- A round of optimizing and cutting begins. -/
  | round (number : Nat)
  /-- The solve was stopped. -/
  | cancelled (cuts : Nat)
  /-- A pass ran out of pivots. -/
  | stalled (cuts : Nat)
  /-- Every value is whole. -/
  | solved (cuts : Nat)
  /-- A value has this fractional part, a cut is going to be added. -/
  | fractional (label : String) (part : α)
  /-- The cut could not be added. -/
  | uncut (reason : CutError)
  /-- More than `limit` cuts were needed. -/
  | cutsSpent (limit : Nat)

namespace Event

def snapshot? {α : Type} : Event α → Option (Snapshot α)
  | pivoted r s entering leaving after =>
    some (.ofTableau s!"Pivot on row {r}, column {s}: {entering} enters the basis, {leaving} leaves" after)
  | cut source label _ after =>
    some (.ofTableau s!"Gomory cut from {source}: new constraint {label}" after)
  | _ => none

def snapshots {α : Type} (events : List (Event α)) : List (Snapshot α) :=
  events.filterMap snapshot?

end Event

/-- What becomes of the snapshots of a run. -/
inductive Sink where
  | keep
  | discard
deriving Repr, DecidableEq

/-- The snapshots that reach a sink. -/
def Sink.received {α : Type} (sink : Sink) (events : List (Event α)) : List (Snapshot α) :=
  match sink with
  | .keep => Event.snapshots events
  | .discard => []

/-- A longer history only adds snapshots at the end. -/
theorem Sink.received_append {α : Type} (sink : Sink) (past more : List (Event α)) :
    sink.received (past ++ more) = sink.received past ++ sink.received more := by
  cases sink
  · exact List.filterMap_append
  · rfl

/-- The outcome of working on a tableau: a result, the tableau as it was left, and the history. -/
structure Run (α ρ : Type) where
  result : ρ
  tableau : Tableau α
  events : List (Event α)

end CuttingPlane

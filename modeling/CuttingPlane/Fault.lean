/-!
# What can go wrong

The causes for which a step of the method is not carried out, each with its wording. A `Fault` is a
pivot that has no meaning; the other two are refusals to make a tableau or a cut.
-/

namespace CuttingPlane

/-- A step that has no meaning on the tableau at hand. -/
inductive Fault where
  /-- A row or a column that the tableau does not have. -/
  | outOfRange
  /-- A pivot on an entry that is zero. -/
  | zeroPivot (row column : Nat)
deriving Repr, DecidableEq

/-- The wording of a fault; a position out of range has none. -/
def Fault.message? : Fault → Option String
  | .outOfRange => none
  | .zeroPivot r s => some s!"zero pivot element at ({r}, {s})"

def Fault.solveMessage (fault : Fault) : String :=
  "The solver panicked: " ++ fault.message?.getD ""

/-- Why a grid and its labels do not make a tableau. -/
inductive TableauError where
  | empty
  | rowLabels (rows labels : Nat)
  | columnLabels (columns labels : Nat)
  | objectiveRow (label : String)
  | duplicateLabel (label : String)
  | raggedConsumption (row found expected : Nat)
deriving Repr, DecidableEq

def TableauError.message : TableauError → String
  | .empty => "Tableau must have an objective row and a right-hand side column"
  | .rowLabels rows labels => s!"Matrix has {rows} rows but {labels} basic labels"
  | .columnLabels columns labels => s!"Matrix has {columns} columns but {labels} nonbasic labels"
  | .objectiveRow label => s!"Last row must be labelled F, found {label}"
  | .duplicateLabel label => s!"Label {label} is used more than once"
  | .raggedConsumption row found expected =>
    s!"Consumption row {row} has {found} entries, expected one per product ({expected})"

inductive CutError where
  | noSuchRow (label : String)
  /-- Every entry of the row is whole, so a cut would remove nothing. -/
  | degenerate (label : String)
deriving Repr, DecidableEq

def CutError.message : CutError → String
  | .noSuchRow label => s!"No row is labelled {label}"
  | .degenerate label => s!"Cut derived from {label} is degenerate"

end CuttingPlane

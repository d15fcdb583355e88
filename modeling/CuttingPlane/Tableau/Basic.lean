import CuttingPlane.Grid
import CuttingPlane.Reading
import CuttingPlane.Scalar
import CuttingPlane.Valuation

/-!
# Tableaus

A linear program in the form that is worked on by exchanging rows and columns. Row `i` belongs to the
basic variable `basic[i]`, column `j` to the nonbasic variable `nonbasic[j]`, and a row stands for
the equation "basic variable = entry of column 0 − the other entries times their nonbasic
variables". Column 0 holds the right-hand sides, the last row is the objective. At the vertex of a
tableau every nonbasic variable is zero.
-/

namespace CuttingPlane

/-- The label of the objective row. -/
def objectiveLabel : String := "F"

/-- The label of the column of right-hand sides. -/
def rhsLabel : String := "RHS"

/-- A tableau: entries, one label per row and one per column, and the labels of the variables that
are decided on. There is an objective row and a column of right-hand sides. -/
structure Tableau (α : Type) where
  basic : List String
  nonbasic : List String
  decision : List String
  matrix : Grid α
  height_eq : matrix.height = basic.length
  width_eq : matrix.width = nonbasic.length
  height_pos : 0 < matrix.height
  width_pos : 0 < matrix.width

namespace Tableau

variable {α : Type}

def height (t : Tableau α) : Nat := t.matrix.height

def width (t : Tableau α) : Nat := t.matrix.width

/-- The index of the objective row, the last one. -/
def objectiveRow (t : Tableau α) : Nat := t.height - 1

theorem objectiveRow_lt (t : Tableau α) : t.objectiveRow < t.height := by
  have h := t.height_pos
  unfold objectiveRow height
  omega

/-- The row of the variable `label`, if it is basic. -/
def rowOf? (t : Tableau α) (label : String) : Option Nat :=
  t.basic.findIdx? (· == label)

/-- The first label that equals an earlier one or one of `seen`. -/
def firstRepeat? (seen : List String) : List String → Option String
  | [] => none
  | label :: rest => if label ∈ seen then some label else firstRepeat? (label :: seen) rest

/-- The tableau with these entries and labels. There has to be one label per row and per column, the
last row has to be the objective, and no label may occur twice. The variables of the columns after
the first are the ones decided on. -/
def create (matrix : Grid α) (basic nonbasic : List String) : Except TableauError (Tableau α) :=
  if empty : matrix.height = 0 ∨ matrix.width = 0 then .error .empty
  else if rows : matrix.height ≠ basic.length then .error (.rowLabels matrix.height basic.length)
  else if columns : matrix.width ≠ nonbasic.length then
    .error (.columnLabels matrix.width nonbasic.length)
  else
    -- There is a last label: the list is as long as the grid is high.
    let last := basic.getLast?.getD ""
    if last ≠ objectiveLabel then .error (.objectiveRow last)
    else
      match firstRepeat? [] (basic ++ nonbasic) with
      | some label => .error (.duplicateLabel label)
      | none =>
        .ok {
          basic, nonbasic, matrix
          decision := nonbasic.drop 1
          height_eq := Decidable.not_not.1 rows
          width_eq := Decidable.not_not.1 columns
          height_pos := Nat.pos_of_ne_zero fun h => empty (.inl h)
          width_pos := Nat.pos_of_ne_zero fun h => empty (.inr h)
        }

end Tableau

/-! ### Reads -/

namespace Reading

variable {m : Type → Type} (read : Reading m) {α : Type} (t : Tableau α)

def rowLabel (i : Nat) : m String := read.get "" t.basic[i]?

def columnLabel (j : Nat) : m String := read.get "" t.nonbasic[j]?

variable [Scalar α]

def entry (i j : Nat) : m α := read.get 0 (t.matrix.get? i j)

def rhs (i : Nat) : m α := read.entry t i 0

/-- The value of a variable at the vertex: its right-hand side if it is basic, otherwise zero. -/
def value [Monad m] (label : String) : m α :=
  match t.rowOf? label with
  | some i => read.rhs t i
  | none => return 0

end Reading

namespace Tableau

variable {α : Type}

def rowLabel (t : Tableau α) (i : Nat) : String := (Reading.total.rowLabel t i).run

def columnLabel (t : Tableau α) (j : Nat) : String := (Reading.total.columnLabel t j).run

theorem rowLabel_eq (t : Tableau α) (i : Nat) : t.rowLabel i = t.basic.getD i "" := rfl

theorem columnLabel_eq (t : Tableau α) (j : Nat) : t.columnLabel j = t.nonbasic.getD j "" := rfl

variable [Scalar α]

/-- The entry in row `i` and column `j`; zero outside the tableau. -/
def entry (t : Tableau α) (i j : Nat) : α := (Reading.total.entry t i j).run

theorem entry_eq (t : Tableau α) (i j : Nat) : t.entry i j = t.matrix.get i j := rfl

def rhs (t : Tableau α) (i : Nat) : α := t.entry i 0

/-- The right-hand side of row `i`, which has to exist. -/
def rhs? (t : Tableau α) (i : Nat) : Except Fault α := Reading.checked.rhs t i

/-- The value of a variable at the vertex. -/
def value (t : Tableau α) (label : String) : α := (Reading.total.value t label).run

theorem value_eq (t : Tableau α) (label : String) :
    t.value label = match t.rowOf? label with
      | some i => t.rhs i
      | none => 0 := by
  unfold value Reading.value
  cases t.rowOf? label <;> rfl

/-- The values of the named variables at the vertex. -/
def values (t : Tableau α) (names : List String) : Valuation α :=
  .ofList (names.map fun name => (name, t.value name))

def solution (t : Tableau α) : Valuation α := t.values t.decision

def objective (t : Tableau α) : α := t.rhs t.objectiveRow

end Tableau
end CuttingPlane

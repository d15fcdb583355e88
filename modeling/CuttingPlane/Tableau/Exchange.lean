import CuttingPlane.Tableau.Basic

/-!
# Changes of a tableau

The two elementary changes: the exchange of a basic against a nonbasic variable by the rectangle
rule, and a new row above the objective.
-/

namespace CuttingPlane

/-- The entry in row `i` and column `j` after an exchange at row `r` and column `s`. The pivot element becomes
its reciprocal, its row is divided by it, its column divided and negated, and every other entry follows the
rectangle rule. -/
def Reading.exchanged {m : Type → Type} [Monad m] (read : Reading m) {α : Type} [Scalar α] (t : Tableau α)
    (r s i j : Nat) : m α := do
  let e ← read.entry t r s
  if i = r then if j = s then return 1 / e else return (← read.entry t i j) / e
  else if j = s then return -(← read.entry t i j) / e
  else return ((← read.entry t i j) * e - (← read.entry t i s) * (← read.entry t r j)) / e

namespace Tableau

variable {α : Type} [Scalar α]

/-- Exchanges the variables of row `r` and column `s`. -/
def pivot (t : Tableau α) (r s : Nat) : Tableau α where
  basic := t.basic.set r (t.columnLabel s)
  nonbasic := t.nonbasic.set s (t.rowLabel r)
  decision := t.decision
  matrix := .tabulate t.height t.width fun i j => (Reading.total.exchanged t r s i j).run
  height_eq := by simpa [height] using t.height_eq
  width_eq := by simpa [width] using t.width_eq
  height_pos := t.height_pos
  width_pos := t.width_pos

@[simp] theorem height_pivot (t : Tableau α) (r s : Nat) : (t.pivot r s).height = t.height := rfl

@[simp] theorem width_pivot (t : Tableau α) (r s : Nat) : (t.pivot r s).width = t.width := rfl

theorem entry_pivot (t : Tableau α) (r s : Nat) {i j : Nat} (hi : i < t.height) (hj : j < t.width) :
    (t.pivot r s).entry i j =
      if i = r then if j = s then 1 / t.entry r s else t.entry i j / t.entry r s
      else if j = s then -t.entry i j / t.entry r s
      else (t.entry i j * t.entry r s - t.entry i s * t.entry r j) / t.entry r s := by
  rw [entry_eq, pivot, Grid.get_tabulate _ hi hj]
  rfl

/-- The exchange at a position of the tableau whose entry is not zero. -/
def pivot? (t : Tableau α) (r s : Nat) : Except Fault (Tableau α) :=
  if r < t.height ∧ s < t.width then
    if t.entry r s == 0 then .error (.zeroPivot r s) else .ok (t.pivot r s)
  else .error .outOfRange

/-- Puts a row under `label` right above the objective. -/
def addRow (t : Tableau α) (label : String) (row : List α) : Tableau α where
  basic := t.basic.insertIdx t.objectiveRow label
  nonbasic := t.nonbasic
  decision := t.decision
  matrix := t.matrix.insertRow t.objectiveRow row
  height_eq := by
    have hrow : t.objectiveRow ≤ t.basic.length := by
      have h := t.objectiveRow_lt
      rw [height, t.height_eq] at h
      omega
    simp [Grid.insertRow, List.length_insertIdx, hrow, t.height_eq]
  width_eq := t.width_eq
  height_pos := Nat.succ_pos _
  width_pos := t.width_pos

@[simp] theorem height_addRow (t : Tableau α) (label : String) (row : List α) :
    (t.addRow label row).height = t.height + 1 := rfl

@[simp] theorem width_addRow (t : Tableau α) (label : String) (row : List α) :
    (t.addRow label row).width = t.width := rfl

theorem entry_addRow (t : Tableau α) (label : String) (row : List α) {i j : Nat}
    (hi : i < t.height + 1) (hj : j < t.width) :
    (t.addRow label row).entry i j =
      if i < t.objectiveRow then t.entry i j
      else if i = t.objectiveRow then row.getD j 0
      else t.entry (i - 1) j := by
  exact Grid.get_insertRow _ _ _ hi hj

/-- Puts in a row that has to be as wide as the tableau, at a position that the tableau has. -/
def addRow? (t : Tableau α) (label : String) (row : List α) : Option (Tableau α) :=
  if row.length = t.width ∧ t.objectiveRow ≤ t.height ∧ t.objectiveRow ≤ t.basic.length then
    some (t.addRow label row)
  else none

end Tableau

/-- Puts in a row. -/
def Reading.addRow {m : Type → Type} (read : Reading m) {α : Type} [Scalar α] (t : Tableau α)
    (label : String) (row : List α) : m (Tableau α) :=
  read.get (t.addRow label row) (t.addRow? label row)

theorem Reading.total_addRow {α : Type} [Scalar α] (t : Tableau α) (label : String) (row : List α) :
    total.addRow t label row = t.addRow label row := by
  simp only [addRow, total, Tableau.addRow?]
  split <;> rfl

end CuttingPlane

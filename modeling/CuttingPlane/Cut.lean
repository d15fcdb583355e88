import CuttingPlane.Event.Basic
import CuttingPlane.Tableau.Exchange

/-!
# Cuts

A fractional cut excludes the vertex of a tableau without excluding a whole point: the fractional
parts of a row, negated, make a new row above the objective.
-/

namespace CuttingPlane

namespace Tableau

variable {α : Type} [Scalar α]

/-- Keeps the better of two rows; the earlier one stays if it is at least as large. -/
def keepLarger (best : Option (Nat × α)) (next : Nat × α) : Option (Nat × α) :=
  match best with
  | some (i, q) => if next.2 ≤ q then some (i, q) else some next
  | none => some next

def cutLabel (t : Tableau α) : String :=
  s!"cut{t.height + t.width}"

end Tableau

namespace Reading

variable {m : Type → Type} [Monad m] (read : Reading m) {α : Type} [Scalar α]

/-- The rows whose right-hand side is farther than `ε` from a whole number, with its fractional
part. -/
def fractionalRows (t : Tableau α) (ε : α) : m (List (Nat × α)) :=
  (List.range t.objectiveRow).filterMapM fun i => do
    let part := Scalar.fract (← read.rhs t i)
    -- The part of what is not finite is a NaN, which fails both tests: such a row counts as whole.
    if ε < part ∧ part < 1 - ε then return some (i, part) else return none

/-- The basic variable with the largest fractional part, the first of several, and that part. -/
def mostFractional (t : Tableau α) (ε : α) : m (Option (String × α)) := do
  ((← read.fractionalRows t ε).foldl Tableau.keepLarger none).mapM fun p =>
    return (← read.rowLabel t p.1, p.2)

/-- The cut that row `i` generates. -/
def cutRow (t : Tableau α) (i : Nat) : m (List α) :=
  (List.range t.width).mapM fun j => return -Scalar.fract (← read.entry t i j)

/-- Adds the cut of the row of `source` and gives its name. -/
def addCut (t : Tableau α) (source : String) (ε : α) : m (Run α (Except CutError String)) :=
  match t.rowOf? source with
  | none => return ⟨.error (.noSuchRow source), t, []⟩
  | some i => do
    let row ← read.cutRow t i
    -- Column 0 is among the entries, so a row is passed over only if its right-hand side is whole too.
    if row.all fun a => Scalar.abs a < ε then return ⟨.error (.degenerate source), t, [.noCut source]⟩
    else
      let label := t.cutLabel
      let after ← read.addRow t label row
      return ⟨.ok label, after, [.cut source label row after]⟩

end Reading

namespace Tableau

variable {α : Type} [Scalar α]

/-! ### Cuts with stand-ins -/

def fractionalRows (t : Tableau α) (ε : α) : List (Nat × α) := (Reading.total.fractionalRows t ε).run

def mostFractional? (t : Tableau α) (ε : α) : Option (String × α) := (Reading.total.mostFractional t ε).run

def cutRow (t : Tableau α) (i : Nat) : List α := (Reading.total.cutRow t i).run

def addCut (t : Tableau α) (source : String) (ε : α) : Run α (Except CutError String) :=
  (Reading.total.addCut t source ε).run

section Equations

variable (t : Tableau α) (ε : α) (i : Nat)

theorem fractionalRows_eq : t.fractionalRows ε = (List.range t.objectiveRow).filterMap fun i =>
    if ε < Scalar.fract (t.rhs i) ∧ Scalar.fract (t.rhs i) < 1 - ε then some (i, Scalar.fract (t.rhs i))
    else none :=
  filterMapM_eq_pure (m := Id) fun _ _ => rfl

theorem mostFractional?_eq : t.mostFractional? ε =
    ((t.fractionalRows ε).foldl keepLarger none).map fun p => (t.rowLabel p.1, p.2) := by
  have hfold : t.mostFractional? ε = (((t.fractionalRows ε).foldl keepLarger none).mapM (m := Id)
    fun p => return (← Reading.total.rowLabel t p.1, p.2)) := rfl
  rw [hfold]
  cases (t.fractionalRows ε).foldl keepLarger none <;> rfl

theorem cutRow_eq : t.cutRow i = (t.matrix.row i).map fun a => -Scalar.fract a := by
  have hrow : t.cutRow i = (List.range t.width).map fun j => -Scalar.fract (t.entry i j) :=
    mapM_eq_pure (m := Id) fun _ _ => rfl
  rw [hrow, Grid.row, List.map_map]
  rfl

theorem addCut_eq (source : String) : t.addCut source ε =
    match t.rowOf? source with
    | none => ⟨.error (.noSuchRow source), t, []⟩
    | some i =>
      if (t.cutRow i).all fun a => Scalar.abs a < ε then ⟨.error (.degenerate source), t, [.noCut source]⟩
      else
        ⟨.ok t.cutLabel, t.addRow t.cutLabel (t.cutRow i),
          [.cut source t.cutLabel (t.cutRow i) (t.addRow t.cutLabel (t.cutRow i))]⟩ := by
  unfold addCut Reading.addCut
  cases t.rowOf? source with
  | none => rfl
  | some i =>
    have hadded := Reading.total_addRow t t.cutLabel (t.cutRow i)
    dsimp only
    rw [← hadded]
    rfl

end Equations

end Tableau
end CuttingPlane

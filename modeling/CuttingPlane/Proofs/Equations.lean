import CuttingPlane.Proofs.Labels
import Mathlib.Algebra.BigOperators.Field
import Mathlib.Algebra.BigOperators.Intervals
import Mathlib.Algebra.Order.BigOperators.Group.Finset
import Mathlib.Algebra.Order.Field.Rat
import Mathlib.Tactic.FieldSimp
import Mathlib.Tactic.Linarith
import Mathlib.Tactic.Ring

/-!
# The equations of a tableau

A tableau over the rationals stands for one linear equation per row. An exchange with a nonzero pivot
element rewrites these equations without changing what satisfies them, a new row adds one equation and
one variable, and the nonbasic variables can be chosen freely.
-/

namespace CuttingPlane.Tableau

open Finset

variable {t : Tableau ℚ} {i r s : ℕ} {v : String → ℚ}

/-! ### Exchanges as linear relations -/

/-- How far row `i` is from balancing values of the rows and of the columns. -/
def residual (t : Tableau ℚ) (y z : ℕ → ℚ) (i : ℕ) : ℚ :=
  y i + ∑ j ∈ range t.width, t.entry i j * z j

theorem residual_eq (hs : s < t.width) (y z : ℕ → ℚ) (i : ℕ) :
    t.residual y z i =
      y i + (t.entry i s * z s + ∑ j ∈ (range t.width).erase s, t.entry i j * z j) := by
  rw [residual, ← add_sum_erase _ _ (mem_range.2 hs)]

-- Exchanging the values of the two variables along with them, a pivot divides its own row and
-- subtracts a multiple of it from every other one.
theorem residual_pivot_self (hr : r < t.height) (hs : s < t.width) (he : t.entry r s ≠ 0)
    (y z : ℕ → ℚ) :
    (t.pivot r s).residual (Function.update y r (z s)) (Function.update z s (y r)) r =
      t.residual y z r / t.entry r s := by
  have hrest : ∑ j ∈ (range t.width).erase s,
      (t.pivot r s).entry r j * Function.update z s (y r) j =
        (∑ j ∈ (range t.width).erase s, t.entry r j * z j) / t.entry r s := by
    rw [sum_div]
    refine sum_congr rfl fun j hj => ?_
    obtain ⟨hne, hlt⟩ := mem_erase.1 hj
    rw [entry_pivot t r s hr (mem_range.1 hlt), Function.update_of_ne hne]
    simp only [if_true, if_neg hne]
    ring
  rw [residual_eq (t := t.pivot r s) hs, residual_eq hs, width_pivot, hrest, entry_pivot t r s hr hs]
  simp only [if_true, Function.update_self]
  field_simp
  ring

theorem residual_pivot_of_ne (hi : i < t.height) (hir : i ≠ r) (hs : s < t.width)
    (he : t.entry r s ≠ 0) (y z : ℕ → ℚ) :
    (t.pivot r s).residual (Function.update y r (z s)) (Function.update z s (y r)) i =
      t.residual y z i - t.entry i s / t.entry r s * t.residual y z r := by
  have hrest : ∑ j ∈ (range t.width).erase s,
      (t.pivot r s).entry i j * Function.update z s (y r) j =
        ∑ j ∈ (range t.width).erase s, t.entry i j * z j -
          t.entry i s / t.entry r s * ∑ j ∈ (range t.width).erase s, t.entry r j * z j := by
    rw [mul_sum, ← sum_sub_distrib]
    refine sum_congr rfl fun j hj => ?_
    obtain ⟨hne, hlt⟩ := mem_erase.1 hj
    rw [entry_pivot t r s hi (mem_range.1 hlt), Function.update_of_ne hne]
    simp only [if_neg hir, if_neg hne]
    field_simp
  rw [residual_eq (t := t.pivot r s) hs, residual_eq hs, residual_eq hs, width_pivot, hrest,
    entry_pivot t r s hi hs, Function.update_of_ne hir]
  simp only [if_true, if_neg hir, Function.update_self]
  field_simp
  ring

theorem residual_pivot_eq_zero_iff (hr : r < t.height) (hs : s < t.width) (he : t.entry r s ≠ 0)
    (y z : ℕ → ℚ) :
    (∀ i < t.height,
      (t.pivot r s).residual (Function.update y r (z s)) (Function.update z s (y r)) i = 0) ↔
      ∀ i < t.height, t.residual y z i = 0 := by
  constructor
  · intro h
    have hself : t.residual y z r = 0 := by
      have hdiv := h r hr
      rw [residual_pivot_self hr hs he] at hdiv
      exact (div_eq_zero_iff.1 hdiv).resolve_right he
    intro i hi
    by_cases hir : i = r
    · rw [hir, hself]
    · have hsub := h i hi
      rwa [residual_pivot_of_ne hi hir hs he, hself, mul_zero, sub_zero] at hsub
  · intro h i hi
    by_cases hir : i = r
    · rw [hir, residual_pivot_self hr hs he, h r hr, zero_div]
    · rw [residual_pivot_of_ne hi hir hs he, h i hi, h r hr, mul_zero, sub_zero]

/-! ### Assignments to the labels -/

/-- What a row of coefficients says of its variable: the coefficient of column 0 less the others times
the values of their nonbasic variables. -/
def combine (t : Tableau ℚ) (a : ℕ → ℚ) (v : String → ℚ) : ℚ :=
  a 0 - ∑ j ∈ Ico 1 t.width, a j * v (t.columnLabel j)

/-- The assignment satisfies the equation of row `i`. -/
def Holds (t : Tableau ℚ) (v : String → ℚ) (i : ℕ) : Prop :=
  v (t.rowLabel i) = t.combine (t.entry i) v

/-- The assignment satisfies the equation of every row. -/
def Solves (t : Tableau ℚ) (v : String → ℚ) : Prop :=
  ∀ i < t.height, t.Holds v i

/-- The values that make the equations homogeneous: the right-hand sides count as minus one. -/
def columnValue (t : Tableau ℚ) (v : String → ℚ) (j : ℕ) : ℚ :=
  if j = 0 then -1 else v (t.columnLabel j)

theorem combine_congr {a b : ℕ → ℚ} (h : ∀ j < t.width, a j = b j) (v : String → ℚ) :
    t.combine a v = t.combine b v := by
  rw [combine, combine, h 0 t.zero_lt_width]
  congr 1
  exact sum_congr rfl fun j hj => by rw [h j (mem_Ico.1 hj).2]

theorem residual_columnValue (v : String → ℚ) (i : ℕ) :
    t.residual (fun i => v (t.rowLabel i)) (t.columnValue v) i =
      v (t.rowLabel i) - t.combine (t.entry i) v := by
  have hrest : ∑ j ∈ Ico 1 t.width, t.entry i j * t.columnValue v j =
      ∑ j ∈ Ico 1 t.width, t.entry i j * v (t.columnLabel j) := by
    refine sum_congr rfl fun j hj => ?_
    have hne : j ≠ 0 := by
      have := (mem_Ico.1 hj).1
      omega
    rw [columnValue, if_neg hne]
  rw [residual, range_eq_Ico, sum_eq_sum_Ico_succ_bot t.zero_lt_width, hrest, combine, columnValue,
    if_pos rfl]
  ring

theorem solves_iff_residual : t.Solves v ↔
    ∀ i < t.height, t.residual (fun i => v (t.rowLabel i)) (t.columnValue v) i = 0 := by
  simp only [Solves, Holds, residual_columnValue, sub_eq_zero]

/-- A pivot right of the right-hand sides keeps the solutions of the equations. -/
theorem solves_pivot_iff (hr : r < t.height) (h1 : 1 ≤ s) (hs : s < t.width)
    (he : t.entry r s ≠ 0) : (t.pivot r s).Solves v ↔ t.Solves v := by
  have hne : s ≠ 0 := by omega
  have hrows : (fun i => v ((t.pivot r s).rowLabel i)) =
      Function.update (fun i => v (t.rowLabel i)) r (t.columnValue v s) := by
    funext i
    by_cases hir : i = r
    · simp [rowLabel_pivot hr, hir, columnValue, hne]
    · simp [rowLabel_pivot hr, hir]
  have hcolumns : (t.pivot r s).columnValue v =
      Function.update (t.columnValue v) s (v (t.rowLabel r)) := by
    funext j
    by_cases hjs : j = s
    · simp [columnLabel_pivot hs, hjs, columnValue, hne]
    · simp [columnLabel_pivot hs, hjs, columnValue]
  rw [solves_iff_residual, solves_iff_residual, hrows, hcolumns, height_pivot]
  exact residual_pivot_eq_zero_iff hr hs he _ _

/-! ### New rows and free columns -/

section AddRow

variable {name : String} {row : List ℚ}

theorem holds_addRow {label : String} {a : ℕ → ℚ} (hlabel : (t.addRow name row).rowLabel i = label)
    (ha : ∀ j < t.width, (t.addRow name row).entry i j = a j) :
    (t.addRow name row).Holds v i ↔ v label = t.combine a v := by
  have hcombine : (t.addRow name row).combine ((t.addRow name row).entry i) v = t.combine a v :=
    combine_congr (t := t) ha v
  rw [Holds, hlabel, hcombine]

theorem holds_addRow_of_lt (hi : i < t.objectiveRow) :
    (t.addRow name row).Holds v i ↔ t.Holds v i := by
  have hlt := t.objectiveRow_lt
  refine holds_addRow ?_ fun j hj => ?_
  · rw [rowLabel_addRow row (by omega), if_pos hi]
  · rw [entry_addRow t name row (by omega) hj, if_pos hi]

theorem holds_addRow_self : (t.addRow name row).Holds v t.objectiveRow ↔
    v name = t.combine (fun j => row.getD j 0) v := by
  have hlt := t.objectiveRow_lt
  refine holds_addRow ?_ fun j hj => ?_
  · rw [rowLabel_addRow row (by omega), if_neg (by omega), if_pos rfl]
  · rw [entry_addRow t name row (by omega) hj, if_neg (by omega), if_pos rfl]

theorem holds_addRow_objectiveRow :
    (t.addRow name row).Holds v (t.objectiveRow + 1) ↔ t.Holds v t.objectiveRow := by
  have hlt := t.objectiveRow_lt
  refine holds_addRow ?_ fun j hj => ?_
  · rw [rowLabel_addRow row (by omega), if_neg (by omega), if_neg (by omega), Nat.add_sub_cancel]
  · rw [entry_addRow t name row (by omega) hj, if_neg (by omega), if_neg (by omega),
      Nat.add_sub_cancel]

/-- A new row adds its own equation to the others. -/
theorem solves_addRow_iff : (t.addRow name row).Solves v ↔
    t.Solves v ∧ v name = t.combine (fun j => row.getD j 0) v := by
  have hlast := t.objectiveRow_add_one
  constructor
  · intro h
    refine ⟨fun i hi => ?_, holds_addRow_self.1 (h _ (by rw [height_addRow]; omega))⟩
    by_cases habove : i < t.objectiveRow
    · exact (holds_addRow_of_lt habove).1 (h i (by rw [height_addRow]; omega))
    · obtain rfl : i = t.objectiveRow := by omega
      exact holds_addRow_objectiveRow.1 (h _ (by rw [height_addRow]; omega))
  · rintro ⟨h, hname⟩ i hi
    rw [height_addRow] at hi
    rcases lt_trichotomy i t.objectiveRow with habove | rfl | hbelow
    · exact (holds_addRow_of_lt habove).2 (h i (by omega))
    · exact holds_addRow_self.2 hname
    · obtain rfl : i = t.objectiveRow + 1 := by omega
      exact holds_addRow_objectiveRow.2 (h _ t.objectiveRow_lt)

end AddRow

theorem combine_agree {w : String → ℚ} (a : ℕ → ℚ)
    (h : ∀ j < t.width, w (t.columnLabel j) = v (t.columnLabel j)) :
    t.combine a w = t.combine a v := by
  rw [combine, combine]
  congr 1
  exact sum_congr rfl fun j hj => by rw [h j (mem_Ico.1 hj).2]

/-- Any values of the nonbasic variables belong to a solution of the equations. -/
theorem exists_solves (hd : t.labels.Nodup) (z : String → ℚ) :
    ∃ v, t.Solves v ∧ ∀ j < t.width, v (t.columnLabel j) = z (t.columnLabel j) := by
  refine ⟨fun label => (t.rowOf? label).elim (z label) fun i => t.combine (t.entry i) z,
    fun i hi => ?_, fun j hj => ?_⟩
  · simp only [Holds, rowOf?_rowLabel hd hi, Option.elim_some]
    refine (combine_agree _ fun j hj => ?_).symm
    simp only [rowOf?_columnLabel hd hj, Option.elim_none]
  · simp only [rowOf?_columnLabel hd hj, Option.elim_none]

end CuttingPlane.Tableau

import CuttingPlane.Proofs.Equations
import CuttingPlane.Proofs.Scans

/-!
# Feasible assignments

An assignment is feasible if it satisfies the equations and is not negative on the variables that may
not be negative. What a halted search has seen decides about all feasible assignments: none of them does
better than the vertex, or there is none, or they go on without bound along a column.
-/

namespace CuttingPlane.Tableau

open Finset

/-! ### Variables that may not be negative -/

section Restricted

variable {α : Type} {t : Tableau α} {i j r s : ℕ} {label name : String}

/-- A label other than those of the objective row and of the right-hand sides. -/
def Restricted (t : Tableau α) (label : String) : Prop :=
  label ∈ t.labels ∧ label ≠ t.rowLabel t.objectiveRow ∧ label ≠ t.columnLabel 0

theorem rowLabel_ne_columnLabel (hd : t.labels.Nodup) (hi : i < t.height) (hj : j < t.width) :
    t.rowLabel i ≠ t.columnLabel j :=
  (List.nodup_append.1 hd).2.2 _ (rowLabel_mem hi) _ (columnLabel_mem hj)

theorem rowLabel_injective (hd : t.labels.Nodup) (hi : i < t.height) (hj : j < t.height)
    (h : t.rowLabel i = t.rowLabel j) : i = j := by
  have hrow := rowOf?_rowLabel hd hi
  rw [h, rowOf?_rowLabel hd hj] at hrow
  exact (Option.some.inj hrow).symm

theorem columnLabel_injective (hd : t.labels.Nodup) (hi : i < t.width) (hj : j < t.width)
    (h : t.columnLabel i = t.columnLabel j) : i = j := by
  have hnodup := (List.nodup_append.1 hd).2.1
  rw [columnLabel_eq_getElem (by simpa using hi), columnLabel_eq_getElem (by simpa using hj)] at h
  exact (List.Nodup.getElem_inj_iff hnodup).1 h

theorem restricted_rowLabel (hd : t.labels.Nodup) (hi : i < t.objectiveRow) :
    t.Restricted (t.rowLabel i) := by
  have hlt := t.objectiveRow_lt
  refine ⟨rowLabel_mem_labels (by omega), fun h => ?_,
    rowLabel_ne_columnLabel hd (by omega) t.zero_lt_width⟩
  have := rowLabel_injective hd (by omega) hlt h
  omega

theorem restricted_columnLabel (hd : t.labels.Nodup) (h1 : 1 ≤ j) (hj : j < t.width) :
    t.Restricted (t.columnLabel j) := by
  refine ⟨columnLabel_mem_labels hj, (rowLabel_ne_columnLabel hd t.objectiveRow_lt hj).symm, fun h => ?_⟩
  have := columnLabel_injective hd hj t.zero_lt_width h
  omega

theorem mem_labels_cases (h : label ∈ t.labels) :
    (∃ i < t.height, label = t.rowLabel i) ∨ ∃ j < t.width, label = t.columnLabel j := by
  rcases List.mem_append.1 h with hmem | hmem
  · exact .inl (exists_rowLabel_eq hmem)
  · exact .inr (exists_columnLabel_eq hmem)

theorem Restricted.cases (h : t.Restricted label) :
    (∃ i < t.objectiveRow, label = t.rowLabel i) ∨
      ∃ j, 1 ≤ j ∧ j < t.width ∧ label = t.columnLabel j := by
  have hlast := t.objectiveRow_add_one
  obtain ⟨hmem, hobjective, hrhs⟩ := h
  rcases mem_labels_cases hmem with ⟨i, hi, rfl⟩ | ⟨j, hj, rfl⟩
  · have hne : i ≠ t.objectiveRow := fun h => hobjective (by rw [h])
    exact .inl ⟨i, by omega, rfl⟩
  · have hne : j ≠ 0 := fun h => hrhs (by rw [h])
    exact .inr ⟨j, by omega, hj, rfl⟩

variable [Scalar α]

theorem rowLabel_objectiveRow_pivot (hr : r < t.objectiveRow) :
    (t.pivot r s).rowLabel (t.pivot r s).objectiveRow = t.rowLabel t.objectiveRow := by
  have hlt := t.objectiveRow_lt
  rw [objectiveRow_pivot, rowLabel_pivot (by omega), if_neg (by omega)]

theorem columnLabel_zero_pivot (h1 : 1 ≤ s) (hs : s < t.width) :
    (t.pivot r s).columnLabel 0 = t.columnLabel 0 := by
  rw [columnLabel_pivot hs, if_neg (by omega)]

theorem restricted_pivot (hr : r < t.objectiveRow) (h1 : 1 ≤ s) (hs : s < t.width) :
    (t.pivot r s).Restricted label ↔ t.Restricted label := by
  have hlt := t.objectiveRow_lt
  rw [Restricted, Restricted, mem_labels_pivot (by omega) hs, rowLabel_objectiveRow_pivot hr,
    columnLabel_zero_pivot h1 hs]

theorem rowLabel_objectiveRow_addRow (row : List α) :
    (t.addRow name row).rowLabel (t.addRow name row).objectiveRow = t.rowLabel t.objectiveRow := by
  have hlt := t.objectiveRow_lt
  rw [objectiveRow_addRow, rowLabel_addRow row (by omega), if_neg (by omega), if_neg (by omega),
    Nat.add_sub_cancel]

theorem restricted_addRow (row : List α) (hfresh : name ∉ t.labels) :
    (t.addRow name row).Restricted label ↔ label = name ∨ t.Restricted label := by
  have hobjective : name ≠ t.rowLabel t.objectiveRow :=
    fun h => hfresh (h ▸ rowLabel_mem_labels t.objectiveRow_lt)
  have hrhs : name ≠ t.columnLabel 0 := fun h => hfresh (h ▸ columnLabel_mem_labels t.zero_lt_width)
  rw [Restricted, Restricted, (labels_addRow_perm row).mem_iff, List.mem_cons,
    rowLabel_objectiveRow_addRow, columnLabel_addRow]
  constructor
  · rintro ⟨hname | hmem, hne⟩
    · exact .inl hname
    · exact .inr ⟨hmem, hne⟩
  · rintro (rfl | ⟨hmem, hne⟩)
    · exact ⟨.inl rfl, hobjective, hrhs⟩
    · exact ⟨.inr hmem, hne⟩

end Restricted

variable {t : Tableau ℚ} {i j r s : ℕ} {v : String → ℚ}

/-! ### Feasibility -/

/-- The assignment satisfies every row and is not negative where it may not be. -/
structure Feasible (t : Tableau ℚ) (v : String → ℚ) : Prop where
  solves : t.Solves v
  nonneg : ∀ label, t.Restricted label → 0 ≤ v label

/-- The value of the objective under an assignment. -/
def objectiveAt (t : Tableau ℚ) (v : String → ℚ) : ℚ := v (t.rowLabel t.objectiveRow)

/-! ### The vertex -/

theorem value_rowLabel (hd : t.labels.Nodup) (hi : i < t.height) :
    t.value (t.rowLabel i) = t.rhs i := by
  rw [value_eq, rowOf?_rowLabel hd hi]

theorem value_columnLabel (hd : t.labels.Nodup) (hj : j < t.width) :
    t.value (t.columnLabel j) = 0 := by
  rw [value_eq, rowOf?_columnLabel hd hj]

theorem solves_value (hd : t.labels.Nodup) : t.Solves t.value := by
  intro i hi
  have hzero : ∑ j ∈ Ico 1 t.width, t.entry i j * t.value (t.columnLabel j) = 0 := by
    refine sum_eq_zero fun j hj => ?_
    rw [value_columnLabel hd (mem_Ico.1 hj).2, mul_zero]
  rw [Holds, value_rowLabel hd hi, combine, hzero, sub_zero, rhs]

theorem le_value_of_restricted (hd : t.labels.Nodup) {bound : ℚ} (hbound : bound ≤ 0)
    (hrhs : ∀ i < t.objectiveRow, bound ≤ t.rhs i) {label : String} (h : t.Restricted label) :
    bound ≤ t.value label := by
  have hlt := t.objectiveRow_lt
  rcases h.cases with ⟨i, hi, rfl⟩ | ⟨j, -, hj, rfl⟩
  · rw [value_rowLabel hd (by omega)]
    exact hrhs i hi
  · rw [value_columnLabel hd hj]
    exact hbound

theorem feasible_value (hd : t.labels.Nodup) (hrhs : ∀ i < t.objectiveRow, 0 ≤ t.rhs i) :
    t.Feasible t.value :=
  ⟨solves_value hd, fun _ h => le_value_of_restricted hd le_rfl hrhs h⟩

theorem objectiveAt_value (hd : t.labels.Nodup) : t.objectiveAt t.value = t.objective :=
  value_rowLabel hd t.objectiveRow_lt

/-! ### Bounds on feasible assignments -/

theorem Feasible.le_rhs (hd : t.labels.Nodup) (h : t.Feasible v) (hi : i < t.height)
    (hrow : ∀ j, 1 ≤ j → j < t.width → 0 ≤ t.entry i j) : v (t.rowLabel i) ≤ t.rhs i := by
  have hsum : 0 ≤ ∑ j ∈ Ico 1 t.width, t.entry i j * v (t.columnLabel j) := by
    refine sum_nonneg fun j hj => ?_
    obtain ⟨h1, hlt⟩ := mem_Ico.1 hj
    exact mul_nonneg (hrow j h1 hlt) (h.nonneg _ (restricted_columnLabel hd h1 hlt))
  have hrow := h.solves i hi
  rw [Holds, combine] at hrow
  rw [hrow, rhs]
  linarith

theorem not_feasible_of_row (hd : t.labels.Nodup) (hr : r < t.objectiveRow) (hneg : t.rhs r < 0)
    (hrow : ∀ j, 1 ≤ j → j < t.width → 0 ≤ t.entry r j) : ¬ t.Feasible v := by
  intro h
  have hlt := t.objectiveRow_lt
  have hle := h.le_rhs hd (i := r) (by omega) hrow
  have hnonneg := h.nonneg _ (restricted_rowLabel hd hr)
  linarith

/-! ### Moving along a column -/

/-- The assignment after raising the nonbasic variable of column `s` by `x`, with the basic variables
following it. -/
def raise (t : Tableau ℚ) (s : ℕ) (x : ℚ) (v : String → ℚ) (label : String) : ℚ :=
  match t.rowOf? label with
  | some i => v label - t.entry i s * x
  | none => if label = t.columnLabel s then v label + x else v label

theorem raise_rowLabel (hd : t.labels.Nodup) (hi : i < t.height) (x : ℚ) :
    t.raise s x v (t.rowLabel i) = v (t.rowLabel i) - t.entry i s * x := by
  rw [raise, rowOf?_rowLabel hd hi]

theorem raise_columnLabel (hd : t.labels.Nodup) (hs : s < t.width) (hj : j < t.width) (x : ℚ) :
    t.raise s x v (t.columnLabel j) = v (t.columnLabel j) + if j = s then x else 0 := by
  rw [raise, rowOf?_columnLabel hd hj]
  by_cases hjs : j = s
  · simp [hjs]
  · have hne : t.columnLabel j ≠ t.columnLabel s := fun h => hjs (columnLabel_injective hd hj hs h)
    simp [hjs, hne]

theorem Solves.raise (hd : t.labels.Nodup) (h : t.Solves v) (h1 : 1 ≤ s) (hs : s < t.width) (x : ℚ) :
    t.Solves (t.raise s x v) := by
  intro i hi
  have hsum : ∑ j ∈ Ico 1 t.width, t.entry i j * t.raise s x v (t.columnLabel j) =
      ∑ j ∈ Ico 1 t.width, t.entry i j * v (t.columnLabel j) + t.entry i s * x := by
    -- Only the raised column changes its term.
    have hterm : ∀ j ∈ Ico 1 t.width, t.entry i j * t.raise s x v (t.columnLabel j) =
        t.entry i j * v (t.columnLabel j) + if j = s then t.entry i j * x else 0 := by
      intro j hj
      rw [raise_columnLabel hd hs (mem_Ico.1 hj).2, mul_add, mul_ite, mul_zero]
    rw [sum_congr rfl hterm, sum_add_distrib, sum_ite_eq' (Ico 1 t.width) s,
      if_pos (mem_Ico.2 ⟨h1, hs⟩)]
  have hrow := h i hi
  rw [Holds, combine] at hrow ⊢
  rw [raise_rowLabel hd hi, hsum, hrow]
  ring

/-- Along a column that no row limits, no variable that may not be negative decreases. -/
theorem le_raise (hd : t.labels.Nodup) (hs : s < t.width)
    (hcolumn : ∀ i < t.objectiveRow, t.entry i s ≤ 0) {x : ℚ} (hx : 0 ≤ x) {label : String}
    (h : t.Restricted label) : v label ≤ t.raise s x v label := by
  have hlt := t.objectiveRow_lt
  rcases h.cases with ⟨i, hi, rfl⟩ | ⟨j, -, hj, rfl⟩
  · rw [raise_rowLabel hd (by omega)]
    have := mul_nonneg (neg_nonneg.2 (hcolumn i hi)) hx
    linarith
  · rw [raise_columnLabel hd hs hj]
    split_ifs <;> linarith

/-- Along a column that no row limits, everything stays feasible. -/
theorem Feasible.raise (hd : t.labels.Nodup) (h : t.Feasible v) (h1 : 1 ≤ s) (hs : s < t.width)
    (hcolumn : ∀ i < t.objectiveRow, t.entry i s ≤ 0) {x : ℚ} (hx : 0 ≤ x) :
    t.Feasible (t.raise s x v) :=
  ⟨h.solves.raise hd h1 hs x, fun label hlabel =>
    (h.nonneg label hlabel).trans (le_raise hd hs hcolumn hx hlabel)⟩

theorem objectiveAt_raise (hd : t.labels.Nodup) (x : ℚ) :
    t.objectiveAt (t.raise s x v) = t.objectiveAt v - t.entry t.objectiveRow s * x :=
  raise_rowLabel hd t.objectiveRow_lt x

end CuttingPlane.Tableau

import CuttingPlane.Cut
import CuttingPlane.Proofs.Passes

/-!
# Reads

A search and a cut read their tableau by positions. At no tableau and no tolerance is such a position outside of
the tableau: the scans find with checks what they find with stand-ins. Neither is there one outside when a
variable is looked up, when a row is put in, or when the entries around a pivot are exchanged.
-/

namespace CuttingPlane

namespace Tableau

variable {α : Type} [Scalar α]

/-- Every read of the tableau is inside: a lookup outside is a fault, and yet what is done with checks is what is
done with stand-ins. -/
structure ReadsInside (t : Tableau α) (ε : α) : Prop where
  entry : ∀ i j, Reading.checked.entry t i j =
    if i < t.height ∧ j < t.width then .ok (t.entry i j) else .error .outOfRange
  leaving : ∀ r, Reading.checked.rowLabel t r =
    if r < t.height then .ok (t.rowLabel r) else .error .outOfRange
  entering : ∀ s, Reading.checked.columnLabel t s =
    if s < t.width then .ok (t.columnLabel s) else .error .outOfRange
  row : ∀ label row, Reading.checked.addRow t label row =
    if row.length = t.width then .ok (t.addRow label row) else .error .outOfRange
  repair : Reading.checked.repairMove t ε = .ok (t.repairMove ε)
  repairNotes : Reading.checked.repairNotes t ε = .ok (t.repairNotes ε)
  search : Reading.checked.searchMove t ε = .ok (t.searchMove ε)
  searchNotes : Reading.checked.searchNotes t ε = .ok (t.searchNotes ε)
  fractional : Reading.checked.mostFractional t ε = .ok (t.mostFractional? ε)
  cut : ∀ source, Reading.checked.addCut t source ε = .ok (t.addCut source ε)
  value : ∀ label, Reading.checked.value t label = .ok (t.value label)
  objective : Reading.checked.rhs t t.objectiveRow = .ok t.objective
  exchange : ∀ r s i j, r < t.height → s < t.width → i < t.height → j < t.width →
    Reading.checked.exchanged t r s i j = .ok ((t.pivot r s).entry i j)

variable {t : Tableau α} {ε : α} {i j r s : Nat}

/-! ### Single reads -/

theorem checked_entry_eq (t : Tableau α) (i j : Nat) : Reading.checked.entry t i j =
    if i < t.height ∧ j < t.width then .ok (t.entry i j) else .error .outOfRange := by
  split
  · rename_i h
    exact Reading.checked_get (Grid.get?_eq_some h.1 h.2)
  · rename_i h
    exact Reading.checked_get_none (dif_neg h)

theorem checked_entry (hi : i < t.height) (hj : j < t.width) :
    Reading.checked.entry t i j = .ok (t.entry i j) :=
  (checked_entry_eq t i j).trans (if_pos ⟨hi, hj⟩)

theorem checked_rhs (hi : i < t.height) : Reading.checked.rhs t i = .ok (t.rhs i) :=
  checked_entry hi t.zero_lt_width

omit [Scalar α] in
theorem checked_rowLabel_eq (t : Tableau α) (i : Nat) : Reading.checked.rowLabel t i =
    if i < t.height then .ok (t.rowLabel i) else .error .outOfRange := by
  rw [← length_basic]
  exact Reading.checked_getElem?_eq t.basic i ""

omit [Scalar α] in
theorem checked_rowLabel (hi : i < t.height) : Reading.checked.rowLabel t i = .ok (t.rowLabel i) :=
  (checked_rowLabel_eq t i).trans (if_pos hi)

omit [Scalar α] in
theorem checked_columnLabel_eq (t : Tableau α) (j : Nat) : Reading.checked.columnLabel t j =
    if j < t.width then .ok (t.columnLabel j) else .error .outOfRange := by
  rw [← length_nonbasic]
  exact Reading.checked_getElem?_eq t.nonbasic j ""

omit [Scalar α] in
theorem checked_columnLabel (hj : j < t.width) : Reading.checked.columnLabel t j = .ok (t.columnLabel j) :=
  (checked_columnLabel_eq t j).trans (if_pos hj)

omit [Scalar α] in
theorem rowOf?_lt {label : String} (h : t.rowOf? label = some i) : i < t.height := by
  obtain ⟨hi, -⟩ := List.findIdx?_eq_some_iff_getElem.1 h
  simpa using hi

theorem checked_value (t : Tableau α) (label : String) :
    Reading.checked.value t label = .ok (t.value label) := by
  rw [value_eq]
  unfold Reading.value
  cases hrow : t.rowOf? label with
  | none => rfl
  | some i => exact checked_rhs (rowOf?_lt hrow)

theorem checked_exchanged (hr : r < t.height) (hs : s < t.width) (hi : i < t.height) (hj : j < t.width) :
    Reading.checked.exchanged t r s i j = .ok ((t.pivot r s).entry i j) := by
  rw [entry_pivot t r s hi hj]
  simp only [Reading.exchanged, checked_entry hr hs, checked_entry hi hj, checked_entry hi hs,
    checked_entry hr hj]
  split
  · split <;> rfl
  · split <;> rfl

/-! ### Choices -/

theorem checked_infeasibleRow (t : Tableau α) (ε : α) :
    Reading.checked.infeasibleRow t ε = .ok (t.infeasibleRow? ε) := by
  have hlast := t.objectiveRow_lt
  rw [infeasibleRow?_eq]
  refine findM?_eq_pure fun i hi => ?_
  have hrow := List.mem_range.1 hi
  rw [checked_rhs (by omega)]
  rfl

theorem checked_negativeColumn (hi : i < t.height) :
    Reading.checked.negativeColumn t i ε = .ok (t.negativeColumn? i ε) := by
  rw [negativeColumn?_eq]
  refine findM?_eq_pure fun j hj => ?_
  have hcolumn := List.mem_range'_1.1 hj
  rw [checked_entry hi (by omega)]
  rfl

theorem checked_enteringColumn (t : Tableau α) (ε : α) :
    Reading.checked.enteringColumn t ε = .ok (t.enteringColumn? ε) :=
  checked_negativeColumn t.objectiveRow_lt

theorem checked_ratios (hs : s < t.width) : Reading.checked.ratios t s ε = .ok (t.ratios s ε) := by
  have hlast := t.objectiveRow_lt
  rw [ratios_eq]
  refine filterMapM_eq_pure fun i hi => ?_
  have hrow := List.mem_range.1 hi
  rw [checked_entry (by omega) hs, ok_bind, checked_rhs (by omega)]
  split <;> rfl

theorem checked_leavingRow (hs : s < t.width) :
    Reading.checked.leavingRow t s ε = .ok (t.leavingRow? s ε) := by
  unfold Reading.leavingRow
  rw [checked_ratios hs]
  rfl

theorem leavingRowStep_eq (hs : s < t.width) :
    t.leavingRowStep s ε = ⟨.ok (t.leavingRow? s ε), t, t.ratioNotes s ε⟩ := by
  unfold leavingRowStep
  rw [checked_leavingRow hs]

theorem checked_ratioNotes (hs : s < t.width) :
    Reading.checked.ratioNotes t s ε = .ok (t.ratioNotes s ε) := by
  unfold Reading.ratioNotes
  rw [checked_ratios hs]
  rfl

/-! ### Moves -/

theorem checked_repairMove (t : Tableau α) (ε : α) :
    Reading.checked.repairMove t ε = .ok (t.repairMove ε) := by
  have hlast := t.objectiveRow_lt
  rw [repairMove_eq]
  unfold Reading.repairMove
  rw [checked_infeasibleRow, ok_bind]
  cases hrow : t.infeasibleRow? ε with
  | none => rfl
  | some r =>
    have hr := (infeasibleRow?_eq_some.1 hrow).1
    dsimp only
    rw [checked_negativeColumn (by omega), ok_bind]
    cases t.negativeColumn? r ε <;> rfl

theorem checked_repairNotes (t : Tableau α) (ε : α) :
    Reading.checked.repairNotes t ε = .ok (t.repairNotes ε) := by
  have hlast := t.objectiveRow_lt
  rw [repairNotes_eq]
  unfold Reading.repairNotes
  rw [checked_repairMove, ok_bind]
  cases hmove : t.repairMove ε with
  | pivot purpose r s => rfl
  | halt state =>
    rcases repairMove_eq_halt hmove with ⟨rfl, -⟩ | ⟨r, rfl, hrow, -⟩
    · rfl
    · have hr := (infeasibleRow?_eq_some.1 hrow).1
      dsimp only
      rw [checked_rowLabel (by omega), ok_bind, checked_rhs (by omega)]
      rfl

theorem checked_searchMove (t : Tableau α) (ε : α) :
    Reading.checked.searchMove t ε = .ok (t.searchMove ε) := by
  rw [searchMove_eq]
  unfold Reading.searchMove
  rw [checked_repairMove, ok_bind]
  cases t.repairMove ε with
  | pivot purpose r s => rfl
  | halt state =>
    dsimp only
    rw [checked_enteringColumn, ok_bind]
    cases hcolumn : t.enteringColumn? ε with
    | none => cases state <;> rfl
    | some s =>
      have hs := (negativeColumn?_eq_some.1 hcolumn).2.1
      dsimp only
      rw [checked_leavingRow hs, ok_bind]
      cases t.leavingRow? s ε <;> rfl

theorem checked_improveNotes (t : Tableau α) (state : Feasibility) (ε : α) :
    Reading.checked.improveNotes t state ε = .ok (t.improveNotes state ε) := by
  rw [improveNotes_eq]
  unfold Reading.improveNotes
  rw [checked_enteringColumn, ok_bind]
  cases hcolumn : t.enteringColumn? ε with
  | none => rfl
  | some s =>
    have hs := (negativeColumn?_eq_some.1 hcolumn).2.1
    dsimp only
    rw [checked_ratioNotes hs, ok_bind, checked_leavingRow hs, ok_bind]
    cases t.leavingRow? s ε with
    | none =>
      dsimp only
      rw [checked_columnLabel hs]
      rfl
    | some r => rfl

theorem checked_searchNotes (t : Tableau α) (ε : α) :
    Reading.checked.searchNotes t ε = .ok (t.searchNotes ε) := by
  rw [searchNotes_eq]
  unfold Reading.searchNotes
  rw [checked_repairMove, ok_bind]
  cases t.repairMove ε with
  | pivot purpose r s => rfl
  | halt state =>
    dsimp only
    rw [checked_repairNotes, ok_bind, checked_improveNotes]
    rfl

/-! ### Cuts -/

theorem checked_fractionalRows (t : Tableau α) (ε : α) :
    Reading.checked.fractionalRows t ε = .ok (t.fractionalRows ε) := by
  have hlast := t.objectiveRow_lt
  rw [fractionalRows_eq]
  refine filterMapM_eq_pure fun i hi => ?_
  have hrow := List.mem_range.1 hi
  rw [checked_rhs (by omega), ok_bind]
  dsimp only
  split <;> rfl

theorem checked_mostFractional (t : Tableau α) (ε : α) :
    Reading.checked.mostFractional t ε = .ok (t.mostFractional? ε) := by
  have hlast := t.objectiveRow_lt
  rw [mostFractional?_eq]
  unfold Reading.mostFractional
  rw [checked_fractionalRows, ok_bind]
  cases hkept : (t.fractionalRows ε).foldl keepLarger none with
  | none => rfl
  | some p =>
    obtain ⟨hrow, -⟩ := mem_fractionalRows.1 (mem_of_foldl_keep (fun _ => rfl) keepLarger_some hkept)
    dsimp only [Option.mapM]
    rw [checked_rowLabel (by omega)]
    rfl

theorem checked_cutRow (hi : i < t.height) : Reading.checked.cutRow t i = .ok (t.cutRow i) := by
  rw [cutRow_eq, Grid.row, List.map_map]
  refine mapM_eq_pure fun j hj => ?_
  rw [checked_entry hi (List.mem_range.1 hj)]
  rfl

theorem length_cutRow (t : Tableau α) (i : Nat) : (t.cutRow i).length = t.width := by
  rw [cutRow_eq, List.length_map, Grid.length_row]
  rfl

theorem checked_addRow_eq (t : Tableau α) (label : String) (row : List α) :
    Reading.checked.addRow t label row =
      if row.length = t.width then .ok (t.addRow label row) else .error .outOfRange := by
  have hlast := t.objectiveRow_lt
  split
  · rename_i h
    exact Reading.checked_get (if_pos ⟨h, by omega, by rw [length_basic]; omega⟩)
  · rename_i h
    exact Reading.checked_get_none (if_neg fun hfits => h hfits.1)

theorem checked_addRow (label : String) {row : List α} (hrow : row.length = t.width) :
    Reading.checked.addRow t label row = .ok (t.addRow label row) :=
  (checked_addRow_eq t label row).trans (if_pos hrow)

theorem checked_addCut (t : Tableau α) (source : String) (ε : α) :
    Reading.checked.addCut t source ε = .ok (t.addCut source ε) := by
  rw [addCut_eq]
  unfold Reading.addCut
  cases hrow : t.rowOf? source with
  | none => rfl
  | some i =>
    dsimp only
    rw [checked_cutRow (rowOf?_lt hrow), ok_bind, checked_addRow _ (t.length_cutRow i)]
    split <;> rfl

/-- No position that a search, a cut, a pivot or a lookup reads is outside of the tableau. -/
theorem readsInside (t : Tableau α) (ε : α) : t.ReadsInside ε where
  entry := checked_entry_eq t
  leaving := checked_rowLabel_eq t
  entering := checked_columnLabel_eq t
  row := checked_addRow_eq t
  repair := checked_repairMove t ε
  repairNotes := checked_repairNotes t ε
  search := checked_searchMove t ε
  searchNotes := checked_searchNotes t ε
  fractional := checked_mostFractional t ε
  cut source := checked_addCut t source ε
  value := checked_value t
  objective := checked_rhs t.objectiveRow_lt
  exchange _ _ _ _ := checked_exchanged

end Tableau
end CuttingPlane

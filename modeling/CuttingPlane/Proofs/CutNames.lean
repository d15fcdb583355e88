import CuttingPlane.Proofs.Rounds

/-!
# Names of cuts

The name of a cut is counted from the rows and columns of the tableau that it is added to. The rows grow
with every cut, so two cuts never have one name, but nothing keeps a given label from having it: the labels
stay distinct exactly as long as no cut takes a name that was given. A name that is taken is looked up at its
first row, and the variable that had it may change its value.
-/

namespace CuttingPlane.Tableau

variable {α : Type} {t u : Tableau α} {label name : String} {i : Nat}

/-! ### First rows -/

theorem rowOf?_eq_some : t.rowOf? label = some i ↔
    i < t.height ∧ t.rowLabel i = label ∧ ∀ k < i, t.rowLabel k ≠ label := by
  rw [rowOf?, List.findIdx?_eq_some_iff_getElem]
  constructor
  · rintro ⟨hi, hlabel, hfirst⟩
    refine ⟨by simpa using hi, ?_, fun k hk => ?_⟩
    · rw [rowLabel_eq_getElem hi]
      simpa using hlabel
    · rw [rowLabel_eq_getElem (by omega)]
      simpa using hfirst k hk
  · rintro ⟨hi, hlabel, hfirst⟩
    have hlength : i < t.basic.length := by simpa using hi
    refine ⟨hlength, ?_, fun k hk => ?_⟩
    · rw [← rowLabel_eq_getElem hlength]
      simpa using hlabel
    · rw [← rowLabel_eq_getElem (by omega)]
      simpa using hfirst k hk

theorem rowOf?_eq_none : t.rowOf? label = none ↔ ∀ i < t.height, t.rowLabel i ≠ label := by
  rw [rowOf?, List.findIdx?_eq_none_iff]
  constructor
  · intro h i hi
    simpa using h _ (rowLabel_mem hi)
  · intro h name hname
    obtain ⟨i, hi, rfl⟩ := exists_rowLabel_eq hname
    simpa using h i hi

variable [Scalar α]

theorem value_of_rowOf? (h : t.rowOf? label = some i) : t.value label = t.rhs i := by
  rw [value_eq, h]

/-! ### Values after a new row -/

-- A new row is found by its label unless a row above it has the label too.
theorem rowOf?_addRow_self (row : List α) (h : ∀ k < t.objectiveRow, t.rowLabel k ≠ name) :
    (t.addRow name row).rowOf? name = some t.objectiveRow := by
  have hlast := t.objectiveRow_add_one
  refine rowOf?_eq_some.2 ⟨by rw [height_addRow]; omega, ?_, fun k hk => ?_⟩
  · rw [rowLabel_addRow row (by omega), if_neg (Nat.lt_irrefl _), if_pos rfl]
  · rw [rowLabel_addRow row (by omega), if_pos hk]
    exact h k hk

theorem rowOf?_addRow_of_lt (row : List α) (h : t.rowOf? label = some i) (hi : i < t.objectiveRow) :
    (t.addRow name row).rowOf? label = some i := by
  have hlast := t.objectiveRow_add_one
  obtain ⟨-, hlabel, hfirst⟩ := rowOf?_eq_some.1 h
  refine rowOf?_eq_some.2 ⟨by rw [height_addRow]; omega, ?_, fun k hk => ?_⟩
  · rw [rowLabel_addRow row (by omega), if_pos hi]
    exact hlabel
  · rw [rowLabel_addRow row (by omega), if_pos (by omega)]
    exact hfirst k hk

theorem rowOf?_addRow_objectiveRow (row : List α) (h : t.rowOf? label = some t.objectiveRow)
    (hname : label ≠ name) : (t.addRow name row).rowOf? label = some (t.objectiveRow + 1) := by
  have hlast := t.objectiveRow_add_one
  obtain ⟨-, hlabel, hfirst⟩ := rowOf?_eq_some.1 h
  refine rowOf?_eq_some.2 ⟨by rw [height_addRow]; omega, ?_, fun k hk => ?_⟩
  · rw [rowLabel_addRow row (by omega), if_neg (by omega), if_neg (by omega), Nat.add_sub_cancel]
    exact hlabel
  · rw [rowLabel_addRow row (by omega)]
    split
    · exact hfirst k (by omega)
    · rw [if_pos (by omega)]
      exact hname.symm

theorem rowOf?_addRow_eq_none (row : List α) (h : t.rowOf? label = none) (hname : label ≠ name) :
    (t.addRow name row).rowOf? label = none := by
  have hlast := t.objectiveRow_add_one
  have hother := rowOf?_eq_none.1 h
  refine rowOf?_eq_none.2 fun k hk => ?_
  rw [height_addRow] at hk
  rw [rowLabel_addRow row (by omega)]
  split
  · exact hother k (by omega)
  · split
    · exact hname.symm
    · exact hother (k - 1) (by omega)

theorem value_addRow (t : Tableau α) (name : String) (row : List α) (label : String) :
    (t.addRow name row).value label =
      if label = name ∧ ∀ k < t.objectiveRow, t.rowLabel k ≠ name then row.getD 0 0 else t.value label := by
  have hlast := t.objectiveRow_add_one
  have hentry (i : Nat) (hi : i ≤ t.height) :=
    entry_addRow t name row (Nat.lt_succ_of_le hi) t.zero_lt_width
  split
  · rename_i h
    obtain ⟨rfl, habove⟩ := h
    rw [value_of_rowOf? (rowOf?_addRow_self row habove), rhs, hentry _ (by omega),
      if_neg (Nat.lt_irrefl _), if_pos rfl]
  rename_i hnot
  cases hrow : t.rowOf? label with
  | none =>
    have hother := rowOf?_eq_none.1 hrow
    have hname : label ≠ name := fun h => hnot ⟨h, fun k hk => h ▸ hother k (by omega)⟩
    rw [value_eq, value_eq, hrow, rowOf?_addRow_eq_none row hrow hname]
  | some i =>
    obtain ⟨hi, -, hfirst⟩ := rowOf?_eq_some.1 hrow
    rw [value_of_rowOf? hrow]
    by_cases habove : i < t.objectiveRow
    · rw [value_of_rowOf? (rowOf?_addRow_of_lt row hrow habove), rhs, hentry i (by omega), if_pos habove,
        rhs]
    · -- The row is the objective, which has moved down by one.
      obtain rfl : i = t.objectiveRow := by omega
      have hname : label ≠ name := fun h => hnot ⟨h, fun k hk => h ▸ hfirst k hk⟩
      rw [value_of_rowOf? (rowOf?_addRow_objectiveRow row hrow hname), rhs, hentry _ (by omega),
        if_neg (by omega), if_neg (by omega), Nat.add_sub_cancel, rhs]

theorem value_addRow_of_ne (row : List α) (h : label ≠ name) :
    (t.addRow name row).value label = t.value label := by
  rw [value_addRow, if_neg fun hnew => h hnew.1]

/-! ### Pivots and cuts in any order -/

variable {cuts r s : Nat} {ε : α} {source : String}

/-- The second tableau comes out of the first by pivots and this many cuts, in any order and anywhere. -/
inductive Edits (t : Tableau α) : Nat → Tableau α → Prop
  | none : Edits t 0 t
  | pivot {cuts r s : Nat} {u v : Tableau α} (before : Edits t cuts u) (made : u.pivot? r s = .ok v) :
      Edits t cuts v
  | cut {cuts : Nat} {u : Tableau α} {source name : String} {ε : α} (before : Edits t cuts u)
      (added : (u.addCut source ε).result = .ok name) : Edits t (cuts + 1) (u.addCut source ε).tableau

/-- The names that this many cuts take. -/
def cutNames (t : Tableau α) (cuts : Nat) : List String :=
  (List.range cuts).map fun k => cutName (t.height + t.width + k)

omit [Scalar α] in
theorem nodup_cutNames (t : Tableau α) (cuts : Nat) : (t.cutNames cuts).Nodup := by
  refine List.nodup_range.map fun k l h => ?_
  have := cutName_injective h
  omega

theorem Edits.size_eq (h : Edits t cuts u) : u.height = t.height + cuts ∧ u.width = t.width := by
  induction h with
  | none => exact ⟨rfl, rfl⟩
  | pivot _ made ih =>
    obtain ⟨-, -, -, rfl⟩ := pivot?_eq_ok.1 made
    exact ih
  | cut _ added ih =>
    obtain ⟨i, -, htableau⟩ := addCut_of_ok added
    rw [htableau, height_addRow, width_addRow, ih.1, ih.2]
    exact ⟨rfl, rfl⟩

theorem Edits.cutLabel_eq (h : Edits t cuts u) : u.cutLabel = cutName (t.height + t.width + cuts) := by
  obtain ⟨hheight, hwidth⟩ := h.size_eq
  have hsize : u.height + u.width = t.height + t.width + cuts := by omega
  rw [← hsize]
  rfl

theorem Edits.labels_perm (h : Edits t cuts u) : u.labels.Perm (t.labels ++ t.cutNames cuts) := by
  induction h with
  | none => simp [cutNames]
  | pivot _ made ih =>
    obtain ⟨hr, hs, -, rfl⟩ := pivot?_eq_ok.1 made
    exact (labels_pivot_perm hr hs).trans ih
  | @cut cuts u _ _ _ before added ih =>
    obtain ⟨i, -, htableau⟩ := addCut_of_ok added
    have hnames : t.cutNames (cuts + 1) = t.cutNames cuts ++ [u.cutLabel] := by
      rw [before.cutLabel_eq, cutNames, List.range_succ, List.map_append]
      rfl
    rw [htableau, hnames, ← List.append_assoc]
    refine (labels_addRow_perm _).trans ?_
    exact (ih.cons u.cutLabel).trans (List.perm_append_singleton _ _).symm

theorem Edits.nodup_iff (hd : t.labels.Nodup) (h : Edits t cuts u) :
    u.labels.Nodup ↔ ∀ k < cuts, cutName (t.height + t.width + k) ∉ t.labels := by
  rw [h.labels_perm.nodup_iff, List.nodup_append', and_iff_right hd, and_iff_right (t.nodup_cutNames cuts),
    List.disjoint_right]
  simp [cutNames]

-- No cut before takes the name of the next one, so if it is there it was given.
theorem Edits.cutLabel_mem_iff (h : Edits t cuts u) : u.cutLabel ∈ u.labels ↔ u.cutLabel ∈ t.labels := by
  rw [h.labels_perm.mem_iff, List.mem_append, or_iff_left]
  intro hmem
  obtain ⟨k, hk, hname⟩ := List.mem_map.1 hmem
  rw [h.cutLabel_eq] at hname
  have := cutName_injective hname
  have := List.mem_range.1 hk
  omega

/-- Let a tableau that was accepted be changed by pivots and cuts, and then by one more cut. The labels are
distinct after it exactly if none of the cuts took the name of a label that was given. Where the last one did
not, every variable that was there before it keeps its value. Where it did, the variable of that name gets
the value of the cut, unless it stands at a row above the objective. -/
theorem addCut_distinct_iff {t₀ : Tableau α} {matrix : Grid α} {basic nonbasic : List String}
    (hcreate : create matrix basic nonbasic = .ok t₀) (hedits : Edits t₀ cuts t)
    (hadded : (t.addCut source ε).result = .ok name) :
    let u := (t.addCut source ε).tableau
    name = cutName (t₀.height + t₀.width + cuts) ∧
    (u.labels.Nodup ↔ ∀ k ≤ cuts, cutName (t₀.height + t₀.width + k) ∉ t₀.labels) ∧
    (name ∈ t.labels ↔ name ∈ t₀.labels) ∧
    (name ∉ t₀.labels → ∀ names ⊆ t.labels, u.values names = t.values names) ∧
    ∃ i, t.rowOf? source = some i ∧ ∀ label, u.value label =
      if label = name ∧ ∀ k < t.objectiveRow, t.rowLabel k ≠ name then -Scalar.fract (t.rhs i)
      else t.value label := by
  obtain ⟨-, -, -, -, hdistinct, -⟩ := create_eq_ok hcreate
  have hnodup := (hedits.cut hadded).nodup_iff hdistinct
  have hmem := hedits.cutLabel_mem_iff
  obtain ⟨rfl, i, hrow, hcut⟩ := addCut_eq_of_ok hadded
  rw [hcut] at hnodup ⊢
  refine ⟨hedits.cutLabel_eq, ?_, hmem, fun hfresh names hnames => ?_, i, hrow, fun label => ?_⟩
  · simpa only [Nat.lt_succ_iff] using hnodup
  · have hvalue : ∀ label ∈ names, (t.addRow t.cutLabel (t.cutRow i)).value label = t.value label :=
      fun label hlabel => value_addRow_of_ne _ fun h => hfresh (hmem.1 (h ▸ hnames hlabel))
    rw [values, values, List.map_congr_left fun label hlabel => by rw [hvalue label hlabel]]
  · rw [value_addRow, getD_cutRow i t.zero_lt_width, rhs]

-- The first cut takes a new name, and the second one that of the only product.
theorem addCut_distinct_iff_second : ∃ t₀ t : Tableau Float,
    create ⟨2, 2, #v[2.5, 0, 0.5, 1]⟩ ["x1", "F"] ["RHS", "cut5"] = .ok t₀ ∧
      (t₀.addCut "x1" 1e-6).result = .ok "cut4" ∧ t = (t₀.addCut "x1" 1e-6).tableau ∧ t.labels.Nodup ∧
      t.values ["x1", "cut5"] = t₀.values ["x1", "cut5"] ∧
      (t.addCut "x1" 1e-6).result = .ok "cut5" ∧ ¬ (t.addCut "x1" 1e-6).tableau.labels.Nodup ∧
      t.value "cut5" = 0 ∧ (t.addCut "x1" 1e-6).tableau.value "cut5" = -0.5 := by
  obtain ⟨t₀, hcreate, hfirst, hlabels, hsize, hsecond, habove, hzero, hrow, hpart⟩ : ∃ t₀ : Tableau Float,
      create ⟨2, 2, #v[2.5, 0, 0.5, 1]⟩ ["x1", "F"] ["RHS", "cut5"] = .ok t₀ ∧
        (t₀.addCut "x1" 1e-6).result = .ok "cut4" ∧ t₀.labels = ["x1", "F", "RHS", "cut5"] ∧
        t₀.height + t₀.width = 4 ∧
        let t := (t₀.addCut "x1" 1e-6).tableau
        (t.addCut "x1" 1e-6).result = .ok "cut5" ∧ (∀ k < t.objectiveRow, t.rowLabel k ≠ "cut5") ∧
          t.value "cut5" = 0 ∧ t.rowOf? "x1" = some 0 ∧ -Scalar.fract (t.rhs 0) = -0.5 :=
    ⟨_, rfl, by decide +kernel⟩
  obtain ⟨-, hdistinct, -, hvalues, -⟩ := addCut_distinct_iff hcreate .none hfirst
  obtain ⟨-, hdistinct', -, -, i, hi, hvalue⟩ := addCut_distinct_iff hcreate (Edits.none.cut hfirst) hsecond
  rw [hsize, hlabels] at hdistinct hdistinct'
  obtain rfl := Option.some.inj (hrow.symm.trans hi)
  refine ⟨t₀, _, hcreate, hfirst, rfl, hdistinct.2 (by decide +kernel), hvalues ?_ _ ?_, hsecond, ?_, hzero, ?_⟩
  · rw [hlabels]
    decide
  · simp [hlabels]
  · exact fun hnodup => hdistinct'.1 hnodup 1 (Nat.le_refl 1) (by decide +kernel)
  · rw [hvalue, if_pos ⟨rfl, habove⟩, hpart]

-- The product has the name of the first cut. Both labels stay, and the product gets the value of the cut.
theorem addCut_clash : ∃ t : Tableau Float,
    create ⟨2, 2, #v[2.5, 0, 0.5, 1]⟩ ["x1", "F"] ["RHS", "cut4"] = .ok t ∧
      (t.addCut "x1" 1e-6).result = .ok "cut4" ∧ ¬ (t.addCut "x1" 1e-6).tableau.labels.Nodup ∧
      "cut4" ∈ t.labels ∧ t.value "cut4" = 0 ∧ (t.addCut "x1" 1e-6).tableau.value "cut4" = -0.5 :=
  ⟨_, rfl, by decide +kernel⟩

end CuttingPlane.Tableau

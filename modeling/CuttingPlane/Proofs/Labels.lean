import CuttingPlane.Cut
import CuttingPlane.Problem
import Mathlib.Data.List.Nodup

/-!
# Labels

How the labels of a tableau move: a pivot exchanges two of them, a cut brings in one. In a tableau whose
labels are pairwise distinct and that no later cut can clash with, both stay so, and every label names
the row or the column that it stands at.
-/

namespace CuttingPlane

/-! ### Names with a number -/

/-- The name of the cut that is added to a tableau with `n` rows and columns. -/
def cutName (n : Nat) : String := s!"cut{n}"

theorem toString_nat_injective {m n : Nat} (h : toString m = toString n) : m = n := by
  have hdigits : Nat.toDigits 10 m = Nat.toDigits 10 n := String.ofList_injective h
  have hvalue := congrArg (fun digits => Nat.ofDigitChars 10 digits 0) hdigits
  simpa only [Nat.ofDigitChars_ten_toDigits] using hvalue

theorem cutName_injective {m n : Nat} (h : cutName m = cutName n) : m = n :=
  toString_nat_injective ((String.append_right_inj "cut").1 h)

theorem variableName_injective {m n : Nat} (h : Problem.variableName m = Problem.variableName n) :
    m = n :=
  toString_nat_injective ((String.append_right_inj "x").1 h)

theorem toList_cutName (n : Nat) : (cutName n).toList = 'c' :: 'u' :: 't' :: Nat.toDigits 10 n := by
  show ("cut" ++ Nat.repr n).toList = _
  rw [String.toList_append, Nat.toList_repr]
  rfl

theorem toList_variableName (n : Nat) :
    (Problem.variableName n).toList = 'x' :: Nat.toDigits 10 n := by
  show ("x" ++ Nat.repr n).toList = _
  rw [String.toList_append, Nat.toList_repr]
  rfl

theorem ne_variableName_of_head {label : String} (h : label.toList.head? ≠ some 'x') (n : Nat) :
    label ≠ Problem.variableName n := by
  rintro rfl
  exact h (by rw [toList_variableName, List.head?_cons])

theorem cutName_ne_variableName (m n : Nat) : cutName m ≠ Problem.variableName n :=
  ne_variableName_of_head (by simp [toList_cutName]) n

theorem objectiveLabel_ne_variableName (n : Nat) : objectiveLabel ≠ Problem.variableName n :=
  ne_variableName_of_head (by decide) n

theorem rhsLabel_ne_variableName (n : Nat) : rhsLabel ≠ Problem.variableName n :=
  ne_variableName_of_head (by decide) n

theorem cutName_ne_objectiveLabel (n : Nat) : cutName n ≠ objectiveLabel := by
  intro h
  have hchars := congrArg String.toList h
  simp [toList_cutName, objectiveLabel] at hchars

theorem cutName_ne_rhsLabel (n : Nat) : cutName n ≠ rhsLabel := by
  intro h
  have hchars := congrArg String.toList h
  simp [toList_cutName, rhsLabel] at hchars

namespace Problem

variable {α : Type} (p : Problem α)

/-- The names in use once there are `cuts` cuts: of the right-hand sides, the objective, the products and
the slack variables, and the cuts, which are numbered from the size of the tableau that each is added to. -/
def namesAfter (cuts : Nat) : List String :=
  rhsLabel :: objectiveLabel ::
    ((List.range (p.products + p.resources)).map (fun j => variableName (j + 1)) ++
      (List.range cuts).map fun c => cutName (p.products + p.resources + 2 + c))

theorem namesAfter_succ (cuts : Nat) : p.namesAfter (cuts + 1) =
    p.namesAfter cuts ++ [cutName (p.products + p.resources + 2 + cuts)] := by
  simp [namesAfter, List.range_succ]

theorem nodup_namesAfter (cuts : Nat) : (p.namesAfter cuts).Nodup := by
  -- One cut after the other: its number is above those of the cuts before it.
  induction cuts with
  | zero =>
    have hvariables : ((List.range (p.products + p.resources)).map fun j => variableName (j + 1)).Nodup :=
      List.nodup_range.map fun i j hij => Nat.succ.inj (variableName_injective hij)
    have hlabels : rhsLabel ≠ objectiveLabel := by decide
    simp [namesAfter, hvariables, hlabels, eq_comm, objectiveLabel_ne_variableName,
      rhsLabel_ne_variableName]
  | succ cuts ih =>
    rw [namesAfter_succ]
    refine ih.append (List.nodup_singleton _) (List.disjoint_singleton.2 fun hmem => ?_)
    rcases List.mem_cons.1 hmem with hrhs | hmem
    · exact cutName_ne_rhsLabel _ hrhs
    rcases List.mem_cons.1 hmem with hobjective | hmem
    · exact cutName_ne_objectiveLabel _ hobjective
    rcases List.mem_append.1 hmem with hvariable | hcut
    · obtain ⟨j, -, hj⟩ := List.mem_map.1 hvariable
      exact cutName_ne_variableName _ _ hj.symm
    · obtain ⟨c, hc, hname⟩ := List.mem_map.1 hcut
      have hnumber := cutName_injective hname
      have := List.mem_range.1 hc
      omega

/-- The labels of a starting tableau, row by row and then column by column, are the names in use before
the first cut. -/
theorem startingNames_perm : ((List.range p.resources).map (fun i => variableName (p.products + i + 1)) ++
    [objectiveLabel] ++ rhsLabel :: (List.range p.products).map fun j => variableName (j + 1)).Perm
      (p.namesAfter 0) := by
  have hnames : (List.range (p.products + p.resources)).map (fun j => variableName (j + 1)) =
      (List.range p.products).map (fun j => variableName (j + 1)) ++
        (List.range p.resources).map fun i => variableName (p.products + i + 1) := by
    rw [List.range_add, List.map_append, List.map_map]
    rfl
  rw [namesAfter, hnames]
  simp only [List.range_zero, List.map_nil, List.append_nil]
  refine List.perm_append_comm.trans ?_
  rw [List.cons_append, ← List.append_assoc]
  exact .cons _ (List.perm_append_singleton _ _)

end Problem

namespace Tableau

variable {α : Type} {t : Tableau α} {i j r s : Nat} {label : String}

/-! ### Labels by position -/

/-- All labels, those of the rows first. -/
def labels (t : Tableau α) : List String := t.basic ++ t.nonbasic

theorem zero_lt_height (t : Tableau α) : 0 < t.height := t.height_pos

theorem zero_lt_width (t : Tableau α) : 0 < t.width := t.width_pos

theorem objectiveRow_add_one (t : Tableau α) : t.objectiveRow + 1 = t.height := by
  have hpos := t.zero_lt_height
  unfold objectiveRow
  omega

@[simp] theorem length_basic (t : Tableau α) : t.basic.length = t.height := t.height_eq.symm

@[simp] theorem length_nonbasic (t : Tableau α) : t.nonbasic.length = t.width := t.width_eq.symm

theorem rowLabel_eq_getElem (hi : i < t.basic.length) : t.rowLabel i = t.basic[i] :=
  (List.getElem_eq_getD "").symm

theorem columnLabel_eq_getElem (hj : j < t.nonbasic.length) : t.columnLabel j = t.nonbasic[j] :=
  (List.getElem_eq_getD "").symm

theorem rowLabel_mem (hi : i < t.height) : t.rowLabel i ∈ t.basic := by
  rw [rowLabel_eq_getElem (by simpa using hi)]
  exact List.getElem_mem _

theorem columnLabel_mem (hj : j < t.width) : t.columnLabel j ∈ t.nonbasic := by
  rw [columnLabel_eq_getElem (by simpa using hj)]
  exact List.getElem_mem _

theorem rowLabel_mem_labels (hi : i < t.height) : t.rowLabel i ∈ t.labels :=
  List.mem_append_left _ (rowLabel_mem hi)

theorem columnLabel_mem_labels (hj : j < t.width) : t.columnLabel j ∈ t.labels :=
  List.mem_append_right _ (columnLabel_mem hj)

theorem exists_rowLabel_eq (h : label ∈ t.basic) : ∃ i < t.height, label = t.rowLabel i := by
  obtain ⟨i, hi, rfl⟩ := List.mem_iff_getElem.1 h
  exact ⟨i, by simpa using hi, (rowLabel_eq_getElem hi).symm⟩

theorem exists_columnLabel_eq (h : label ∈ t.nonbasic) : ∃ j < t.width, label = t.columnLabel j := by
  obtain ⟨j, hj, rfl⟩ := List.mem_iff_getElem.1 h
  exact ⟨j, by simpa using hj, (columnLabel_eq_getElem hj).symm⟩

theorem findIdx?_getElem {names : List String} (hd : names.Nodup) (hi : i < names.length) :
    names.findIdx? (· == names[i]) = some i := by
  rw [List.findIdx?_eq_some_iff_getElem]
  refine ⟨hi, by simp, fun j hj => ?_⟩
  have hne : names[j] ≠ names[i] := List.pairwise_iff_getElem.1 hd j i (by omega) hi hj
  simpa using hne

theorem rowOf?_rowLabel (hd : t.labels.Nodup) (hi : i < t.height) :
    t.rowOf? (t.rowLabel i) = some i := by
  have hlt : i < t.basic.length := by simpa using hi
  rw [rowLabel_eq_getElem hlt]
  exact findIdx?_getElem (List.nodup_append.1 hd).1 hlt

theorem rowOf?_columnLabel (hd : t.labels.Nodup) (hj : j < t.width) :
    t.rowOf? (t.columnLabel j) = none := by
  rw [rowOf?, List.findIdx?_eq_none_iff]
  intro name hname
  have hne : name ≠ t.columnLabel j := (List.nodup_append.1 hd).2.2 name hname _ (columnLabel_mem hj)
  simpa using hne

/-! ### Exchanges -/

section Exchange

variable [Scalar α]

theorem objectiveRow_pivot : (t.pivot r s).objectiveRow = t.objectiveRow := rfl

theorem rowLabel_pivot (hr : r < t.height) (i : Nat) :
    (t.pivot r s).rowLabel i = if i = r then t.columnLabel s else t.rowLabel i := by
  by_cases h : i = r
  · rw [if_pos h, h, rowLabel_eq, pivot, ← List.getElem_eq_getD (h := by simpa using hr) ""]
    exact List.getElem_set_self _
  · have hne : r ≠ i := fun h' => h h'.symm
    simp [rowLabel_eq, pivot, h, List.getElem?_set_ne hne]

theorem columnLabel_pivot (hs : s < t.width) (j : Nat) :
    (t.pivot r s).columnLabel j = if j = s then t.rowLabel r else t.columnLabel j := by
  by_cases h : j = s
  · rw [if_pos h, h, columnLabel_eq, pivot, ← List.getElem_eq_getD (h := by simpa using hs) ""]
    exact List.getElem_set_self _
  · have hne : s ≠ j := fun h' => h h'.symm
    simp [columnLabel_eq, pivot, h, List.getElem?_set_ne hne]

theorem labels_pivot_perm (hr : r < t.height) (hs : s < t.width) :
    (t.pivot r s).labels.Perm t.labels := by
  have hbasic : r < t.basic.length := by simpa using hr
  have hnonbasic : s < t.nonbasic.length := by simpa using hs
  have hleft : r < t.labels.length := by
    simp only [labels, List.length_append]
    omega
  have hright : t.basic.length + s < t.labels.length := by
    simp only [labels, List.length_append]
    omega
  -- In the list of all labels a pivot swaps two positions.
  have hswap := List.set_set_perm hleft hright
  have hrow : t.labels[r] = t.rowLabel r := by
    rw [rowLabel_eq_getElem hbasic]
    exact List.getElem_append_left hbasic
  have hcolumn : t.labels[t.basic.length + s] = t.columnLabel s := by
    rw [columnLabel_eq_getElem hnonbasic]
    simp [labels]
  rw [hrow, hcolumn] at hswap
  simpa [labels, pivot, List.set_append, hr] using hswap

theorem mem_labels_pivot (hr : r < t.height) (hs : s < t.width) :
    label ∈ (t.pivot r s).labels ↔ label ∈ t.labels :=
  (labels_pivot_perm hr hs).mem_iff

/-! ### New rows -/

theorem objectiveRow_addRow (row : List α) :
    (t.addRow label row).objectiveRow = t.objectiveRow + 1 := by
  rw [objectiveRow_add_one, objectiveRow, height_addRow, Nat.add_sub_cancel]

theorem rowLabel_addRow (row : List α) (hi : i ≤ t.height) :
    (t.addRow label row).rowLabel i =
      if i < t.objectiveRow then t.rowLabel i
      else if i = t.objectiveRow then label
      else t.rowLabel (i - 1) := by
  have hlt := t.objectiveRow_lt
  have hlength : i < (t.basic.insertIdx t.objectiveRow label).length := by
    rw [List.length_insertIdx, length_basic]
    split <;> omega
  simp only [rowLabel_eq, addRow, List.getD_eq_getElem?_getD, List.getElem?_eq_getElem hlength,
    List.getElem_insertIdx, Option.getD_some]
  split
  · rw [List.getElem?_eq_getElem (by rw [length_basic]; omega), Option.getD_some]
  · split
    · rfl
    · rw [List.getElem?_eq_getElem (by rw [length_basic]; omega), Option.getD_some]

theorem columnLabel_addRow (row : List α) (j : Nat) :
    (t.addRow label row).columnLabel j = t.columnLabel j := rfl

theorem labels_addRow_perm (row : List α) : (t.addRow label row).labels.Perm (label :: t.labels) := by
  have hlt := t.objectiveRow_lt
  have hinsert := List.perm_insertIdx label t.basic (i := t.objectiveRow) (by rw [length_basic]; omega)
  exact hinsert.append_right t.nonbasic

end Exchange

/-! ### Distinct labels -/

/-- The labels are pairwise distinct, and no cut that is still to come has the name of one of them. -/
structure WellLabelled (t : Tableau α) : Prop where
  distinct : t.labels.Nodup
  unclaimed : ∀ n, t.height + t.width ≤ n → cutName n ∉ t.labels

theorem WellLabelled.cutLabel_notMem (h : t.WellLabelled) : t.cutLabel ∉ t.labels :=
  h.unclaimed (t.height + t.width) (Nat.le_refl _)

section WellLabelled

variable [Scalar α]

theorem WellLabelled.pivot (h : t.WellLabelled) (hr : r < t.height) (hs : s < t.width) :
    (t.pivot r s).WellLabelled where
  distinct := (labels_pivot_perm hr hs).nodup_iff.2 h.distinct
  unclaimed n hn := by
    rw [mem_labels_pivot hr hs]
    exact h.unclaimed n hn

theorem WellLabelled.addCut (h : t.WellLabelled) (row : List α) :
    (t.addRow t.cutLabel row).WellLabelled where
  distinct := (labels_addRow_perm row).nodup_iff.2 (List.nodup_cons.2 ⟨h.cutLabel_notMem, h.distinct⟩)
  unclaimed n hn := by
    rw [height_addRow, width_addRow] at hn
    rw [(labels_addRow_perm row).mem_iff, List.mem_cons]
    rintro (hlabel | hmem)
    · have := cutName_injective (show cutName n = cutName (t.height + t.width) from hlabel)
      omega
    · exact h.unclaimed n (by omega) hmem

end WellLabelled

/-! ### Tableaus that are accepted -/

theorem firstRepeat?_eq_none {seen names : List String} :
    firstRepeat? seen names = none ↔ names.Nodup ∧ ∀ name ∈ names, name ∉ seen := by
  induction names generalizing seen with
  | nil => simp [firstRepeat?]
  | cons name names ih =>
    by_cases h : name ∈ seen
    · simp [firstRepeat?, h]
    · simp only [firstRepeat?, h, if_false, ih, List.nodup_cons, List.mem_cons, not_or]
      grind

/-- What holds of a tableau that was accepted. -/
theorem create_eq_ok {matrix : Grid α} {basic nonbasic : List String}
    (h : create matrix basic nonbasic = .ok t) :
    t.matrix = matrix ∧ t.basic = basic ∧ t.nonbasic = nonbasic ∧ t.decision = nonbasic.drop 1 ∧
      t.labels.Nodup ∧ basic.getLast?.getD "" = objectiveLabel := by
  unfold create at h
  split at h
  · cases h
  split at h
  · cases h
  split at h
  · cases h
  dsimp only at h
  split at h
  · cases h
  rename_i hlast
  split at h
  · cases h
  rename_i hrepeat
  obtain rfl := Except.ok.inj h
  exact ⟨rfl, rfl, rfl, rfl, (firstRepeat?_eq_none.1 hrepeat).1, Decidable.not_not.1 hlast⟩

end Tableau
end CuttingPlane

import CuttingPlane.Plan.Basic
import CuttingPlane.Proofs.Lookups
import CuttingPlane.Proofs.WholePoints

/-!
# Starting tableaus

The equations of a starting tableau say what is left of every resource and what the products earn. Its
feasible assignments are the plans that no resource runs short of, its whole points the whole plans that
leave a whole amount of every resource.
-/

namespace CuttingPlane.Problem

open Finset Tableau

section Poses

variable {α : Type} {p : Problem α} {t : Tableau α} {label : String}

/-- The name of the slack variable of resource `i`. -/
def slackName (p : Problem α) (i : ℕ) : String := variableName (p.products + i + 1)

variable [Scalar α]

/-- The tableau has the rows, the columns and the labels of the problem. -/
structure Poses (p : Problem α) (t : Tableau α) : Prop where
  height : t.height = p.resources + 1
  width : t.width = p.products + 1
  entry : ∀ i ≤ p.resources, ∀ j ≤ p.products, t.entry i j = p.startingEntry i j
  slack : ∀ i < p.resources, t.rowLabel i = p.slackName i
  objective : t.rowLabel t.objectiveRow = objectiveLabel
  product : ∀ j < p.products, t.columnLabel (j + 1) = variableName (j + 1)
  decision : t.decision = (List.range p.products).map fun j => variableName (j + 1)
  labelled : t.WellLabelled

/-- A starting tableau is made of the problem's entries under the names of its variables. -/
theorem create_of_tableau (h : p.tableau = .ok t) :
    create (.tabulate (p.resources + 1) (p.products + 1) p.startingEntry)
      ((List.range p.resources).map (fun i => variableName (p.products + i + 1)) ++ [objectiveLabel])
      (rhsLabel :: (List.range p.products).map fun j => variableName (j + 1)) = .ok t := by
  rw [tableau_eq] at h
  split at h
  · cases h
  split at h
  · cases h
  exact h

theorem poses_of_tableau (h : p.tableau = .ok t) : p.Poses t := by
  obtain ⟨hmatrix, hbasic, hnonbasic, hdecision, hdistinct, -⟩ := create_eq_ok (create_of_tableau h)
  have hheight : t.height = p.resources + 1 := by rw [Tableau.height, hmatrix, Grid.height_tabulate]
  have hwidth : t.width = p.products + 1 := by rw [Tableau.width, hmatrix, Grid.width_tabulate]
  refine ⟨hheight, hwidth, fun i hi j hj => ?_, fun i hi => ?_, ?_, fun j hj => ?_, ?_, hdistinct, ?_⟩
  · rw [Tableau.entry_eq, hmatrix, Grid.get_tabulate _ (by omega) (by omega)]
  · rw [rowLabel_eq, hbasic, slackName, List.getD_eq_getElem?_getD,
      List.getElem?_append_left (by simpa using hi)]
    simp [hi]
  · rw [rowLabel_eq, objectiveRow, hheight, hbasic]
    simp
  · rw [columnLabel_eq, hnonbasic, List.getD_cons_succ]
    simp [hj]
  · rw [hdecision, List.drop_one, List.tail_cons]
  · rintro n - hmem
    rw [Tableau.labels, hbasic, hnonbasic] at hmem
    simp only [List.mem_append, List.mem_map, List.mem_cons, List.not_mem_nil,
      or_false] at hmem
    rcases hmem with (⟨i, -, hi⟩ | hobjective) | hrhs | ⟨j, -, hj⟩
    · exact cutName_ne_variableName _ _ hi.symm
    · exact cutName_ne_objectiveLabel n hobjective
    · exact cutName_ne_rhsLabel n hrhs
    · exact cutName_ne_variableName _ _ hj.symm

theorem Poses.objectiveRow_eq (h : p.Poses t) : t.objectiveRow = p.resources := by
  rw [objectiveRow, h.height, Nat.add_sub_cancel]

theorem Poses.restricted_iff (h : p.Poses t) : t.Restricted label ↔
    (∃ i < p.resources, label = p.slackName i) ∨ ∃ j < p.products, label = variableName (j + 1) := by
  have hd := h.labelled.distinct
  have hlast := h.objectiveRow_eq
  have hwidth := h.width
  constructor
  · intro hlabel
    rcases hlabel.cases with ⟨i, hi, rfl⟩ | ⟨j, h1, hj, rfl⟩
    · exact .inl ⟨i, by omega, h.slack i (by omega)⟩
    · obtain ⟨k, rfl⟩ := Nat.exists_eq_add_of_le' h1
      exact .inr ⟨k, by omega, h.product k (by omega)⟩
  · rintro (⟨i, hi, rfl⟩ | ⟨j, hj, rfl⟩)
    · rw [← h.slack i hi]
      exact restricted_rowLabel hd (by omega)
    · rw [← h.product j hj]
      exact restricted_columnLabel hd (by omega) (by omega)

theorem Poses.mem_decision (h : p.Poses t) {ε : α} {u : Tableau α} (hr : Reaches ε t u) {j : ℕ}
    (hj : j < p.products) : variableName (j + 1) ∈ u.decision := by
  rw [hr.decision_eq h.labelled, h.decision]
  exact List.mem_map.2 ⟨j, List.mem_range.2 hj, rfl⟩

/-- The values of the products that a solution reports are snapped values of the last tableau. -/
theorem Poses.get?_wholeSolution (h : p.Poses t) {ε : α} {u : Tableau α} (hr : Reaches ε t u) (cuts : ℕ)
    {j : ℕ} (hj : j < p.products) : (u.wholeSolution ε cuts).values.get? (variableName (j + 1)) =
      some (snap (u.value (variableName (j + 1))) ε) := by
  rw [wholeSolution, Valuation.get?_map, get?_solution (h.mem_decision hr hj)]
  rfl

end Poses

variable {p : Problem ℚ} {t : Tableau ℚ} {i : ℕ} {v : String → ℚ} {x y : ℕ → ℚ}

/-! ### Amounts of the products -/

/-- The amounts `x`, each weighed with its coefficient. -/
def weigh (p : Problem ℚ) (a : List ℚ) (x : ℕ → ℚ) : ℚ :=
  ∑ j ∈ range p.products, a.getD j 0 * x j

/-- What the amounts `x` use of resource `i`. -/
def usage (p : Problem ℚ) (i : ℕ) (x : ℕ → ℚ) : ℚ := p.weigh (p.consumption.getD i []) x

/-- What the amounts `x` earn. -/
def earnings (p : Problem ℚ) (x : ℕ → ℚ) : ℚ := p.weigh p.profit x

/-- What the amounts `x` leave of resource `i`. -/
def left (p : Problem ℚ) (i : ℕ) (x : ℕ → ℚ) : ℚ := p.supply.getD i 0 - p.usage i x

/-- No resource runs short of the amounts `x`. -/
def Admits (p : Problem ℚ) (x : ℕ → ℚ) : Prop :=
  ∀ i < p.resources, p.usage i x ≤ p.supply.getD i 0

theorem weigh_congr (h : ∀ j < p.products, x j = y j) (a : List ℚ) : p.weigh a x = p.weigh a y :=
  sum_congr rfl fun j hj => by rw [h j (mem_range.1 hj)]

theorem left_congr (h : ∀ j < p.products, x j = y j) (i : ℕ) : p.left i x = p.left i y := by
  rw [left, left, usage, usage, weigh_congr h]

theorem admits_iff_left : p.Admits x ↔ ∀ i < p.resources, 0 ≤ p.left i x := by
  simp only [Admits, left, sub_nonneg]

-- The income of a list of amounts is the sum of their earnings, whatever the sum starts from.
theorem foldl_add_zipWith (profit : List ℚ) (x : ℕ → ℚ) (start : ℚ) :
    (profit.zipWith (· * ·) ((List.range profit.length).map x)).foldl (· + ·) start =
      start + ∑ j ∈ range profit.length, profit.getD j 0 * x j := by
  induction profit generalizing x start with
  | nil => simp
  | cons a profit ih =>
    have hshift : (List.range (a :: profit).length).map x =
        x 0 :: (List.range profit.length).map fun j => x (j + 1) := by
      rw [List.length_cons, List.range_succ_eq_map, List.map_cons, List.map_map]
      rfl
    rw [hshift, List.zipWith_cons_cons, List.foldl_cons, ih, List.length_cons, sum_range_succ']
    simp only [List.getD_cons_succ, List.getD_cons_zero]
    ring

theorem income_eq_earnings (p : Problem ℚ) (x : ℕ → ℚ) :
    p.income ((List.range p.products).map x) = p.earnings x := by
  have h := foldl_add_zipWith p.profit x (-0)
  rw [neg_zero, zero_add] at h
  exact h

/-! ### The equations of the start -/

/-- The amounts of the products in an assignment. -/
def amounts (v : String → ℚ) (j : ℕ) : ℚ := v (variableName (j + 1))

theorem Poses.sum_columns (h : p.Poses t) (a : ℕ → ℚ) (v : String → ℚ) :
    ∑ j ∈ Ico 1 t.width, a j * v (t.columnLabel j) =
      ∑ j ∈ range p.products, a (j + 1) * amounts v j := by
  rw [h.width, sum_Ico_eq_sum_range, Nat.add_sub_cancel]
  refine sum_congr rfl fun j hj => ?_
  rw [Nat.add_comm 1 j, h.product j (mem_range.1 hj), amounts]

theorem Poses.combine_entry (h : p.Poses t) (hi : i < p.resources) (v : String → ℚ) :
    t.combine (t.entry i) v = p.left i (amounts v) := by
  rw [combine, h.sum_columns, h.entry i hi.le 0 (Nat.zero_le _), left, usage, weigh]
  have hne : i ≠ p.resources := by omega
  congr 1
  · rw [startingEntry_eq, if_neg hne]
  · refine sum_congr rfl fun j hj => ?_
    have := mem_range.1 hj
    rw [h.entry i hi.le (j + 1) (by omega), startingEntry_eq, if_neg hne]

theorem Poses.combine_objective (h : p.Poses t) (v : String → ℚ) :
    t.combine (t.entry t.objectiveRow) v = p.earnings (amounts v) := by
  rw [combine, h.sum_columns, h.objectiveRow_eq, h.entry _ le_rfl 0 (Nat.zero_le _), startingEntry_eq,
    if_pos rfl]
  have hterm : ∀ j ∈ range p.products,
      t.entry p.resources (j + 1) * amounts v j = -(p.profit.getD j 0 * amounts v j) := by
    intro j hj
    have := mem_range.1 hj
    rw [h.entry _ le_rfl (j + 1) (by omega), startingEntry_eq, if_pos rfl]
    exact neg_mul _ _
  rw [sum_congr rfl hterm, sum_neg_distrib, earnings, weigh]
  exact (sub_neg_eq_add _ _).trans (zero_add _)

theorem Poses.solves_iff (h : p.Poses t) : t.Solves v ↔
    (∀ i < p.resources, v (p.slackName i) = p.left i (amounts v)) ∧
      v objectiveLabel = p.earnings (amounts v) := by
  have hheight := h.height
  have hlast := h.objectiveRow_eq
  have hobjective : t.Holds v t.objectiveRow ↔ v objectiveLabel = p.earnings (amounts v) := by
    rw [Holds, h.objective, h.combine_objective]
  have hslack : ∀ i < p.resources,
      (t.Holds v i ↔ v (p.slackName i) = p.left i (amounts v)) := by
    intro i hi
    rw [Holds, h.slack i hi, h.combine_entry hi]
  constructor
  · intro hv
    exact ⟨fun i hi => (hslack i hi).1 (hv i (by omega)), hobjective.1 (hv _ t.objectiveRow_lt)⟩
  · rintro ⟨hrows, hlabel⟩ i hi
    by_cases hlt : i < p.resources
    · exact (hslack i hlt).2 (hrows i hlt)
    · obtain rfl : i = t.objectiveRow := by omega
      exact hobjective.2 hlabel

/-- Any amounts of the products belong to a solution of the starting equations. -/
theorem Poses.exists_solves (h : p.Poses t) (x : ℕ → ℚ) :
    ∃ v, t.Solves v ∧ ∀ j < p.products, amounts v j = x j := by
  have hinjective : Function.Injective fun j => variableName (j + 1) :=
    fun i j hij => Nat.succ_injective (variableName_injective hij)
  have hwidth := h.width
  obtain ⟨v, hv, hcolumn⟩ := Tableau.exists_solves h.labelled.distinct
    (Function.extend (fun j => variableName (j + 1)) x 0)
  refine ⟨v, hv, fun j hj => ?_⟩
  have hlabel := hcolumn (j + 1) (by omega)
  rw [h.product j hj, hinjective.extend_apply] at hlabel
  exact hlabel

/-! ### Plans at the start -/

theorem Poses.admits (h : p.Poses t) (hv : t.Feasible v) : p.Admits (amounts v) := by
  refine admits_iff_left.2 fun i hi => ?_
  rw [← (h.solves_iff.1 hv.solves).1 i hi]
  exact hv.nonneg _ (h.restricted_iff.2 (.inl ⟨i, hi, rfl⟩))

/-- A whole plan that leaves a natural amount of every resource is a whole point of the start. -/
theorem Poses.exists_wholePoint (h : p.Poses t) (y : ℕ → ℕ)
    (hleft : ∀ i < p.resources, ∃ n : ℕ, p.left i (fun j => y j) = n) :
    ∃ v, t.WholePoint v ∧ ∀ j < p.products, amounts v j = y j := by
  obtain ⟨v, hv, hamounts⟩ := h.exists_solves fun j => y j
  refine ⟨v, ⟨hv, fun label hlabel => ?_⟩, hamounts⟩
  rcases h.restricted_iff.1 hlabel with ⟨i, hi, rfl⟩ | ⟨j, hj, rfl⟩
  · rw [(h.solves_iff.1 hv).1 i hi, left_congr hamounts]
    exact hleft i hi
  · exact ⟨y j, hamounts j hj⟩

end CuttingPlane.Problem

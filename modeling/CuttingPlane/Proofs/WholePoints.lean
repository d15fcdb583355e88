import CuttingPlane.Proofs.Separation
import CuttingPlane.Proofs.Verdicts

/-!
# Whole points

At a whole point every variable that may not be negative is a natural number. The slack of a cut is then
one too, so every step of a solve keeps the whole points, while the equations and the bounds of the
tableau before it still follow from those after it.
-/

namespace CuttingPlane.Tableau

open Finset

/-! ### What the steps of a solve keep -/

section Keep

variable {α : Type} [Scalar α] {ε : α} {t u : Tableau α} {label : String}

theorem WellLabelled.step (hl : t.WellLabelled) (h : Step ε t u) : u.WellLabelled := by
  rcases h.exchange_or_addRow hl.distinct with hexchange | ⟨i, -, rfl⟩
  · exact hexchange.wellLabelled hl
  · exact hl.addCut _

theorem Step.decision_eq (hl : t.WellLabelled) (h : Step ε t u) : u.decision = t.decision := by
  rcases h.exchange_or_addRow hl.distinct with hexchange | ⟨i, -, rfl⟩
  · exact hexchange.decision_eq
  · rfl

theorem Step.rowLabel_objectiveRow (hl : t.WellLabelled) (h : Step ε t u) :
    u.rowLabel u.objectiveRow = t.rowLabel t.objectiveRow := by
  rcases h.exchange_or_addRow hl.distinct with hexchange | ⟨i, -, rfl⟩
  · exact hexchange.rowLabel_objectiveRow
  · exact rowLabel_objectiveRow_addRow _

theorem Step.restricted (hl : t.WellLabelled) (h : Step ε t u) (hlabel : t.Restricted label) :
    u.Restricted label := by
  rcases h.exchange_or_addRow hl.distinct with hexchange | ⟨i, -, rfl⟩
  · exact hexchange.restricted_iff.2 hlabel
  · exact (restricted_addRow _ hl.cutLabel_notMem).2 (.inr hlabel)

theorem Step.mem_labels (hl : t.WellLabelled) (h : Step ε t u) (hlabel : label ∈ t.labels) :
    label ∈ u.labels := by
  rcases h.exchange_or_addRow hl.distinct with hexchange | ⟨i, -, rfl⟩
  · exact hexchange.labels_perm.mem_iff.2 hlabel
  · exact (labels_addRow_perm _).mem_iff.2 (List.mem_cons_of_mem _ hlabel)

-- Induction along a solve that starts from distinct labels: they stay so, which every step needs.
theorem Reaches.invariant {P : Tableau α → Prop} (h : Reaches ε t u) (hl : t.WellLabelled) (ht : P t)
    (hstep : ∀ u w, u.WellLabelled → Step ε u w → P u → P w) : u.WellLabelled ∧ P u := by
  induction h with
  | refl => exact ⟨hl, ht⟩
  | tail _ step ih =>
    obtain ⟨hu, hp⟩ := ih
    exact ⟨hu.step step, hstep _ _ hu step hp⟩

theorem Reaches.wellLabelled (h : Reaches ε t u) (hl : t.WellLabelled) : u.WellLabelled :=
  (h.invariant (P := fun _ => True) hl trivial fun _ _ _ _ _ => trivial).1

theorem Reaches.decision_eq (h : Reaches ε t u) (hl : t.WellLabelled) : u.decision = t.decision :=
  (h.invariant (P := fun u => u.decision = t.decision) hl rfl
    fun _ _ hu step ih => (step.decision_eq hu).trans ih).2

theorem Reaches.rowLabel_objectiveRow (h : Reaches ε t u) (hl : t.WellLabelled) :
    u.rowLabel u.objectiveRow = t.rowLabel t.objectiveRow :=
  (h.invariant (P := fun u => u.rowLabel u.objectiveRow = t.rowLabel t.objectiveRow) hl rfl
    fun _ _ hu step ih => (step.rowLabel_objectiveRow hu).trans ih).2

theorem Reaches.restricted (h : Reaches ε t u) (hl : t.WellLabelled) (hlabel : t.Restricted label) :
    u.Restricted label :=
  (h.invariant (P := fun u => u.Restricted label) hl hlabel
    fun _ _ hu step ih => step.restricted hu ih).2

end Keep

variable {ε : ℚ} {t u : Tableau ℚ} {i : ℕ} {v w : String → ℚ}

/-! ### Backwards along a solve -/

theorem Step.solves (hl : t.WellLabelled) (h : Step ε t u) (hv : u.Solves v) : t.Solves v := by
  rcases h.exchange_or_addRow hl.distinct with hexchange | ⟨i, -, rfl⟩
  · exact hexchange.solves_iff.1 hv
  · exact (solves_addRow_iff.1 hv).1

theorem Reaches.solves (h : Reaches ε t u) (hl : t.WellLabelled) (hv : u.Solves v) : t.Solves v :=
  (h.invariant (P := fun u => u.Solves v → t.Solves v) hl id
    fun _ _ hu step ih hw => ih (step.solves hu hw)).2 hv

/-- What is feasible where a solve ends is feasible where it began. -/
theorem Reaches.feasible (h : Reaches ε t u) (hl : t.WellLabelled) (hv : u.Feasible v) :
    t.Feasible v :=
  ⟨h.solves hl hv.solves, fun label hlabel => hv.nonneg label (h.restricted hl hlabel)⟩

/-! ### The slack of a cut -/

/-- A solution of the equations with a natural number wherever a variable may not be negative. -/
structure WholePoint (t : Tableau ℚ) (v : String → ℚ) : Prop where
  solves : t.Solves v
  natural : ∀ label, t.Restricted label → ∃ n : ℕ, v label = n

theorem WholePoint.feasible (h : t.WholePoint v) : t.Feasible v := by
  refine ⟨h.solves, fun label hlabel => ?_⟩
  obtain ⟨n, hn⟩ := h.natural label hlabel
  rw [hn]
  exact Nat.cast_nonneg n

/-- The slack that the cut of row `i` has at an assignment. -/
def cutSlack (t : Tableau ℚ) (i : ℕ) (v : String → ℚ) : ℚ :=
  t.combine (fun j => (t.cutRow i).getD j 0) v

theorem cutSlack_eq (t : Tableau ℚ) (i : ℕ) (v : String → ℚ) :
    t.cutSlack i v = t.cutValue i fun j => v (t.columnLabel j) := t.sub_sum_cutRow i _

theorem WholePoint.exists_columns (hd : t.labels.Nodup) (h : t.WholePoint v) :
    ∃ z : ℕ → ℕ, ∀ j ∈ Ico 1 t.width, v (t.columnLabel j) = z j := by
  have hcolumn : ∀ j, ∃ n : ℕ, j ∈ Ico 1 t.width → v (t.columnLabel j) = n := by
    intro j
    by_cases hj : j ∈ Ico 1 t.width
    · obtain ⟨h1, hlt⟩ := mem_Ico.1 hj
      obtain ⟨n, hn⟩ := h.natural _ (restricted_columnLabel hd h1 hlt)
      exact ⟨n, fun _ => hn⟩
    · exact ⟨0, fun h => absurd h hj⟩
  choose z hz using hcolumn
  exact ⟨z, hz⟩

/-- At a whole point a cut excludes nothing: its slack is a natural number. -/
theorem WholePoint.cutSlack (hd : t.labels.Nodup) (h : t.WholePoint v) (hi : i < t.objectiveRow) :
    ∃ n : ℕ, t.cutSlack i v = n := by
  have hlt := t.objectiveRow_lt
  obtain ⟨z, hz⟩ := h.exists_columns hd
  obtain ⟨k, hk⟩ := h.natural _ (restricted_rowLabel hd hi)
  have hrow : t.rowValue i (fun j => z j) = (k : ℤ) :=
    calc t.rowValue i (fun j => z j) = t.rowValue i fun j => v (t.columnLabel j) :=
          (rowValue_congr hz i).symm
      _ = v (t.rowLabel i) := (h.solves i (by omega)).symm
      _ = (k : ℤ) := by rw [hk, Int.cast_natCast]
  rw [cutSlack_eq, cutValue_congr hz]
  exact t.exists_cutValue_eq i z hrow

/-! ### Forwards along a solve -/

theorem solves_congr (h : ∀ label ∈ t.labels, w label = v label) : t.Solves w ↔ t.Solves v := by
  have hrow : ∀ i < t.height, (t.Holds w i ↔ t.Holds v i) := by
    intro i hi
    rw [Holds, Holds, h _ (rowLabel_mem_labels hi),
      combine_agree _ fun j hj => h _ (columnLabel_mem_labels hj)]
  exact forall₂_congr hrow

/-- A whole point goes on to be one of the tableau with the cut. -/
theorem WholePoint.addCut (hl : t.WellLabelled) (h : t.WholePoint v) (hi : i < t.objectiveRow) :
    (t.addRow t.cutLabel (t.cutRow i)).WholePoint (Function.update v t.cutLabel (t.cutSlack i v)) := by
  have hagree : ∀ label ∈ t.labels,
      Function.update v t.cutLabel (t.cutSlack i v) label = v label := by
    intro label hlabel
    exact Function.update_of_ne (ne_of_mem_of_not_mem hlabel hl.cutLabel_notMem) _ _
  refine ⟨solves_addRow_iff.2 ⟨(solves_congr hagree).2 h.solves, ?_⟩, fun label hlabel => ?_⟩
  · rw [Function.update_self, Tableau.cutSlack]
    exact (combine_agree _ fun j hj => hagree _ (columnLabel_mem_labels hj)).symm
  · rcases (restricted_addRow _ hl.cutLabel_notMem).1 hlabel with rfl | hlabel
    · rw [Function.update_self]
      exact h.cutSlack hl.distinct hi
    · rw [hagree _ hlabel.1]
      exact h.natural label hlabel

theorem WholePoint.step (hl : t.WellLabelled) (h : Step ε t u) (hv : t.WholePoint v) :
    ∃ w, u.WholePoint w ∧ ∀ label ∈ t.labels, w label = v label := by
  rcases h.exchange_or_addRow hl.distinct with hexchange | ⟨i, hi, rfl⟩
  · refine ⟨v, ⟨hexchange.solves_iff.2 hv.solves, fun label hlabel => ?_⟩, fun _ _ => rfl⟩
    exact hv.natural label (hexchange.restricted_iff.1 hlabel)
  · refine ⟨_, hv.addCut hl hi, fun label hlabel => ?_⟩
    exact Function.update_of_ne (ne_of_mem_of_not_mem hlabel hl.cutLabel_notMem) _ _

/-- Every whole point where a solve begins goes on to be one where it ends. -/
theorem WholePoint.reaches (h : Reaches ε t u) (hl : t.WellLabelled) (hv : t.WholePoint v) :
    ∃ w, u.WholePoint w ∧ ∀ label ∈ t.labels, w label = v label := by
  let Extends (u : Tableau ℚ) : Prop := (∀ label ∈ t.labels, label ∈ u.labels) ∧
    ∃ w, u.WholePoint w ∧ ∀ label ∈ t.labels, w label = v label
  have hextends : Extends u := by
    refine (h.invariant (P := Extends) hl ⟨fun _ => id, v, hv, fun _ _ => rfl⟩ ?_).2
    rintro a b ha hstep ⟨hlabels, w, hw, hagree⟩
    obtain ⟨x, hx, hsame⟩ := hw.step ha hstep
    refine ⟨fun label hlabel => hstep.mem_labels ha (hlabels label hlabel), x, hx, fun label hlabel => ?_⟩
    rw [hsame label (hlabels label hlabel), hagree label hlabel]
  exact hextends.2

/-! ### Tolerance zero -/

/-- No row is fractional exactly where every right-hand side is whole. -/
theorem mostFractional?_zero_eq_none :
    t.mostFractional? 0 = none ↔ ∀ i < t.objectiveRow, ∃ n : ℤ, t.rhs i = n := by
  refine mostFractional?_eq_none.trans (forall₂_congr fun i _ => ?_)
  rw [fract_rat, sub_zero]
  constructor
  · intro hpart
    refine ⟨⌊t.rhs i⌋, ?_⟩
    by_contra hne
    refine hpart ⟨lt_of_le_of_ne (Int.fract_nonneg _) fun hzero => hne ?_, Int.fract_lt_one _⟩
    rw [← sub_eq_zero]
    exact hzero.symm
  · rintro ⟨n, hn⟩ ⟨hpos, -⟩
    rw [hn, Int.fract_intCast] at hpos
    exact lt_irrefl _ hpos

/-- No row is fractional exactly where every variable that may not be negative is whole at the vertex. -/
theorem mostFractional?_zero_eq_none_iff_value (hd : t.labels.Nodup) :
    t.mostFractional? 0 = none ↔ ∀ label, t.Restricted label → ∃ n : ℤ, t.value label = n := by
  have hlt := t.objectiveRow_lt
  rw [mostFractional?_zero_eq_none]
  constructor
  · intro h label hlabel
    rcases hlabel.cases with ⟨i, hi, rfl⟩ | ⟨j, -, hj, rfl⟩
    · rw [value_rowLabel hd (by omega)]
      exact h i hi
    · exact ⟨0, by rw [value_columnLabel hd hj, Int.cast_zero]⟩
  · intro h i hi
    rw [← value_rowLabel hd (by omega)]
    exact h _ (restricted_rowLabel hd hi)

/-- Where every right-hand side is whole, the vertex is a whole point. -/
theorem wholePoint_value (hd : t.labels.Nodup) (hmove : t.searchMove 0 = .halt .optimal)
    (hwhole : t.mostFractional? 0 = none) : t.WholePoint t.value := by
  have hvertex := feasible_value hd (rhs_nonneg_of_optimal hmove)
  refine ⟨hvertex.solves, fun label hlabel => ?_⟩
  have hnonneg := hvertex.nonneg label hlabel
  exact exists_natCast_eq (by linarith) ((mostFractional?_zero_eq_none_iff_value hd).1 hwhole label hlabel)

theorem discerns_rat (ε : ℚ) : Discerns ε := by
  intro x hx hsize
  rw [abs_rat, abs_neg] at hsize
  exact absurd (hx.trans_le (le_abs_self x)) hsize.not_gt

/-- At tolerance zero no cut is refused. -/
theorem addCut_zero (hd : t.labels.Nodup) {label : String} {part : ℚ}
    (h : t.mostFractional? 0 = some (label, part)) : ∃ name, (t.addCut label 0).result = .ok name := by
  obtain ⟨i, -, -, hcut⟩ := addCut_of_chosen (discerns_rat 0) hd h
  exact ⟨_, by rw [hcut]⟩

end CuttingPlane.Tableau

import CuttingPlane.Proofs.Histories
import CuttingPlane.Proofs.Start

/-!
# Relaxations

Every cut only adds to the constraints of a tableau. Between two optima of a solve at tolerance zero the
objective can therefore not have grown, whatever the repairs in between did to it. Nor can a column be
without bound after an optimum: a direction in which no variable decreases is one at the earlier tableau
too, also where the cuts have left nothing feasible, and there the objective does not grow along it.
-/

namespace CuttingPlane

open Finset

namespace Tableau

variable {t u : Tableau ℚ} {v w : String → ℚ}

/-! ### After an optimum -/

theorem objective_le_of_reaches (hl : t.WellLabelled) (hr : Reaches 0 t u)
    (ht : t.searchMove 0 = .halt .optimal) (hu : u.searchMove 0 = .halt .optimal) :
    u.objective ≤ t.objective := by
  have hd := (hr.wellLabelled hl).distinct
  have hvertex : t.Feasible u.value := hr.feasible hl (feasible_value hd (rhs_nonneg_of_optimal hu))
  calc u.objective = u.objectiveAt u.value := (objectiveAt_value hd).symm
    _ = t.objectiveAt u.value := by rw [objectiveAt, objectiveAt, hr.rowLabel_objectiveRow hl]
    _ ≤ t.objective := hvertex.le_objective hl.distinct ht

/-! ### Directions of growth -/

/-- Between two solutions of the equations no variable that may not be negative decreases, and the objective
grows: it does so without bound if one goes on like that. The solutions need not be feasible. -/
def Grows (t : Tableau ℚ) : Prop :=
  ∃ v w, t.Solves v ∧ t.Solves w ∧ (∀ label, t.Restricted label → v label ≤ w label) ∧
    t.objectiveAt v < t.objectiveAt w

theorem sub_of_solves (hv : t.Solves v) (hw : t.Solves w) {i : ℕ} (hi : i < t.height) :
    w (t.rowLabel i) - v (t.rowLabel i) =
      -∑ j ∈ Ico 1 t.width, t.entry i j * (w (t.columnLabel j) - v (t.columnLabel j)) := by
  have hrow := hv i hi
  have hrow' := hw i hi
  rw [Holds, combine] at hrow hrow'
  simp only [hrow, hrow', mul_sub, sum_sub_distrib]
  ring

theorem grows_of_unbounded (hd : t.labels.Nodup) {s : ℕ} (h : t.searchMove 0 = .halt (.unbounded s)) :
    t.Grows := by
  obtain ⟨h1, hs, hneg, hcolumn⟩ := unbounded_column h
  have hv : t.Solves t.value := solves_value hd
  refine ⟨t.value, t.raise s 1 t.value, hv, hv.raise hd h1 hs 1,
    fun label hlabel => le_raise hd hs hcolumn zero_le_one hlabel, ?_⟩
  rw [objectiveAt_raise hd]
  linarith

/-- Where no column improves the objective, it grows in no direction. -/
theorem not_grows_of_nonneg (hd : t.labels.Nodup)
    (hobjective : ∀ j, 1 ≤ j → j < t.width → 0 ≤ t.entry t.objectiveRow j) : ¬ t.Grows := by
  rintro ⟨v, w, hv, hw, hle, hlt⟩
  have hsum : 0 ≤ ∑ j ∈ Ico 1 t.width,
      t.entry t.objectiveRow j * (w (t.columnLabel j) - v (t.columnLabel j)) := by
    refine sum_nonneg fun j hj => ?_
    obtain ⟨h1, hj⟩ := mem_Ico.1 hj
    exact mul_nonneg (hobjective j h1 hj) (sub_nonneg.2 (hle _ (restricted_columnLabel hd h1 hj)))
  have hsub := sub_of_solves hv hw t.objectiveRow_lt
  rw [objectiveAt, objectiveAt] at hlt
  linarith

theorem Reaches.grows (hr : Reaches 0 t u) (hl : t.WellLabelled) (h : u.Grows) : t.Grows := by
  obtain ⟨v, w, hv, hw, hle, hlt⟩ := h
  rw [objectiveAt, objectiveAt, hr.rowLabel_objectiveRow hl] at hlt
  exact ⟨v, w, hr.solves hl hv, hr.solves hl hw, fun label hlabel => hle label (hr.restricted hl hlabel), hlt⟩

theorem Exchanges.grows_iff (h : Exchanges t u) : u.Grows ↔ t.Grows := by
  simp only [Grows, h.solves_iff, h.restricted_iff, objectiveAt, h.rowLabel_objectiveRow]

theorem not_unbounded_of_reaches (hl : t.WellLabelled) (hr : Reaches 0 t u)
    (ht : t.searchMove 0 = .halt .optimal) (s : ℕ) : u.searchMove 0 ≠ .halt (.unbounded s) := by
  intro hu
  have hgrows := hr.grows hl (grows_of_unbounded (hr.wellLabelled hl).distinct hu)
  exact not_grows_of_nonneg hl.distinct (objective_nonneg_of_optimal ht) hgrows

/-! ### Whole solves -/

/-- A solve whose tolerance is not negative makes no pivot without a meaning, so it has a solution. -/
theorem solve_result {options : Options ℚ} (hε : 0 ≤ options.epsilon) (flag : StopFlag ℚ)
    (t : Tableau ℚ) : ∃ solution, (t.solve options flag).result = .ok solution :=
  exists_solve (separates_of_nonneg hε) flag t

theorem optima_pairwise {events : List (Event ℚ)} (h : Tells 0 t events) (hl : t.WellLabelled) :
    (optimaIn events).Pairwise fun u w => w.objective ≤ u.objective := by
  induction events generalizing t with
  | nil => exact .nil
  | cons e events ih =>
    have hrest : (optimaIn events).Pairwise fun u w => w.objective ≤ u.objective := by
      refine ih h.2 ?_
      rcases h.1.step with hsame | hstep
      · rwa [hsame]
      · exact hl.step hstep
    cases e with
    | optimum u =>
      obtain ⟨⟨rfl, hmove⟩, htells⟩ := h
      refine List.pairwise_cons.2 ⟨fun w hw => ?_, hrest⟩
      obtain ⟨hreaches, hmove'⟩ := htells.optimum_reached hw
      exact objective_le_of_reaches hl hreaches hmove hmove'
    | _ => exact hrest

end Tableau

open Tableau

namespace Problem

/-- In a solve at tolerance zero the objective never grows from one optimum to a later one, and the solve
ends without bound only before its first cut. The optima in its history are those of its passes: a pass
tells of its last tableau if it ends with an optimum, and of none otherwise. -/
theorem solve_tightens {p : Problem ℚ} {t : Tableau ℚ} (htableau : p.tableau = .ok t)
    {options : Options ℚ} (hε : options.epsilon = 0) (flag : StopFlag ℚ) :
    (optimaIn (t.solve options flag).events).Pairwise (fun u w => w.objective ≤ u.objective) ∧
    (∃ solution, (t.solve options flag).result = .ok solution ∧
      (solution.outcome = .unbounded → solution.cuts = 0)) ∧
    ∀ (u : Tableau ℚ) (budget : ℕ), optimaIn (u.optimize 0 budget).events =
      match (u.optimize 0 budget).result with
      | .ok .optimal => [(u.optimize 0 budget).tableau]
      | _ => [] := by
  have hl := (poses_of_tableau htableau).labelled
  have hrecorded := solve_recorded t options flag
  have htells := hrecorded.tells
  rw [hε] at htells
  obtain ⟨solution, hsolve⟩ := solve_result hε.ge flag t
  refine ⟨optima_pairwise htells hl, ⟨solution, hsolve, fun ho => ?_⟩, fun u budget => ?_⟩
  · have hconcludes := solve_concludes hsolve
    rw [hε, ← hrecorded.leads] at hconcludes
    rw [hrecorded.counts solution hsolve, Nat.zero_add]
    by_contra hcuts
    obtain ⟨u, hbefore, hmove, hafter⟩ := htells.exists_optimum_of_cuts (Nat.pos_of_ne_zero hcuts)
    cases hconcludes with
    | unbounded found => exact not_unbounded_of_reaches (hbefore.wellLabelled hl) hafter hmove _ found
    | _ => cases ho
  · exact (records_optimize u 0 budget).optima_eq

-- Each of two cuts lowers the optimum.
theorem solve_tightens_two_cuts : ∃ (t : Tableau ℚ) (s : Solution ℚ),
    (⟨[7, 11], [[1, 2], [3, 2]], [3, 4]⟩ : Problem ℚ).tableau = .ok t ∧
      (t.solve ⟨0, 20, none⟩ .never).result = .ok s ∧
      (optimaIn (t.solve ⟨0, 20, none⟩ .never).events).map objective = [16, 47 / 3, 15] ∧
      (optimaIn (t.solve ⟨0, 20, none⟩ .never).events).Pairwise
        (fun u w => w.objective ≤ u.objective) ∧ (s.outcome = .unbounded → s.cuts = 0) := by
  obtain ⟨t, htableau, hobjectives⟩ : ∃ t : Tableau ℚ,
      (⟨[7, 11], [[1, 2], [3, 2]], [3, 4]⟩ : Problem ℚ).tableau = .ok t ∧
        (optimaIn (t.solve ⟨0, 20, none⟩ .never).events).map objective = [16, 47 / 3, 15] :=
    ⟨_, rfl, by decide +kernel⟩
  have hε : (⟨0, 20, none⟩ : Options ℚ).epsilon = 0 := rfl
  obtain ⟨hpairwise, ⟨s, hsolve, hunbounded⟩, -⟩ := solve_tightens htableau hε .never
  exact ⟨t, s, htableau, hsolve, hobjectives, hpairwise, hunbounded⟩

end Problem
end CuttingPlane

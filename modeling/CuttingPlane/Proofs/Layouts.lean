import CuttingPlane.Proofs.Requests
import CuttingPlane.Proofs.Start

/-!
# Layouts of problems

A problem has a starting tableau exactly if its consumptions have a row per supply and an entry per profit
in each. The names of the variables never get in the way: those of the products and the slack variables are
numbered through. The equations of the tableau are those of the problem.
-/

namespace CuttingPlane

open Finset

namespace Problem

variable {α : Type} {p : Problem α} {i found : ℕ} {reason : TableauError}

/-- The consumptions have one row per supply, and every row one entry per profit. -/
structure Rectangular (p : Problem α) : Prop where
  rows : p.consumption.length = p.resources
  entries : ∀ row ∈ p.consumption, row.length = p.products

/-- Row `i` of the consumptions is the first without one entry per profit; it has `found` of them. -/
structure FirstRagged (p : Problem α) (i found : ℕ) : Prop where
  length : (p.consumption.map List.length)[i]? = some found
  ragged : found ≠ p.products
  first : ∀ k < i, (p.consumption.map List.length)[k]? = some p.products

theorem findIdx?_ragged : (p.consumption.findIdx? fun row => row.length ≠ p.products) = some i ↔
    p.FirstRagged i (p.consumption.getD i []).length := by
  rw [List.findIdx?_eq_some_iff_getElem]
  constructor
  · rintro ⟨hi, hragged, hfirst⟩
    refine ⟨by simp [hi], ?_, fun k hk => ?_⟩
    · simpa [hi] using hragged
    · have hk' : k < p.consumption.length := by omega
      simpa [hk'] using hfirst k hk
  · rintro ⟨hlength, hragged, hfirst⟩
    have hi : i < p.consumption.length := by
      by_contra hle
      simp [hle] at hlength
    refine ⟨hi, by simpa [hi] using hragged, fun k hk => ?_⟩
    have hk' : k < p.consumption.length := by omega
    simpa [hk'] using hfirst k hk

theorem FirstRagged.found_eq (h : p.FirstRagged i found) : found = (p.consumption.getD i []).length := by
  have hlength := h.length
  rw [List.getElem?_map, Option.map_eq_some_iff] at hlength
  obtain ⟨row, hrow, rfl⟩ := hlength
  rw [List.getD_eq_getElem?_getD, hrow, Option.getD_some]

variable [Scalar α]

theorem exists_tableau_iff : (∃ t, p.tableau = .ok t) ↔ p.Rectangular := by
  constructor
  · rintro ⟨t, h⟩
    rw [tableau_eq] at h
    split at h
    · cases h
    rename_i hrows
    split at h
    · cases h
    rename_i hragged
    exact ⟨not_not.1 hrows, by simpa using hragged⟩
  · exact fun h => exists_tableau h.rows h.entries

theorem tableau_eq_error : p.tableau = .error reason ↔
    (p.consumption.length ≠ p.resources ∧ reason = .rowLabels p.consumption.length p.resources) ∨
    (p.consumption.length = p.resources ∧
      ∃ i found, p.FirstRagged i found ∧ reason = .raggedConsumption i found p.products) := by
  by_cases hrows : p.consumption.length = p.resources
  · rw [and_iff_right hrows, or_iff_right fun h => h.1 hrows]
    cases hragged : p.consumption.findIdx? fun row => row.length ≠ p.products with
    | none =>
      -- Nothing is left to be refused.
      obtain ⟨t, ht⟩ := exists_tableau hrows (by simpa using hragged)
      rw [ht]
      refine iff_of_false nofun ?_
      rintro ⟨i, found, hfirst, -⟩
      have hsome := findIdx?_ragged.2 (hfirst.found_eq ▸ hfirst)
      rw [hragged] at hsome
      cases hsome
    | some i =>
      have herror : p.tableau =
          .error (.raggedConsumption i (p.consumption.getD i []).length p.products) := by
        rw [tableau_eq, if_neg (not_not.2 hrows), hragged]
      rw [herror, Except.error.injEq]
      constructor
      · rintro rfl
        exact ⟨i, _, findIdx?_ragged.1 hragged, rfl⟩
      · rintro ⟨k, found, hfirst, rfl⟩
        have hsome := findIdx?_ragged.2 (hfirst.found_eq ▸ hfirst)
        obtain rfl := Option.some.inj (hragged.symm.trans hsome)
        rw [hfirst.found_eq]
  · have herror : p.tableau = .error (.rowLabels p.consumption.length p.resources) := by
      rw [tableau_eq, if_pos hrows]
    rw [herror, Except.error.injEq, or_iff_left fun h => hrows h.1, and_iff_right hrows, eq_comm]

end Problem

/-! ### Plans -/

theorem PlanRequest.shapeError?_ne_untabled {α : Type} {request : PlanRequest α} (reason : TableauError) :
    request.shapeError? ≠ some (.untabled reason) := by
  unfold shapeError?
  split
  · nofun
  split
  · nofun
  split
  · nofun
  · nofun

/-- A request whose shapes were found to agree has a starting tableau. -/
theorem Plan.compute_ne_untabled {α : Type} [Scalar α] (request : PlanRequest α) (flag : StopFlag α)
    (reason : TableauError) : (compute request flag).result ≠ .ok (.error (.untabled reason)) := by
  intro h
  unfold compute at h
  split at h
  · rename_i hshape
    cases h
    exact PlanRequest.shapeError?_ne_untabled reason hshape
  rename_i hshape
  split at h
  · obtain ⟨hrows, hentries, -⟩ := PlanRequest.shapeError?_eq_none.1 hshape
    obtain ⟨t, ht⟩ := Problem.exists_tableau (p := request.problem) hrows hentries
    obtain ⟨solution, -, hconclude⟩ := map_eq_ok_iff.1 ((solveProblem_result ht).symm.trans h)
    unfold conclude at hconclude
    split at hconclude
    · cases hconclude
    · cases hconclude
  · cases h

/-! ### Layouts -/

/-- A problem has a starting tableau exactly if it is rectangular. If not, the error is about the number of
rows, or else about the first ragged row, and no other; a request that is planned for never meets it. Over
the rationals the equations of the tableau say what is left of every resource and what the products earn. -/
theorem Problem.tableau_lays_out :
    (∀ {α : Type} [Scalar α] (p : Problem α),
      ((∃ t, p.tableau = .ok t) ↔ p.Rectangular) ∧
      (∀ reason, p.tableau = .error reason ↔
        (p.consumption.length ≠ p.resources ∧ reason = .rowLabels p.consumption.length p.resources) ∨
        (p.consumption.length = p.resources ∧
          ∃ i found, p.FirstRagged i found ∧ reason = .raggedConsumption i found p.products))) ∧
    (∀ {α : Type} [Scalar α] (request : PlanRequest α) (flag : StopFlag α) (reason : TableauError),
      (Plan.compute request flag).result ≠ .ok (.error (.untabled reason))) ∧
    ∀ (p : Problem ℚ) (t : Tableau ℚ), p.tableau = .ok t → ∀ v : String → ℚ, t.Solves v ↔
      (∀ i < p.resources, v (variableName (p.products + i + 1)) =
        p.supply.getD i 0 - ∑ j ∈ range p.products,
          (p.consumption.getD i []).getD j 0 * v (variableName (j + 1))) ∧
      v objectiveLabel = ∑ j ∈ range p.products, p.profit.getD j 0 * v (variableName (j + 1)) := by
  refine ⟨fun p => ⟨exists_tableau_iff, fun reason => tableau_eq_error⟩, ?_, fun p t h v => ?_⟩
  · exact fun request flag reason => Plan.compute_ne_untabled request flag reason
  · exact (poses_of_tableau h).solves_iff

-- Two plush toys out of three materials.
theorem Problem.tableau_lays_out_toys : ∃ t : Tableau ℚ,
    Problem.tableau ⟨[150, 130, 120], [[5, 2], [2, 3], [1, 7]], [10, 20]⟩ = .ok t ∧
      ∀ v, t.Solves v → v "x3" = 150 - (5 * v "x1" + 2 * v "x2") ∧
        v "x5" = 120 - (1 * v "x1" + 7 * v "x2") ∧ v "F" = 10 * v "x1" + 20 * v "x2" := by
  obtain ⟨hbuilds, -, hequations⟩ := tableau_lays_out
  obtain ⟨t, ht⟩ := (hbuilds (α := ℚ) ⟨[150, 130, 120], [[5, 2], [2, 3], [1, 7]], [10, 20]⟩).1.2
    ⟨rfl, by decide⟩
  refine ⟨t, ht, fun v hv => ?_⟩
  obtain ⟨hrows, hobjective⟩ := (hequations _ t ht v).1 hv
  have hfirst := hrows 0 (by decide)
  have hlast := hrows 2 (by decide)
  simp only [products, List.length_cons, List.length_nil, sum_range_succ, sum_range_zero, zero_add]
    at hfirst hlast hobjective
  exact ⟨hfirst, hlast, hobjective⟩

end CuttingPlane

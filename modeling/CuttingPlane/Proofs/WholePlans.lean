import CuttingPlane.Proofs.Requests
import CuttingPlane.Proofs.Snapping
import CuttingPlane.Proofs.Start

/-!
# Whole plans in doubles

The quantities of a plan are the values of the products in the last tableau of its solve, snapped. All of
them are natural numbers unless one of these values is the double just below one minus the tolerance, or
is not finite. There are requests with either.
-/

namespace CuttingPlane

open Tableau Binary64

namespace Tableau

variable {α : Type} [Scalar α] {t : Tableau α} {label : String}

theorem value_cases (t : Tableau α) (label : String) :
    t.value label = 0 ∨ ∃ i < t.height, t.rowLabel i = label ∧ t.value label = t.rhs i := by
  rw [value_eq]
  cases hrow : t.rowOf? label with
  | none => exact .inl rfl
  | some i =>
    obtain ⟨hi, heq, -⟩ := List.findIdx?_eq_some_iff_getElem.1 hrow
    refine .inr ⟨i, by simpa using hi, ?_, rfl⟩
    rw [rowLabel_eq_getElem hi]
    simpa using heq

end Tableau

namespace Problem

variable {α : Type} [Scalar α] {p : Problem α} {t : Tableau α} {options : Options α} {flag : StopFlag α}

/-- A plan is read off the optimum that its solve ends with. -/
theorem quantities_of_plan (htableau : p.tableau = .ok t) {plan : Plan α}
    (hplan : (Plan.solveProblem p options flag).result = .ok (.ok plan)) :
    let u := (t.solve options flag).tableau
    u.searchMove options.epsilon = .halt .optimal ∧ u.mostFractional? options.epsilon = none ∧
      plan.quantities = (List.range p.products).map fun j =>
        snap (u.value (variableName (j + 1))) options.epsilon := by
  obtain ⟨s, hinto, ho, rfl⟩ := (Plan.solveProblem_eq_ok htableau).1 hplan
  obtain ⟨s, hsolve, rfl⟩ := solveInto_eq_ok.1 hinto
  obtain ⟨hmove, hwhole, cuts, rfl⟩ := (solve_concludes hsolve).of_optimal ho
  refine ⟨hmove, hwhole, List.map_congr_left fun j hj => ?_⟩
  have hvalue := (poses_of_tableau htableau).get?_wholeSolution (solve_reaches t options flag) cuts
    (List.mem_range.1 hj)
  rw [hvalue, Option.getD_some]

theorem exists_tableau_of_plan {plan : Plan α}
    (hplan : (Plan.solveProblem p options flag).result = .ok (.ok plan)) : ∃ t, p.tableau = .ok t := by
  rw [Plan.solveProblem_eq] at hplan
  split at hplan
  · cases hplan
  · exact ⟨_, ‹_›⟩

end Problem

namespace Tableau

variable {u : Tableau Float} {label : String}

/-- Where a solve finds every value whole, a variable other than the objective is reported as a natural
number exactly if its value is finite and not the edge. -/
theorem isNatural_snap_value (hmove : u.searchMove Options.defaultEpsilon = .halt .optimal)
    (hwhole : u.mostFractional? Options.defaultEpsilon = none)
    (hlabel : label ≠ u.rowLabel u.objectiveRow) :
    IsNatural (snap (u.value label) Options.defaultEpsilon) ↔ snaps (u.value label) = true := by
  have hrows := infeasibleRow?_eq_none.1 (certifies_of_searchMove hmove).1
  have hlast := u.objectiveRow_add_one
  rcases u.value_cases label with hvalue | ⟨i, hi, hrow, hvalue⟩
  · rw [hvalue]
    exact isNatural_snap_iff (by decide +kernel) (by decide +kernel)
  · have hne : i ≠ u.objectiveRow := fun h => hlabel (by rw [← hrow, h])
    rw [hvalue]
    exact isNatural_snap_iff (hrows i (by omega)) (mostFractional?_eq_none.1 hwhole i (by omega))

end Tableau

namespace PlanRequest

/-- At the usual options the quantities of a plan are natural numbers, all of them, if and only if the
value of every product in the last tableau is finite and not the edge. -/
theorem natural_iff {request : PlanRequest Float} (hoptions : request.options = .default)
    {flag : StopFlag Float} {plan : Plan Float}
    (hplan : (Plan.compute request flag).result = .ok (.ok plan)) :
    ∃ t, request.problem.tableau = .ok t ∧
      let amount := fun j => (t.solve .default flag).tableau.value (Problem.variableName (j + 1))
      plan.quantities = (List.range request.problem.products).map
        (fun j => snap (amount j) Options.defaultEpsilon) ∧
      ((∀ q ∈ plan.quantities, IsNatural q) ↔
        ∀ j < request.problem.products, snaps (amount j) = true) := by
  have hsolved := Plan.compute_eq_ok hplan
  rw [hoptions] at hsolved
  obtain ⟨t, htableau⟩ := Problem.exists_tableau_of_plan hsolved
  obtain ⟨hmove, hwhole, hquantities⟩ := Problem.quantities_of_plan htableau hsolved
  have hposes := Problem.poses_of_tableau htableau
  have hobjective := (solve_reaches t .default flag).rowLabel_objectiveRow hposes.labelled
  rw [hposes.objective] at hobjective
  refine ⟨t, htableau, hquantities, ?_⟩
  rw [hquantities]
  simp only [List.forall_mem_map, List.mem_range]
  refine forall_congr' fun j => imp_congr_right fun _ => isNatural_snap_value hmove hwhole ?_
  rw [hobjective]
  exact (objectiveLabel_ne_variableName _).symm

theorem natural_iff_seven : ∃ plan,
    (Plan.compute (α := Float) ⟨[7], [[2]], [3], .default⟩ .never).result = .ok (.ok plan) ∧
      plan.quantities = [3] ∧ ∀ q ∈ plan.quantities, IsNatural q := by
  have hquantities : (Plan.compute (α := Float) ⟨[7], [[2]], [3], .default⟩ .never).result.map
      (Except.map Plan.quantities) = .ok (.ok [3]) := by decide +kernel
  obtain ⟨answer, hresult, hanswer⟩ := map_eq_ok_iff.1 hquantities
  obtain ⟨plan, rfl, hthree⟩ := map_eq_ok_iff.1 hanswer
  obtain ⟨t, htableau, -, hnatural⟩ := natural_iff rfl hresult
  have hamounts : (Problem.tableau (α := Float) ⟨[7], [[2]], [3]⟩).map (fun t : Tableau Float =>
      (List.range 1).all fun j => snaps ((t.solve .default .never).tableau.value
        (Problem.variableName (j + 1)))) = .ok true := by decide +kernel
  obtain ⟨t', htableau', hsnaps⟩ := map_eq_ok_iff.1 hamounts
  obtain rfl : t = t' := Except.ok.inj (htableau.symm.trans htableau')
  exact ⟨plan, hresult, hthree, hnatural.2 fun j hj => List.all_eq_true.1 hsnaps j (List.mem_range.2 hj)⟩

-- A supply of the edge itself is announced as an amount of the product, and where a quotient overflows
-- an infinite amount is.
theorem not_natural_of_edge :
    (∃ plan, (Plan.compute (α := Float) ⟨[0.999999], [[1]], [1], .default⟩ .never).result =
      .ok (.ok plan) ∧ plan.quantities = [0.999999] ∧ ¬ IsNatural 0.999999) ∧
    ∃ plan, (Plan.compute (α := Float) ⟨[1e308], [[1e-5]], [1], .default⟩ .never).result =
      .ok (.ok plan) ∧ ∃ q ∈ plan.quantities, Scalar.isFinite q = false := by
  constructor
  · have hquantities : (Plan.compute (α := Float) ⟨[0.999999], [[1]], [1], .default⟩ .never).result.map
        (Except.map Plan.quantities) = .ok (.ok [0.999999]) := by decide +kernel
    obtain ⟨answer, hresult, hanswer⟩ := map_eq_ok_iff.1 hquantities
    obtain ⟨plan, rfl, hedge⟩ := map_eq_ok_iff.1 hanswer
    refine ⟨plan, hresult, hedge, ?_⟩
    rintro ⟨n, hn⟩
    have hvalue : value? 0.999999 = some edge := value?_edge
    exact edge_ne_natCast n (Option.some.inj (hvalue.symm.trans hn))
  · have hinfinite : (Plan.compute (α := Float) ⟨[1e308], [[1e-5]], [1], .default⟩ .never).result.map
        (Except.map fun plan => plan.quantities.any fun q => !Scalar.isFinite q) = .ok (.ok true) := by
      decide +kernel
    obtain ⟨answer, hresult, hanswer⟩ := map_eq_ok_iff.1 hinfinite
    obtain ⟨plan, rfl, hany⟩ := map_eq_ok_iff.1 hanswer
    obtain ⟨q, hq, hnot⟩ := List.any_eq_true.1 hany
    exact ⟨plan, hresult, q, hq, by simpa using hnot⟩

end PlanRequest
end CuttingPlane

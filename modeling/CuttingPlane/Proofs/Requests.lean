import CuttingPlane.Plan.Basic
import CuttingPlane.Proofs.Acceptance
import CuttingPlane.Proofs.Passes

/-!
# From requests to solves

A request whose shapes agree and whose numbers are admissible is answered by the solve of its problem,
and its problem always has a starting tableau.
-/

namespace CuttingPlane

variable {α : Type}

/-! ### Checks -/

namespace PlanRequest

theorem shapeError?_eq_none {request : PlanRequest α} : request.shapeError? = none ↔
    request.consumption.length = request.supply.length ∧
      (∀ row ∈ request.consumption, row.length = request.profit.length) ∧ request.profit ≠ [] := by
  unfold shapeError?
  by_cases hrows : request.consumption.length = request.supply.length
  · rw [if_neg (not_not.2 hrows)]
    cases hrow : request.consumption.find? fun row => row.length ≠ request.profit.length with
    | some row =>
      have hmem := List.mem_of_find?_eq_some hrow
      have hlength : row.length ≠ request.profit.length := by simpa using List.find?_some hrow
      simp only [reduceCtorEq, false_iff]
      exact fun h => hlength (h.2.1 row hmem)
    | none =>
      have hlength : ∀ row ∈ request.consumption, row.length = request.profit.length := by
        simpa using hrow
      rw [and_iff_right hrows, and_iff_right hlength]
      simp
  · simp [hrows]

theorem mem_fields {request : PlanRequest α} {x : α} : (∃ place, (place, x) ∈ request.fields) ↔
    x ∈ request.supply ∨ (∃ row ∈ request.consumption, x ∈ row) ∨ x ∈ request.profit := by
  simp only [fields, List.mem_append, List.mem_flatten, List.mem_mapIdx, Prod.mk.injEq]
  constructor
  · rintro ⟨place, (⟨i, hi, -, rfl⟩ | ⟨-, ⟨i, hi, rfl⟩, hx⟩) | ⟨j, hj, -, rfl⟩⟩
    · exact .inl (List.getElem_mem hi)
    · obtain ⟨j, hj, hpair⟩ := List.mem_mapIdx.1 hx
      exact .inr (.inl ⟨_, List.getElem_mem hi, (Prod.mk.inj hpair).2 ▸ List.getElem_mem hj⟩)
    · exact .inr (.inr (List.getElem_mem hj))
  · rintro (hx | ⟨row, hrow, hx⟩ | hx)
    · obtain ⟨i, hi, rfl⟩ := List.mem_iff_getElem.1 hx
      exact ⟨.supply (i + 1), .inl (.inl ⟨i, hi, rfl, rfl⟩)⟩
    · obtain ⟨i, hi, rfl⟩ := List.mem_iff_getElem.1 hrow
      obtain ⟨j, hj, rfl⟩ := List.mem_iff_getElem.1 hx
      refine ⟨.consumption (i + 1) (j + 1), .inl (.inr ⟨_, ⟨i, hi, rfl⟩, ?_⟩)⟩
      exact List.mem_mapIdx.2 ⟨j, hj, rfl⟩
    · obtain ⟨j, hj, rfl⟩ := List.mem_iff_getElem.1 hx
      exact ⟨.profit (j + 1), .inr ⟨j, hj, rfl, rfl⟩⟩

theorem inadmissible_eq_nil [Scalar α] {request : PlanRequest α} : request.inadmissible = [] ↔
    ∀ x, x ∈ request.supply ∨ (∃ row ∈ request.consumption, x ∈ row) ∨ x ∈ request.profit →
      isAdmissible x = true := by
  simp only [← mem_fields, inadmissible, List.filter_eq_nil_iff, Bool.not_eq_true, Bool.not_eq_false']
  exact ⟨fun h x ⟨place, hx⟩ => h _ hx, fun h p hp => h p.2 ⟨p.1, hp⟩⟩

end PlanRequest

/-! ### Starting tableaus exist -/

namespace Problem

theorem exists_tableau [Scalar α] {p : Problem α} (hrows : p.consumption.length = p.resources)
    (hcolumns : ∀ row ∈ p.consumption, row.length = p.products) : ∃ t, p.tableau = .ok t := by
  have hragged : p.consumption.findIdx? (fun row => row.length ≠ p.products) = none := by
    rw [List.findIdx?_eq_none_iff]
    intro row hrow
    simp [hcolumns row hrow]
  rw [tableau_eq, if_neg (not_not.2 hrows), hragged]
  -- The checks of the shapes are those of the problem; what is left is that the labels are distinct.
  refine Tableau.exists_create_iff.2 ⟨⟨Nat.succ_pos _, Nat.succ_pos _, ?_, ?_, ?_⟩, ?_⟩
  · simp
  · simp
  · simp
  · exact p.startingNames_perm.nodup_iff.2 (p.nodup_namesAfter 0)

theorem checked_startingEntry [Scalar α] {p : Problem α} (hrows : p.consumption.length = p.resources)
    (hcolumns : ∀ row ∈ p.consumption, row.length = p.products) {i j : ℕ} (hi : i < p.resources + 1)
    (hj : j < p.products + 1) : Reading.checked.startingEntry p i j = .ok (p.startingEntry i j) := by
  rw [startingEntry_eq]
  unfold Reading.startingEntry
  split
  · cases j with
    | zero => rfl
    | succ j =>
      dsimp only
      rw [Reading.checked_getElem? 0 (Nat.lt_of_succ_lt_succ hj)]
      rfl
  · have hsupply : i < p.supply.length := Nat.lt_of_le_of_ne (Nat.le_of_lt_succ hi) ‹_›
    cases j with
    | zero => exact Reading.checked_getElem? 0 hsupply
    | succ j =>
      have hrow : i < p.consumption.length := hrows ▸ hsupply
      have hcell : j < (p.consumption.getD i []).length := by
        rw [← List.getElem_eq_getD (h := hrow), hcolumns _ (List.getElem_mem hrow)]
        exact Nat.lt_of_succ_lt_succ hj
      dsimp only
      rw [Reading.checked_getElem? [] hrow]
      exact Reading.checked_getElem? 0 hcell

/-- Making the starting tableau reads only what the problem has. -/
theorem checked_startingTableau [Scalar α] (p : Problem α) :
    Reading.checked.startingTableau p = .ok p.tableau := by
  rw [tableau_eq]
  unfold Reading.startingTableau
  by_cases hrows : p.consumption.length = p.resources
  · dsimp only
    rw [if_neg (not_not.2 hrows), if_neg (not_not.2 hrows)]
    cases hragged : p.consumption.findIdx? fun row => row.length ≠ p.products with
    | some i => rfl
    | none =>
      have hcolumns : ∀ row ∈ p.consumption, row.length = p.products := by simpa using hragged
      have hmatrix := Grid.tabulateM_eq_pure (m := Except Fault) fun i j hi hj =>
        checked_startingEntry hrows hcolumns (i := i) (j := j) hi hj
      dsimp only
      rw [hmatrix, pure_bind]
      rfl
  · dsimp only
    rw [if_pos hrows, if_pos hrows]
    rfl

end Problem

/-! ### Answers -/

variable [Scalar α] {p : Problem α} {t : Tableau α} {request : PlanRequest α} {options : Options α}
  {flag : StopFlag α} {solution : Solution α}

theorem Tableau.solveInto_eq_ok {sink : Sink} : (t.solveInto options sink flag).result = .ok solution ↔
    ∃ s, (t.solve options flag).result = .ok s ∧
      solution = { s with trace := sink.received (t.solve options flag).events } := by
  exact map_eq_ok_iff.trans (exists_congr fun _ => and_congr_right' eq_comm)

namespace Plan

theorem solveProblem_eq (p : Problem α) (options : Options α) (flag : StopFlag α) :
    solveProblem p options flag =
      match p.tableau with
      | .error reason => ⟨.ok (.error (.untabled reason)), []⟩
      | .ok t =>
        match (t.solveInto options .keep flag).result with
        | .error fault => ⟨.error fault, (t.solveInto options .keep flag).events.map .solving⟩
        | .ok solution =>
          ⟨.ok (conclude p solution), (t.solveInto options .keep flag).events.map .solving ++ [.solved solution]⟩ := by
  unfold solveProblem
  rw [p.checked_startingTableau]
  cases p.tableau <;> rfl

theorem solveProblem_result (h : p.tableau = .ok t) : (solveProblem p options flag).result =
    (t.solveInto options .keep flag).result.map (conclude p) := by
  rw [solveProblem_eq, h]
  dsimp only
  cases (t.solveInto options .keep flag).result <;> rfl

theorem solved_mem_solveProblem (h : p.tableau = .ok t) :
    .solved solution ∈ (solveProblem p options flag).events ↔
      (t.solveInto options .keep flag).result = .ok solution := by
  rw [solveProblem_eq, h]
  dsimp only
  cases (t.solveInto options .keep flag).result with
  | error fault => simp
  | ok s => simp [eq_comm]

theorem compute_result (hshape : request.shapeError? = none) (hnumbers : request.inadmissible = []) :
    (compute request flag).result = (solveProblem request.problem request.options flag).result := by
  unfold compute
  rw [hshape, hnumbers]

theorem solved_mem_compute (hshape : request.shapeError? = none)
    (hnumbers : request.inadmissible = []) : .solved solution ∈ (compute request flag).events ↔
      .solved solution ∈ (solveProblem request.problem request.options flag).events := by
  unfold compute
  rw [hshape, hnumbers]
  simp

/-- Only a solve of the problem makes a plan. -/
theorem compute_eq_ok {plan : Plan α} (h : (compute request flag).result = .ok (.ok plan)) :
    (solveProblem request.problem request.options flag).result = .ok (.ok plan) := by
  unfold compute at h
  split at h
  · cases h
  · split at h
    · exact h
    · cases h

theorem conclude_eq_ok {plan : Plan α} :
    conclude p solution = .ok plan ↔ solution.outcome = .optimal ∧ plan = ofSolution p solution := by
  unfold conclude
  split
  · rename_i h
    simp [h, eq_comm]
  · rename_i h
    simp [h]

/-- A plan is what an optimum of the starting tableau stands for. -/
theorem solveProblem_eq_ok {plan : Plan α} (h : p.tableau = .ok t) :
    (solveProblem p options flag).result = .ok (.ok plan) ↔
      ∃ s, (t.solveInto options .keep flag).result = .ok s ∧ s.outcome = .optimal ∧
        plan = ofSolution p s := by
  rw [solveProblem_result h, map_eq_ok_iff]
  exact exists_congr fun _ => and_congr_right' conclude_eq_ok

theorem exists_plan (h : p.tableau = .ok t) (hsolve : (t.solve options flag).result = .ok solution)
    (ho : solution.outcome = .optimal) :
    ∃ plan, (solveProblem p options flag).result = .ok (.ok plan) := by
  have hinto : (t.solveInto options .keep flag).result = .ok _ :=
    Tableau.solveInto_eq_ok.2 ⟨solution, hsolve, rfl⟩
  exact ⟨_, (solveProblem_eq_ok h).2 ⟨_, hinto, ho, rfl⟩⟩

end Plan
end CuttingPlane

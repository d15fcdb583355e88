import CuttingPlane.Proofs.Optimality

/-!
# Answers to requests

The checks let through every request whose shapes agree and whose numbers are not negative. Its answer at
tolerance zero is right exactly where the cuts of the solve keep a best plan, and there are requests with
fractional numbers where they do not.
-/

namespace CuttingPlane

open Finset Tableau

namespace PlanRequest

variable {request : PlanRequest ℚ} {t : Tableau ℚ} {flag : StopFlag ℚ}

/-- The shapes agree, there is a product, and no number is negative. -/
structure Proper (request : PlanRequest ℚ) : Prop where
  rows : request.consumption.length = request.supply.length
  columns : ∀ row ∈ request.consumption, row.length = request.profit.length
  products : request.profit ≠ []
  supply_nonneg : ∀ x ∈ request.supply, 0 ≤ x
  consumption_nonneg : ∀ row ∈ request.consumption, ∀ x ∈ row, 0 ≤ x
  profit_nonneg : ∀ x ∈ request.profit, 0 ≤ x

theorem isAdmissible_rat {x : ℚ} : isAdmissible x = true ↔ 0 ≤ x := by
  rw [isAdmissible, show Scalar.isFinite x = true from rfl, Bool.true_and, Bool.not_eq_true',
    decide_eq_false_iff_not]
  exact not_lt

/-- The checks let through the proper requests and no others. -/
theorem proper_iff : request.Proper ↔ request.shapeError? = none ∧ request.inadmissible = [] := by
  rw [shapeError?_eq_none, inadmissible_eq_nil]
  simp only [isAdmissible_rat]
  constructor
  · rintro ⟨hrows, hcolumns, hproducts, hsupply, hconsumption, hprofit⟩
    refine ⟨⟨hrows, hcolumns, hproducts⟩, ?_⟩
    rintro x (hx | ⟨row, hrow, hx⟩ | hx)
    · exact hsupply x hx
    · exact hconsumption row hrow x hx
    · exact hprofit x hx
  · rintro ⟨⟨hrows, hcolumns, hproducts⟩, hnumbers⟩
    exact ⟨hrows, hcolumns, hproducts, fun x hx => hnumbers x (.inl hx),
      fun row hrow x hx => hnumbers x (.inr (.inl ⟨row, hrow, hx⟩)),
      fun x hx => hnumbers x (.inr (.inr hx))⟩

theorem Proper.exists_tableau (h : request.Proper) : ∃ t, request.problem.tableau = .ok t :=
  Problem.exists_tableau h.rows h.columns

theorem Proper.admits_zero (h : request.Proper) : request.problem.Admits fun _ => ((0 : ℕ) : ℚ) := by
  intro i _
  have hsupply : 0 ≤ request.problem.supply.getD i 0 :=
    Problem.getD_of_forall_mem h.supply_nonneg le_rfl i
  simpa [Problem.usage, Problem.weigh] using hsupply

/-! ### Right answers -/

/-- The solve of the request does not end without a solution, and no whole plan earns more than the one
that is returned. -/
def Answered (request : PlanRequest ℚ) (flag : StopFlag ℚ) : Prop :=
  (∀ solution, .solved solution ∈ (Plan.compute request flag).events →
    solution.outcome ≠ .infeasible) ∧
  ∀ plan, (Plan.compute request flag).result = .ok (.ok plan) →
    ∀ y : ℕ → ℕ, request.problem.Admits (fun j => y j) →
      request.problem.earnings (fun j => y j) ≤ plan.maxIncome

/-- Wherever the solve decides, its last tableau keeps a best plan. -/
def KeepsBest (request : PlanRequest ℚ) (t : Tableau ℚ) (flag : StopFlag ℚ) : Prop :=
  ∀ solution, (t.solve request.options flag).result = .ok solution →
    solution.outcome = .optimal ∨ solution.outcome = .infeasible →
      ∃ y, request.problem.Best y ∧
        request.problem.Keeps (t.solve request.options flag).tableau y

theorem Proper.solved_mem_iff (h : request.Proper) (htableau : request.problem.tableau = .ok t)
    {solution : Solution ℚ} : .solved solution ∈ (Plan.compute request flag).events ↔
      (t.solveInto request.options .keep flag).result = .ok solution := by
  obtain ⟨hshape, hnumbers⟩ := proper_iff.1 h
  rw [Plan.solved_mem_compute hshape hnumbers, Plan.solved_mem_solveProblem htableau]

theorem Proper.keepsBest_of_answered (h : request.Proper) (hε : request.options.epsilon = 0)
    (htableau : request.problem.tableau = .ok t) (hanswered : request.Answered flag) :
    request.KeepsBest t flag := by
  obtain ⟨hshape, hnumbers⟩ := proper_iff.1 h
  obtain ⟨hsome, hincome⟩ := hanswered
  rintro solution hsolve (ho | ho)
  · obtain ⟨x, hassigns, hx, -, -⟩ := Problem.optimum_of_solve htableau hε hsolve ho
    obtain ⟨plan, hplan⟩ := Plan.exists_plan htableau hsolve ho
    have hmax := Problem.maxIncome_of_solve htableau hsolve hassigns hplan
    rw [← Plan.compute_result hshape hnumbers] at hplan
    refine ⟨x, ⟨?_, fun y hy => hmax ▸ hincome plan hplan y hy⟩, hx⟩
    exact (Problem.poses_of_tableau htableau).admits_of_keeps (solve_reaches t _ flag) hx
  · have hinto : (t.solveInto request.options .keep flag).result = .ok _ :=
      solveInto_eq_ok.2 ⟨solution, hsolve, rfl⟩
    exact (hsome _ ((h.solved_mem_iff htableau).2 hinto) ho).elim

theorem Proper.answered_of_keepsBest (h : request.Proper) (hε : request.options.epsilon = 0)
    (htableau : request.problem.tableau = .ok t) (hkeeps : request.KeepsBest t flag) :
    request.Answered flag := by
  constructor
  · intro solution hsolved ho
    obtain ⟨s, hsolve, rfl⟩ := solveInto_eq_ok.1 ((h.solved_mem_iff htableau).1 hsolved)
    obtain ⟨y, -, hy⟩ := hkeeps s hsolve (.inr ho)
    exact Problem.not_keeps_of_solve htableau hε hsolve ho y hy
  · intro plan hcompute y hy
    have hplan := Plan.compute_eq_ok hcompute
    obtain ⟨s', hinto, ho, -⟩ := (Plan.solveProblem_eq_ok htableau).1 hplan
    obtain ⟨s, hsolve, rfl⟩ := solveInto_eq_ok.1 hinto
    obtain ⟨x, hassigns, -, -, hbest⟩ := Problem.optimum_of_solve htableau hε hsolve ho
    obtain ⟨b, hb, hkept⟩ := hkeeps s hsolve (.inl ho)
    calc request.problem.earnings (fun j => y j) ≤ request.problem.earnings fun j => b j := hb.2 y hy
      _ ≤ request.problem.earnings fun j => x j := hbest b hkept
      _ = plan.maxIncome := (Problem.maxIncome_of_solve htableau hsolve hassigns hplan).symm

theorem Proper.keepsBest_of_whole (h : request.Proper) (hε : request.options.epsilon = 0)
    (htableau : request.problem.tableau = .ok t)
    (hwhole : ∀ y : ℕ → ℕ, request.problem.Admits (fun j => y j) →
      ∀ i < request.problem.resources, ∃ n : ℤ, request.problem.left i (fun j => y j) = n) :
    request.KeepsBest t flag := by
  have hposes := Problem.poses_of_tableau htableau
  have hreaches := solve_reaches t request.options flag
  have hkeeps (y : ℕ → ℕ) (hy : request.problem.Admits fun j => y j) :
      request.problem.Keeps (t.solve request.options flag).tableau y :=
    hposes.keeps_of_left hreaches (Problem.exists_left_eq_natCast (hwhole y hy) hy)
  rintro solution hsolve (ho | ho)
  · obtain ⟨x, -, hx, -, hbest⟩ := Problem.optimum_of_solve htableau hε hsolve ho
    exact ⟨x, ⟨hposes.admits_of_keeps hreaches hx, fun y hy => hbest y (hkeeps y hy)⟩, hx⟩
  · exact absurd (hkeeps _ h.admits_zero) (Problem.not_keeps_of_solve htableau hε hsolve ho _)

/-- A proper request has a starting tableau, and at tolerance zero its answer is right if and only if the
solve keeps a best plan wherever it decides. It does so if every whole plan leaves whole amounts. -/
theorem answered_iff_keepsBest (h : request.Proper) (hε : request.options.epsilon = 0)
    (flag : StopFlag ℚ) : ∃ t, request.problem.tableau = .ok t ∧
      (request.Answered flag ↔ request.KeepsBest t flag) ∧
      ((∀ y : ℕ → ℕ, request.problem.Admits (fun j => y j) → ∀ i < request.problem.resources,
        ∃ n : ℤ, request.problem.left i (fun j => y j) = n) → request.Answered flag) := by
  obtain ⟨t, htableau⟩ := h.exists_tableau
  refine ⟨t, htableau, ⟨h.keepsBest_of_answered hε htableau, h.answered_of_keepsBest hε htableau⟩,
    fun hwhole => ?_⟩
  exact h.answered_of_keepsBest hε htableau (h.keepsBest_of_whole hε htableau hwhole)

theorem answered_iff_keepsBest_seven : ∃ request : PlanRequest ℚ,
    request = ⟨[7], [[2]], [3], ⟨0, 20, none⟩⟩ ∧ request.Proper ∧ request.options.epsilon = 0 ∧
      request.Answered .never := by
  have hproper : Proper ⟨[7], [[2]], [3], ⟨0, 20, none⟩⟩ := by
    rw [proper_iff]
    decide +kernel
  obtain ⟨t, -, -, hwhole⟩ := answered_iff_keepsBest hproper rfl .never
  refine ⟨_, rfl, hproper, rfl, hwhole fun y _ i _ => ?_⟩
  refine Problem.exists_left_eq_intCast (fun x hx => ?_) (fun row hrow x hx => ?_) y i
  · obtain rfl := List.mem_singleton.1 hx
    exact ⟨7, by norm_num⟩
  · obtain rfl := List.mem_singleton.1 hrow
    obtain rfl := List.mem_singleton.1 hx
    exact ⟨2, by norm_num⟩

-- With a supply of one and a half nothing at all could still be made, but the solve finds no solution.
-- Using one half of a supply of three, the cut of that resource excludes the best plan, three pieces.
theorem not_answered_of_fractions :
    (∃ request : PlanRequest ℚ, request = ⟨[3 / 2], [[1]], [1], ⟨0, 20, none⟩⟩ ∧ request.Proper ∧
      ∃ solution, .solved solution ∈ (Plan.compute request .never).events ∧
        solution.outcome = .infeasible) ∧
    ∃ request : PlanRequest ℚ, request = ⟨[3, 3], [[1], [1 / 2]], [1], ⟨0, 20, none⟩⟩ ∧
      request.Proper ∧ ∃ plan, (Plan.compute request .never).result = .ok (.ok plan) ∧
        ∃ y : ℕ → ℕ, request.problem.Admits (fun j => y j) ∧
          plan.maxIncome < request.problem.earnings fun j => y j := by
  constructor
  · refine ⟨_, rfl, proper_iff.2 (by decide +kernel), ?_⟩
    have hany : ((Plan.compute (α := ℚ) ⟨[3 / 2], [[1]], [1], ⟨0, 20, none⟩⟩ .never).events.any
        fun | .solved s => s.outcome = .infeasible | _ => false) = true := by decide +kernel
    obtain ⟨event, hmem, hsolved⟩ := List.any_eq_true.1 hany
    cases event with
    | solved s => exact ⟨s, hmem, of_decide_eq_true hsolved⟩
    | _ => cases hsolved
  · refine ⟨_, rfl, proper_iff.2 (by decide +kernel), ?_⟩
    have hincome : (Plan.compute (α := ℚ) ⟨[3, 3], [[1], [1 / 2]], [1], ⟨0, 20, none⟩⟩ .never).result.map
        (Except.map Plan.maxIncome) = .ok (.ok 2) := by decide +kernel
    obtain ⟨answer, hresult, hanswer⟩ := map_eq_ok_iff.1 hincome
    obtain ⟨plan, rfl, htwo⟩ := map_eq_ok_iff.1 hanswer
    refine ⟨plan, hresult, fun _ => 3, ?_, ?_⟩
    · unfold Problem.Admits
      decide +kernel
    · rw [htwo]
      decide +kernel

end PlanRequest
end CuttingPlane

import CuttingPlane.Proofs.Requests
import CuttingPlane.Proofs.Start

/-!
# How exact a solution is

The vertex that a solve ends at satisfies the starting equations, and nothing in it is further below zero
than the tolerance. Rounding moves an amount by at most the tolerance again, so what a solution overdraws
a resource by, and how far its objective is from what its amounts earn, is bounded by the coefficients.
-/

namespace CuttingPlane.Problem

open Finset Tableau

variable {p : Problem ℚ} {t u : Tableau ℚ} {i : ℕ} {ε : ℚ} {x y q : ℕ → ℚ}

/-! ### Rounded amounts -/

/-- The sum of the sizes of the coefficients. -/
def size (p : Problem ℚ) (a : List ℚ) : ℚ := ∑ j ∈ range p.products, |a.getD j 0|

theorem abs_weigh_sub_le (h : ∀ j < p.products, |x j - y j| ≤ ε) (a : List ℚ) :
    |p.weigh a x - p.weigh a y| ≤ ε * p.size a := by
  have hterm : ∀ j ∈ range p.products, |a.getD j 0 * x j - a.getD j 0 * y j| ≤ ε * |a.getD j 0| := by
    intro j hj
    rw [← mul_sub, abs_mul, mul_comm]
    exact mul_le_mul_of_nonneg_right (h j (mem_range.1 hj)) (abs_nonneg _)
  rw [weigh, weigh, ← sum_sub_distrib]
  calc |∑ j ∈ range p.products, (a.getD j 0 * x j - a.getD j 0 * y j)|
      ≤ ∑ j ∈ range p.products, |a.getD j 0 * x j - a.getD j 0 * y j| := abs_sum_le_sum_abs _ _
    _ ≤ ∑ j ∈ range p.products, ε * |a.getD j 0| := sum_le_sum hterm
    _ = ε * p.size a := by rw [size, mul_sum]

/-! ### The vertex where a solve ends -/

theorem Poses.vertex (h : p.Poses t) (hr : Reaches ε t u) :
    (∀ i < p.resources, u.value (p.slackName i) = p.left i (amounts u.value)) ∧
      u.objective = p.earnings (amounts u.value) := by
  have hu := (hr.wellLabelled h.labelled).distinct
  obtain ⟨hleft, hobjective⟩ := h.solves_iff.1 (hr.solves h.labelled (solves_value hu))
  refine ⟨hleft, ?_⟩
  rw [← hobjective, ← objectiveAt_value hu, objectiveAt, hr.rowLabel_objectiveRow h.labelled,
    h.objective]

theorem Poses.neg_le_left (h : p.Poses t) (hr : Reaches ε t u) (hε : 0 ≤ ε)
    (hmove : u.searchMove ε = .halt .optimal) (hi : i < p.resources) :
    -ε ≤ p.left i (amounts u.value) := by
  have hu := (hr.wellLabelled h.labelled).distinct
  obtain ⟨hrow, -⟩ := certifies_of_searchMove hmove
  have hrhs : ∀ i < u.objectiveRow, -ε ≤ u.rhs i := fun i hi =>
    not_lt.1 (infeasibleRow?_eq_none.1 hrow i hi)
  rw [← (h.vertex hr).1 i hi]
  refine le_value_of_restricted hu (neg_nonpos.2 hε) hrhs (hr.restricted h.labelled ?_)
  exact h.restricted_iff.2 (.inl ⟨i, hi, rfl⟩)

/-! ### Rounding the vertex -/

/-- The amounts of the products at the vertex, rounded. -/
def roundedAmounts (u : Tableau ℚ) (ε : ℚ) (j : ℕ) : ℚ := snap (amounts u.value j) ε

theorem abs_weigh_roundedAmounts_le (p : Problem ℚ) (u : Tableau ℚ) (hε : 0 ≤ ε) (a : List ℚ) :
    |p.weigh a (roundedAmounts u ε) - p.weigh a (amounts u.value)| ≤ ε * p.size a :=
  abs_weigh_sub_le (fun _ _ => abs_snap_sub_le _ hε) a

theorem Poses.usage_roundedAmounts_le (h : p.Poses t) (hr : Reaches ε t u) (hε : 0 ≤ ε)
    (hmove : u.searchMove ε = .halt .optimal) (hi : i < p.resources) :
    p.usage i (roundedAmounts u ε) ≤
      p.supply.getD i 0 + ε * (1 + p.size (p.consumption.getD i [])) := by
  have hleft := h.neg_le_left hr hε hmove hi
  have hweigh := abs_le.1 (abs_weigh_roundedAmounts_le p u hε (p.consumption.getD i []))
  rw [left, usage] at hleft
  rw [usage]
  linarith [hweigh.2]

theorem Poses.abs_objective_sub_le (h : p.Poses t) (hr : Reaches ε t u) (hε : 0 ≤ ε) :
    |snap u.objective ε - p.earnings (roundedAmounts u ε)| ≤ ε * (1 + p.size p.profit) := by
  have hsnap := abs_snap_sub_le u.objective hε
  have hweigh := abs_weigh_roundedAmounts_le p u hε p.profit
  rw [abs_sub_comm] at hweigh
  have hvertex : u.objective = p.weigh p.profit (amounts u.value) := (h.vertex hr).2
  calc |snap u.objective ε - p.earnings (roundedAmounts u ε)|
      ≤ |snap u.objective ε - u.objective| + |u.objective - p.earnings (roundedAmounts u ε)| :=
        abs_sub_le _ _ _
    _ ≤ ε + ε * p.size p.profit := by
        rw [hvertex] at hsnap ⊢
        exact add_le_add hsnap hweigh
    _ = ε * (1 + p.size p.profit) := by ring

/-! ### Solutions -/

/-- The values of the products in a solution. -/
def Assigns (p : Problem ℚ) (solution : Solution ℚ) (q : ℕ → ℚ) : Prop :=
  ∀ j < p.products, solution.values.get? (variableName (j + 1)) = some (q j)

theorem Poses.assigns_wholeSolution (h : p.Poses t) (hr : Reaches ε t u) (cuts : ℕ) :
    p.Assigns (u.wholeSolution ε cuts) (roundedAmounts u ε) :=
  fun _ hj => h.get?_wholeSolution hr cuts hj

theorem maxIncome_ofSolution {solution : Solution ℚ} (h : p.Assigns solution q) :
    (Plan.ofSolution p solution).maxIncome = p.earnings q := by
  have hquantities : (List.range p.products).map (fun j =>
      (solution.values.get? (variableName (j + 1))).getD 0) = (List.range p.products).map q := by
    refine List.map_congr_left fun j hj => ?_
    rw [h j (List.mem_range.1 hj), Option.getD_some]
  rw [← income_eq_earnings, ← hquantities]
  rfl

/-- The plan that comes out of a solve earns what the values of its solution earn. -/
theorem maxIncome_of_solve {options : Options ℚ} {flag : StopFlag ℚ} {solution : Solution ℚ}
    (htableau : p.tableau = .ok t) (hsolve : (t.solve options flag).result = .ok solution)
    (h : p.Assigns solution q) {plan : Plan ℚ}
    (hplan : (Plan.solveProblem p options flag).result = .ok (.ok plan)) :
    plan.maxIncome = p.earnings q := by
  obtain ⟨s, hs, -, rfl⟩ := (Plan.solveProblem_eq_ok htableau).1 hplan
  obtain ⟨s', hs', rfl⟩ := solveInto_eq_ok.1 hs
  obtain rfl : solution = s' := Except.ok.inj (hsolve.symm.trans hs')
  exact maxIncome_ofSolution h

/-- An optimum overdraws no resource by more than the tolerance times the sizes of its coefficients, and
its objective is as close to what the amounts earn. At tolerance zero both are exact, and the income of
the plan is the objective. -/
theorem solve_within_tolerance {options : Options ℚ} {flag : StopFlag ℚ} {solution : Solution ℚ}
    (htableau : p.tableau = .ok t) (hε : 0 ≤ options.epsilon)
    (hsolve : (t.solve options flag).result = .ok solution) (ho : solution.outcome = .optimal) :
    ∃ q z, p.Assigns solution q ∧ solution.objective = some z ∧
      (∀ i < p.resources, p.usage i q ≤
        p.supply.getD i 0 + options.epsilon * (1 + p.size (p.consumption.getD i []))) ∧
      |z - p.earnings q| ≤ options.epsilon * (1 + p.size p.profit) ∧
      (options.epsilon = 0 → p.Admits q ∧ z = p.earnings q ∧
        (∃ plan, (Plan.solveProblem p options flag).result = .ok (.ok plan) ∧ plan.maxIncome = z) ∧
        ∀ plan, (Plan.compute ⟨p.supply, p.consumption, p.profit, options⟩ flag).result =
          .ok (.ok plan) → plan.maxIncome = z) := by
  have hposes := poses_of_tableau htableau
  have hreaches := solve_reaches t options flag
  obtain ⟨hmove, -, cuts, hsolution⟩ := (solve_concludes hsolve).of_optimal ho
  generalize (t.solve options flag).tableau = last at hreaches hmove hsolution
  have hassigns : p.Assigns solution (roundedAmounts last options.epsilon) :=
    hsolution ▸ hposes.assigns_wholeSolution hreaches cuts
  have husage (i : ℕ) (hi : i < p.resources) := hposes.usage_roundedAmounts_le hreaches hε hmove hi
  have hincome := hposes.abs_objective_sub_le hreaches hε
  refine ⟨_, snap last.objective options.epsilon, hassigns, by rw [hsolution]; rfl, husage, hincome,
    fun hzero => ?_⟩
  have hnone (x : ℚ) : options.epsilon * x = 0 := by rw [hzero, zero_mul]
  have hz : snap last.objective options.epsilon =
      p.earnings (roundedAmounts last options.epsilon) := by
    rw [hnone] at hincome
    exact sub_eq_zero.1 (abs_nonpos_iff.1 hincome)
  refine ⟨fun i hi => ?_, hz, ?_, fun plan hplan => ?_⟩
  · have hbound := husage i hi
    rw [hnone, add_zero] at hbound
    exact hbound
  · obtain ⟨plan, hplan⟩ := Plan.exists_plan htableau hsolve ho
    exact ⟨plan, hplan, (maxIncome_of_solve htableau hsolve hassigns hplan).trans hz.symm⟩
  · rw [hz]
    exact maxIncome_of_solve htableau hsolve hassigns (Plan.compute_eq_ok hplan)

-- Rounding up what a resource allows overdraws it by less than the tolerance.
theorem solve_within_tolerance_rounded : ∃ (p : Problem ℚ) (t : Tableau ℚ) (s : Solution ℚ),
    p = ⟨[999 / 1000], [[1]], [1]⟩ ∧ p.tableau = .ok t ∧ (0 : ℚ) ≤ 1 / 100 ∧
      (t.solve ⟨1 / 100, 20, none⟩ .never).result = .ok s ∧ s.outcome = .optimal ∧
      ∃ q z, p.Assigns s q ∧ s.objective = some z ∧
        p.usage 0 q ≤ 999 / 1000 + 1 / 100 * (1 + p.size [1]) ∧
        |z - p.earnings q| ≤ 1 / 100 * (1 + p.size [1]) := by
  obtain ⟨t, htableau, houtcome⟩ : ∃ t : Tableau ℚ, (⟨[999 / 1000], [[1]], [1]⟩ : Problem ℚ).tableau =
      .ok t ∧ (t.solve ⟨1 / 100, 20, none⟩ .never).result.map Solution.outcome = .ok .optimal :=
    ⟨_, rfl, by decide +kernel⟩
  obtain ⟨s, hsolve, ho⟩ := map_eq_ok_iff.1 houtcome
  have hε : (0 : ℚ) ≤ 1 / 100 := by norm_num
  obtain ⟨q, z, hassigns, hz, husage, hincome, -⟩ := solve_within_tolerance htableau hε hsolve ho
  exact ⟨_, t, s, rfl, htableau, hε, hsolve, ho, q, z, hassigns, hz, husage 0 Nat.one_pos, hincome⟩

end CuttingPlane.Problem

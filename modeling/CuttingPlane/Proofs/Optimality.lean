import CuttingPlane.Proofs.Accuracy

/-!
# Optimal whole plans

At tolerance zero a solve answers for the whole plans that its cuts keep: its optimum is the best of them,
and it finds none exactly where none is kept. A plan is kept if it leaves a whole amount of every
resource, as every whole plan does over whole supplies and consumptions. Over other numbers a cut may
exclude a plan, and then the answer can be wrong.
-/

namespace CuttingPlane.Problem

open Finset Tableau

variable {p : Problem ℚ} {t u : Tableau ℚ} {ε : ℚ} {y : ℕ → ℕ} {options : Options ℚ}
  {flag : StopFlag ℚ} {solution : Solution ℚ}

/-- No resource runs short of the plan, and no such plan earns more. -/
def Best (p : Problem ℚ) (x : ℕ → ℕ) : Prop :=
  p.Admits (fun j => x j) ∧
    ∀ y : ℕ → ℕ, p.Admits (fun j => y j) → p.earnings (fun j => y j) ≤ p.earnings fun j => x j

/-- The plan belongs to a feasible assignment of the tableau. -/
def Keeps (p : Problem ℚ) (u : Tableau ℚ) (y : ℕ → ℕ) : Prop :=
  ∃ v, u.Feasible v ∧ ∀ j < p.products, amounts v j = y j

/-! ### Plans that are kept -/

theorem Poses.admits_of_keeps (h : p.Poses t) (hr : Reaches ε t u) (hy : p.Keeps u y) :
    p.Admits fun j => y j := by
  obtain ⟨v, hv, hamounts⟩ := hy
  have hadmits := admits_iff_left.1 (h.admits (hr.feasible h.labelled hv))
  refine admits_iff_left.2 fun i hi => ?_
  rw [← left_congr hamounts]
  exact hadmits i hi

theorem Poses.keeps_of_left (h : p.Poses t) (hr : Reaches ε t u)
    (hleft : ∀ i < p.resources, ∃ n : ℕ, p.left i (fun j => y j) = n) : p.Keeps u y := by
  obtain ⟨v, hv, hamounts⟩ := h.exists_wholePoint y hleft
  obtain ⟨w, hw, hagree⟩ := hv.reaches hr h.labelled
  refine ⟨w, hw.feasible, fun j hj => ?_⟩
  have hlabel : t.Restricted (variableName (j + 1)) := h.restricted_iff.2 (.inr ⟨j, hj, rfl⟩)
  rw [← hamounts j hj]
  exact hagree _ hlabel.1

theorem exists_left_eq_natCast (hwhole : ∀ i < p.resources, ∃ n : ℤ, p.left i (fun j => y j) = n)
    (hy : p.Admits fun j => y j) : ∀ i < p.resources, ∃ n : ℕ, p.left i (fun j => y j) = n := by
  intro i hi
  have hnonneg := admits_iff_left.1 hy i hi
  exact exists_natCast_eq (by linarith) (hwhole i hi)

/-! ### Where a solve ends -/

theorem Poses.earnings_le_objective (h : p.Poses t) (hr : Reaches ε t u)
    (hmove : u.searchMove 0 = .halt .optimal) (hy : p.Keeps u y) :
    p.earnings (fun j => y j) ≤ u.objective := by
  obtain ⟨v, hv, hamounts⟩ := hy
  have hu := (hr.wellLabelled h.labelled).distinct
  have hobjective : u.objectiveAt v = p.earnings (amounts v) := by
    rw [objectiveAt, hr.rowLabel_objectiveRow h.labelled, h.objective]
    exact (h.solves_iff.1 (hr.solves h.labelled hv.solves)).2
  calc p.earnings (fun j => y j) = u.objectiveAt v := by
        rw [hobjective, earnings, earnings, weigh_congr hamounts]
    _ ≤ u.objective := hv.le_objective hu hmove

theorem Poses.exists_whole_amounts (h : p.Poses t) (hr : Reaches ε t u)
    (hmove : u.searchMove 0 = .halt .optimal) (hwhole : u.mostFractional? 0 = none) :
    ∃ x : ℕ → ℕ, p.Keeps u x ∧ ∀ j < p.products, amounts u.value j = x j := by
  have hu := (hr.wellLabelled h.labelled).distinct
  have hvertex := wholePoint_value hu hmove hwhole
  have hnatural : ∀ j, ∃ n : ℕ, j < p.products → amounts u.value j = n := by
    intro j
    by_cases hj : j < p.products
    · have hlabel := hr.restricted h.labelled (h.restricted_iff.2 (.inr ⟨j, hj, rfl⟩))
      obtain ⟨n, hn⟩ := hvertex.natural _ hlabel
      exact ⟨n, fun _ => hn⟩
    · exact ⟨0, fun h => absurd h hj⟩
  choose x hx using hnatural
  exact ⟨x, ⟨u.value, hvertex.feasible, hx⟩, hx⟩

/-- At tolerance zero an optimum is the best of the plans that the last tableau keeps. -/
theorem optimum_of_solve (htableau : p.tableau = .ok t) (hε : options.epsilon = 0)
    (hsolve : (t.solve options flag).result = .ok solution) (ho : solution.outcome = .optimal) :
    ∃ x : ℕ → ℕ, p.Assigns solution (fun j => x j) ∧ p.Keeps (t.solve options flag).tableau x ∧
      solution.objective = some (p.earnings fun j => x j) ∧
      ∀ y, p.Keeps (t.solve options flag).tableau y →
        p.earnings (fun j => y j) ≤ p.earnings fun j => x j := by
  have hposes := poses_of_tableau htableau
  have hreaches := solve_reaches t options flag
  obtain ⟨hmove, hwhole, cuts, rfl⟩ := (solve_concludes hsolve).of_optimal ho
  rw [hε] at hmove hwhole
  generalize (t.solve options flag).tableau = last at hreaches hmove hwhole
  obtain ⟨x, hkeeps, hx⟩ := hposes.exists_whole_amounts hreaches hmove hwhole
  have hobjective : last.objective = p.earnings fun j => x j := by
    rw [(hposes.vertex hreaches).2, earnings, earnings, weigh_congr hx]
  refine ⟨x, fun j hj => ?_, hkeeps, ?_, fun y hy => ?_⟩
  · rw [hposes.assigns_wholeSolution hreaches cuts j hj, roundedAmounts, hε, snap_zero, hx j hj]
  · rw [← hobjective, wholeSolution, hε, snap_zero]
  · rw [← hobjective]
    exact hposes.earnings_le_objective hreaches hmove hy

/-- At tolerance zero a solve finds no solution only where the last tableau keeps no plan. -/
theorem not_keeps_of_solve (htableau : p.tableau = .ok t) (hε : options.epsilon = 0)
    (hsolve : (t.solve options flag).result = .ok solution) (ho : solution.outcome = .infeasible)
    (y : ℕ → ℕ) : ¬ p.Keeps (t.solve options flag).tableau y := by
  have hreaches := solve_reaches t options flag
  have hconcludes := (solve_concludes hsolve).of_infeasible ho
  rw [hε] at hconcludes
  have hd := (hreaches.wellLabelled (poses_of_tableau htableau).labelled).distinct
  rcases hconcludes with ⟨r, hmove⟩ | ⟨label, part, reason, hchosen, hrefused⟩
  · rintro ⟨v, hv, -⟩
    exact not_feasible_of_infeasible hd hmove hv
  · obtain ⟨name, hadded⟩ := addCut_zero hd hchosen
    rw [hadded] at hrefused
    cases hrefused

/-! ### Whole supplies and consumptions -/

theorem getD_of_forall_mem {β : Type} {P : β → Prop} {xs : List β} {d : β} (h : ∀ x ∈ xs, P x)
    (hd : P d) (i : ℕ) : P (xs.getD i d) := by
  rw [List.getD_eq_getElem?_getD]
  cases hget : xs[i]? with
  | none => exact hd
  | some x => exact h x (List.mem_of_getElem? hget)

/-- Over whole supplies and consumptions, whole amounts leave whole amounts. -/
theorem exists_left_eq_of_whole (hsupply : ∀ x ∈ p.supply, ∃ n : ℤ, x = n)
    (hconsumption : ∀ row ∈ p.consumption, ∀ x ∈ row, ∃ n : ℤ, x = n) {x : ℕ → ℚ}
    (hx : ∀ j < p.products, ∃ n : ℤ, x j = n) (i : ℕ) : ∃ n : ℤ, p.left i x = n := by
  have hrow : ∀ x ∈ p.consumption.getD i [], ∃ n : ℤ, x = n :=
    getD_of_forall_mem (P := fun row : List ℚ => ∀ x ∈ row, ∃ n : ℤ, x = n) hconsumption
      (fun x hx => absurd hx List.not_mem_nil) i
  obtain ⟨b, hb⟩ := getD_of_forall_mem (d := 0) hsupply ⟨0, rfl⟩ i
  choose a ha using getD_of_forall_mem (d := 0) hrow ⟨0, rfl⟩
  choose! n hn using hx
  refine ⟨b - ∑ j ∈ range p.products, a j * n j, ?_⟩
  rw [left, hb, usage, weigh, sum_congr rfl fun j hj => by rw [ha j, hn j (mem_range.1 hj)]]
  push_cast
  rfl

theorem exists_left_eq_intCast (hsupply : ∀ x ∈ p.supply, ∃ n : ℤ, x = n)
    (hconsumption : ∀ row ∈ p.consumption, ∀ x ∈ row, ∃ n : ℤ, x = n) (y : ℕ → ℕ) (i : ℕ) :
    ∃ n : ℤ, p.left i (fun j => y j) = n :=
  exists_left_eq_of_whole hsupply hconsumption (fun j _ => ⟨y j, (Int.cast_natCast _).symm⟩) i

/-- Over whole supplies and consumptions, and at tolerance zero, an optimum is a best whole plan, and a
solve finds no solution only if there is no whole plan. -/
theorem solve_whole_optimum (hsupply : ∀ x ∈ p.supply, ∃ n : ℤ, x = n)
    (hconsumption : ∀ row ∈ p.consumption, ∀ x ∈ row, ∃ n : ℤ, x = n)
    (htableau : p.tableau = .ok t) (hε : options.epsilon = 0)
    (hsolve : (t.solve options flag).result = .ok solution) :
    (solution.outcome = .optimal → ∃ x : ℕ → ℕ, p.Assigns solution (fun j => x j) ∧
      solution.objective = some (p.earnings fun j => x j) ∧ p.Best x) ∧
    (solution.outcome = .infeasible → ∀ y : ℕ → ℕ, ¬ p.Admits fun j => y j) := by
  have hposes := poses_of_tableau htableau
  have hreaches := solve_reaches t options flag
  have hkeeps (y : ℕ → ℕ) (hy : p.Admits fun j => y j) :
      p.Keeps (t.solve options flag).tableau y :=
    hposes.keeps_of_left hreaches <| exists_left_eq_natCast
      (fun i _ => exists_left_eq_intCast hsupply hconsumption y i) hy
  refine ⟨fun ho => ?_, fun ho y hy => ?_⟩
  · obtain ⟨x, hassigns, hx, hobjective, hbest⟩ := optimum_of_solve htableau hε hsolve ho
    exact ⟨x, hassigns, hobjective, hposes.admits_of_keeps hreaches hx,
      fun y hy => hbest y (hkeeps y hy)⟩
  · exact not_keeps_of_solve htableau hε hsolve ho y (hkeeps y hy)

-- Two products made from two resources, after two cuts.
theorem solve_whole_optimum_two_cuts : ∃ (p : Problem ℚ) (t : Tableau ℚ) (s : Solution ℚ),
    p = ⟨[7, 11], [[1, 2], [3, 2]], [3, 4]⟩ ∧
      (∀ x ∈ p.supply, ∃ n : ℤ, x = n) ∧ (∀ row ∈ p.consumption, ∀ x ∈ row, ∃ n : ℤ, x = n) ∧
      p.tableau = .ok t ∧ (t.solve ⟨0, 20, none⟩ .never).result = .ok s ∧ s.outcome = .optimal ∧
      ∃ x : ℕ → ℕ, p.Assigns s (fun j => x j) ∧ s.objective = some (p.earnings fun j => x j) ∧
        p.Best x := by
  obtain ⟨t, htableau, houtcome⟩ : ∃ t : Tableau ℚ,
      (⟨[7, 11], [[1, 2], [3, 2]], [3, 4]⟩ : Problem ℚ).tableau = .ok t ∧
        (t.solve ⟨0, 20, none⟩ .never).result.map Solution.outcome = .ok .optimal :=
    ⟨_, rfl, by decide +kernel⟩
  obtain ⟨s, hsolve, ho⟩ := map_eq_ok_iff.1 houtcome
  have hsupply : ∀ x ∈ ([7, 11] : List ℚ), ∃ n : ℤ, x = n := by
    have hwhole : ∀ x ∈ ([7, 11] : List ℚ), x = x.num := by decide +kernel
    exact fun x hx => ⟨x.num, hwhole x hx⟩
  have hconsumption : ∀ row ∈ ([[1, 2], [3, 2]] : List (List ℚ)), ∀ x ∈ row, ∃ n : ℤ, x = n := by
    have hwhole : ∀ row ∈ ([[1, 2], [3, 2]] : List (List ℚ)), ∀ x ∈ row, x = x.num := by
      decide +kernel
    exact fun row hrow x hx => ⟨x.num, hwhole row hrow x hx⟩
  have hoptimum := (solve_whole_optimum hsupply hconsumption htableau rfl hsolve).1 ho
  exact ⟨_, t, s, rfl, hsupply, hconsumption, htableau, hsolve, ho, hoptimum⟩

end CuttingPlane.Problem

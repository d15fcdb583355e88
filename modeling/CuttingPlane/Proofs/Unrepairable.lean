import CuttingPlane.Proofs.Bases
import CuttingPlane.Proofs.Relaxations

/-!
# Rows beyond repair

A row with a negative right-hand side and no negative coefficient leaves nothing feasible, so a solve of its
tableau never ends with an optimum and never comes to a cut. The search goes on improving the objective all
the same, and it calls the tableau unbounded if the objective grows in some direction, infeasible only if it
grows in none.
-/

namespace CuttingPlane

open Finset

/-! ### Rounds without an optimum -/

/-- What a solve comes to whose pass ends with a verdict other than an optimum. -/
def Verdict.outcome : Verdict → Outcome
  | optimal => .optimal
  | unbounded _ => .unbounded
  | infeasible _ => .infeasible
  | stalled => .nonConvergent

theorem Tableau.solve_of_verdict {α : Type} [Scalar α] {t : Tableau α} {options : Options α}
    {flag : StopFlag α} {verdict : Verdict} (hflag : ¬ flag.raised [] = true)
    (hpass : (t.optimize options.epsilon (options.pivotLimit t)).result = .ok verdict)
    (hne : verdict ≠ .optimal) :
    (t.solve options flag).result = .ok (.failed verdict.outcome 0) := by
  have hround : (runRound options 0 t).result = .ok (.ended (.failed verdict.outcome 0)) := by
    unfold runRound
    cases verdict with
    | optimal => exact absurd rfl hne
    | _ =>
      simp only [hpass]
      rfl
  rw [solve, rounds_of_ended hflag hround]

namespace Tableau

variable {t : Tableau ℚ} {r : ℕ}

/-! ### Directions -/

/-- Raising the nonbasic variables by `z` lets no basic variable decrease, and the objective grows. -/
structure ImprovesAlong (t : Tableau ℚ) (z : ℕ → ℚ) : Prop where
  nonneg : ∀ j, 1 ≤ j → j < t.width → 0 ≤ z j
  basic : ∀ i < t.objectiveRow, ∑ j ∈ Ico 1 t.width, t.entry i j * z j ≤ 0
  objective : ∑ j ∈ Ico 1 t.width, t.entry t.objectiveRow j * z j < 0

theorem grows_iff (hd : t.labels.Nodup) : t.Grows ↔ ∃ z, t.ImprovesAlong z := by
  have hlast := t.objectiveRow_lt
  constructor
  · rintro ⟨v, w, hv, hw, hle, hlt⟩
    refine ⟨fun j => w (t.columnLabel j) - v (t.columnLabel j), fun j h1 hj => ?_, fun i hi => ?_, ?_⟩
    · exact sub_nonneg.2 (hle _ (restricted_columnLabel hd h1 hj))
    · have hsub := sub_of_solves hv hw (i := i) (by omega)
      have hrow := hle _ (restricted_rowLabel hd hi)
      linarith
    · have hsub := sub_of_solves hv hw hlast
      rw [objectiveAt, objectiveAt] at hlt
      linarith
  · rintro ⟨z, hz⟩
    -- Any solution will do to start from.
    have hv : t.Solves t.value := solves_value hd
    obtain ⟨w, hw, hcolumn⟩ := exists_solves hd fun label => t.value label + (t.columnOf? label).elim 0 z
    have hraised : ∀ j < t.width, w (t.columnLabel j) - t.value (t.columnLabel j) = z j := by
      intro j hj
      rw [hcolumn j hj, columnOf?_columnLabel hd hj, Option.elim_some, add_sub_cancel_left]
    have hrows : ∀ i < t.height, w (t.rowLabel i) - t.value (t.rowLabel i) =
        -∑ j ∈ Ico 1 t.width, t.entry i j * z j := by
      intro i hi
      rw [sub_of_solves hv hw hi]
      congr 1
      exact sum_congr rfl fun j hj => by rw [hraised j (mem_Ico.1 hj).2]
    refine ⟨t.value, w, hv, hw, fun label hlabel => ?_, ?_⟩
    · rcases hlabel.cases with ⟨i, hi, rfl⟩ | ⟨j, h1, hj, rfl⟩
      · have hrow := hrows i (by omega)
        have hbasic := hz.basic i hi
        linarith
      · have hcolumn := hraised j hj
        have hnonneg := hz.nonneg j h1 hj
        linarith
    · have hrow := hrows _ hlast
      have hobjective := hz.objective
      rw [objectiveAt, objectiveAt]
      linarith

/-- A pass calls a tableau unbounded only if its objective grows in some direction, infeasible only if it
grows in none. -/
theorem optimize_grows (hd : t.labels.Nodup) {budget : ℕ} {verdict : Verdict}
    (h : (t.optimize 0 budget).result = .ok verdict) :
    (verdict.outcome = .unbounded → t.Grows) ∧ (verdict.outcome = .infeasible → ¬ t.Grows) := by
  have hexchanges := optimize_exchanges t 0 budget
  have hhalt := optimize_eq_ok h
  generalize (t.optimize 0 budget).tableau = last at hexchanges hhalt
  have hlast : last.labels.Nodup := hexchanges.labels_perm.nodup_iff.2 hd
  rw [← hexchanges.grows_iff]
  cases verdict with
  | optimal => exact ⟨nofun, nofun⟩
  | unbounded s => exact ⟨fun _ => grows_of_unbounded hlast (hhalt.resolve_right nofun), nofun⟩
  | infeasible r =>
    obtain ⟨-, -, hcolumn⟩ := certifies_of_searchMove (hhalt.resolve_right nofun)
    refine ⟨nofun, fun _ => not_grows_of_nonneg hlast fun j h1 hj => ?_⟩
    simpa using negativeColumn?_eq_none.1 hcolumn j h1 hj
  | stalled => exact ⟨nofun, nofun⟩

/-! ### Rows beyond repair -/

/-- Row `r` has a negative right-hand side and no negative coefficient. -/
structure Unrepairable (t : Tableau ℚ) (r : ℕ) : Prop where
  above : r < t.objectiveRow
  negative : t.rhs r < 0
  nonneg : ∀ j, 1 ≤ j → j < t.width → 0 ≤ t.entry r j

theorem Unrepairable.not_feasible (h : t.Unrepairable r) (hd : t.labels.Nodup) (v : String → ℚ) :
    ¬ t.Feasible v := not_feasible_of_row hd h.above h.negative h.nonneg

theorem Unrepairable.not_optimal (h : t.Unrepairable r) (hd : t.labels.Nodup) (budget : ℕ) :
    (t.optimize 0 budget).result ≠ .ok .optimal := by
  intro hresult
  have hexchanges := optimize_exchanges t 0 budget
  have hlast : (t.optimize 0 budget).tableau.labels.Nodup := hexchanges.labels_perm.nodup_iff.2 hd
  have hvertex := feasible_value hlast (rhs_nonneg_of_optimal ((optimize_eq_ok hresult).resolve_right nofun))
  exact h.not_feasible hd _ (hexchanges.feasible_iff.1 hvertex)

/-- Where all coefficients of a row are positive, no nonbasic variable can be raised without end. -/
theorem not_improvesAlong_of_pos (hr : r < t.objectiveRow)
    (hpos : ∀ j, 1 ≤ j → j < t.width → 0 < t.entry r j) (z : ℕ → ℚ) : ¬ t.ImprovesAlong z := by
  intro hz
  have hterms : ∀ j ∈ Ico 1 t.width, 0 ≤ t.entry r j * z j := by
    intro j hj
    obtain ⟨h1, hj⟩ := mem_Ico.1 hj
    exact mul_nonneg (hpos j h1 hj).le (hz.nonneg j h1 hj)
  have hsum := (hz.basic r hr).antisymm (sum_nonneg hterms)
  have hzero : ∀ j ∈ Ico 1 t.width, z j = 0 := by
    intro j hj
    obtain ⟨h1, hlt⟩ := mem_Ico.1 hj
    exact (mul_eq_zero.1 ((sum_eq_zero_iff_of_nonneg hterms).1 hsum j hj)).resolve_left (hpos j h1 hlt).ne'
  have hobjective := hz.objective
  rw [sum_eq_zero fun j hj => by rw [hzero j hj, mul_zero]] at hobjective
  exact lt_irrefl 0 hobjective

/-- A solve at tolerance zero of a tableau with a row beyond repair ends without an optimum and before its
first cut. Unless it is stopped at once or its pass stalls, it ends as unbounded if the objective grows in
some direction and as infeasible if it grows in none, as where all coefficients of the row are positive. -/
theorem solve_of_unrepairable {matrix : Grid ℚ} {basic nonbasic : List String}
    (hcreate : create matrix basic nonbasic = .ok t) (hrow : t.Unrepairable r) {options : Options ℚ}
    (hε : options.epsilon = 0) (flag : StopFlag ℚ) :
    ∃ solution, (t.solve options flag).result = .ok solution ∧ solution.outcome ≠ .optimal ∧
      solution.cuts = 0 ∧
      (solution.outcome = .unbounded ↔ flag.raised [] = false ∧
        (t.optimize 0 (options.pivotLimit t)).result ≠ .ok .stalled ∧ ∃ z, t.ImprovesAlong z) ∧
      (solution.outcome = .infeasible ↔ flag.raised [] = false ∧
        (t.optimize 0 (options.pivotLimit t)).result ≠ .ok .stalled ∧ ∀ z, ¬ t.ImprovesAlong z) ∧
      ((∀ j, 1 ≤ j → j < t.width → 0 < t.entry r j) → solution.outcome ≠ .unbounded) := by
  obtain ⟨-, -, -, -, hd, -⟩ := create_eq_ok hcreate
  obtain ⟨verdict, hresult⟩ := optimize_result le_rfl t (options.pivotLimit t)
  have hne : verdict ≠ .optimal := fun h => hrow.not_optimal hd _ (h ▸ hresult)
  obtain ⟨hunbounded, hinfeasible⟩ := optimize_grows hd hresult
  rw [grows_iff hd] at hunbounded hinfeasible
  have hpositive : (∀ j, 1 ≤ j → j < t.width → 0 < t.entry r j) → verdict.outcome ≠ .unbounded := by
    intro hpos ho
    obtain ⟨z, hz⟩ := hunbounded ho
    exact not_improvesAlong_of_pos hrow.above hpos z hz
  cases hflag : flag.raised [] with
  | true =>
    refine ⟨.failed .cancelled 0, ?_, nofun, rfl, iff_of_false nofun nofun, iff_of_false nofun nofun,
      fun _ => nofun⟩
    rw [solve, rounds_of_raised hflag]
  | false =>
    have hdown : ¬ flag.raised [] = true := by rw [hflag]; exact Bool.false_ne_true
    refine ⟨_, solve_of_verdict hdown (by rw [hε]; exact hresult) hne, ?_, rfl, ?_, ?_, hpositive⟩
    · cases verdict with
      | optimal => exact absurd rfl hne
      | _ => nofun
    -- What the verdict can be is read off the direction, or off its absence.
    · rw [hresult]
      cases verdict with
      | optimal => exact absurd rfl hne
      | unbounded s => exact iff_of_true rfl ⟨rfl, nofun, hunbounded rfl⟩
      | infeasible i => exact iff_of_false nofun fun h => hinfeasible rfl h.2.2
      | stalled => exact iff_of_false nofun fun h => h.2.1 rfl
    · rw [hresult]
      cases verdict with
      | optimal => exact absurd rfl hne
      | unbounded s => exact iff_of_false nofun fun h => (hunbounded rfl).elim h.2.2
      | infeasible i => exact iff_of_true rfl ⟨rfl, nofun, fun z hz => hinfeasible rfl ⟨z, hz⟩⟩
      | stalled => exact iff_of_false nofun fun h => h.2.1 rfl

-- All coefficients of the row are positive, and the column that improves the objective is limited.
theorem solve_of_unrepairable_positive : ∃ t : Tableau ℚ,
    create ⟨3, 3, #v[-1, 5, 0, 1, 1, -1, 1, 1, -1]⟩ ["x3", "x4", "F"] ["RHS", "x1", "x2"] = .ok t ∧
      t.Unrepairable 0 ∧ (∀ z, ¬ t.ImprovesAlong z) ∧
      ∃ solution, (t.solve ⟨0, 20, none⟩ .never).result = .ok solution ∧
        solution.outcome = .infeasible ∧ solution.cuts = 0 := by
  obtain ⟨t, hcreate, habove, hneg, hrow, hresult⟩ : ∃ t : Tableau ℚ,
      create ⟨3, 3, #v[-1, 5, 0, 1, 1, -1, 1, 1, -1]⟩ ["x3", "x4", "F"] ["RHS", "x1", "x2"] = .ok t ∧
        0 < t.objectiveRow ∧ t.rhs 0 < 0 ∧ (∀ j < t.width, 1 ≤ j → 0 ≤ t.entry 0 j) ∧
        (t.solve ⟨0, 20, none⟩ .never).result.map Solution.outcome = .ok .infeasible :=
    ⟨_, rfl, by decide +kernel⟩
  have hunrepairable : t.Unrepairable 0 := ⟨habove, hneg, fun j h1 hj => hrow j hj h1⟩
  have hε : (⟨0, 20, none⟩ : Options ℚ).epsilon = 0 := rfl
  obtain ⟨solution, hsolve, -, hcuts, -, hinfeasible, -⟩ :=
    solve_of_unrepairable hcreate hunrepairable hε .never
  rw [hsolve] at hresult
  have ho : solution.outcome = .infeasible := Except.ok.inj hresult
  exact ⟨t, hcreate, hunrepairable, (hinfeasible.1 ho).2.2, solution, hsolve, ho, hcuts⟩

-- The row forbids everything, but it has no coefficient in the column that improves the objective.
theorem unbounded_of_unrepairable : ∃ t : Tableau ℚ,
    create ⟨2, 3, #v[-1, 0, 0, -1, 1, 0]⟩ ["x3", "F"] ["RHS", "x1", "x2"] = .ok t ∧ t.Unrepairable 0 ∧
      (t.solve ⟨0, 20, none⟩ .never).result.map Solution.outcome = .ok .unbounded := by
  obtain ⟨t, hcreate, habove, hneg, hrow, hresult⟩ : ∃ t : Tableau ℚ,
      create ⟨2, 3, #v[-1, 0, 0, -1, 1, 0]⟩ ["x3", "F"] ["RHS", "x1", "x2"] = .ok t ∧
        0 < t.objectiveRow ∧ t.rhs 0 < 0 ∧ (∀ j < t.width, 1 ≤ j → 0 ≤ t.entry 0 j) ∧
        (t.solve ⟨0, 20, none⟩ .never).result.map Solution.outcome = .ok .unbounded :=
    ⟨_, rfl, by decide +kernel⟩
  exact ⟨t, hcreate, ⟨habove, hneg, fun j h1 hj => hrow j hj h1⟩, hresult⟩

end Tableau
end CuttingPlane

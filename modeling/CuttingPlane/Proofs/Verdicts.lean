import CuttingPlane.Proofs.Feasible
import CuttingPlane.Proofs.Follow

/-!
# Verdicts of a pass

Exchanges keep the feasible assignments, so what the last tableau of a pass shows holds of the first one.
At tolerance zero every verdict is right: an optimum is feasible and unbeaten, an infeasible tableau has
no feasible assignment, and an unbounded column leads every one of them to any income.
-/

namespace CuttingPlane.Tableau

/-! ### Labels under exchanges -/

section Exchange

variable {α : Type} [Scalar α] {t u : Tableau α} {label : String}

theorem Exchange.labels_perm (h : Exchange t u) : u.labels.Perm t.labels := by
  obtain ⟨row, column, inside, -⟩ := h
  have hlt := t.objectiveRow_lt
  exact labels_pivot_perm (by omega) inside

theorem Exchange.wellLabelled (h : Exchange t u) (hl : t.WellLabelled) : u.WellLabelled := by
  obtain ⟨row, -, inside, -⟩ := h
  have hlt := t.objectiveRow_lt
  exact hl.pivot (by omega) inside

theorem Exchange.decision_eq (h : Exchange t u) : u.decision = t.decision := by
  obtain ⟨-, -, -, -⟩ := h
  rfl

theorem Exchange.rowLabel_objectiveRow (h : Exchange t u) :
    u.rowLabel u.objectiveRow = t.rowLabel t.objectiveRow := by
  obtain ⟨row, -, -, -⟩ := h
  exact rowLabel_objectiveRow_pivot row

theorem Exchange.restricted_iff (h : Exchange t u) : u.Restricted label ↔ t.Restricted label := by
  obtain ⟨row, column, inside, -⟩ := h
  exact restricted_pivot row column inside

theorem Exchanges.labels_perm (h : Exchanges t u) : u.labels.Perm t.labels := by
  induction h with
  | refl => exact .refl _
  | tail _ step ih => exact step.labels_perm.trans ih

theorem Exchanges.rowLabel_objectiveRow (h : Exchanges t u) :
    u.rowLabel u.objectiveRow = t.rowLabel t.objectiveRow := by
  induction h with
  | refl => rfl
  | tail _ step ih => exact step.rowLabel_objectiveRow.trans ih

theorem Exchanges.restricted_iff (h : Exchanges t u) : u.Restricted label ↔ t.Restricted label := by
  induction h with
  | refl => exact Iff.rfl
  | tail _ step ih => exact step.restricted_iff.trans ih

end Exchange

variable {t u : Tableau ℚ} {r s : ℕ} {v : String → ℚ}

/-! ### Pivots with a meaning -/

theorem pivot?_eq_ok_iff_ne :
    t.pivot? r s = .ok u ↔ r < t.height ∧ s < t.width ∧ t.entry r s ≠ 0 ∧ u = t.pivot r s := by
  rw [pivot?_eq_ok]
  exact and_congr_right' (and_congr_right' (and_congr_left' beq_eq_false_iff_ne))

theorem separates_of_nonneg {ε : ℚ} (hε : 0 ≤ ε) : Separates ε := by
  intro x hx
  refine beq_eq_false_iff_ne.2 fun hzero => ?_
  rw [hzero] at hx
  rcases hx with hneg | hpos
  · exact absurd hneg (not_lt.2 (neg_nonpos.2 hε))
  · exact absurd hpos (not_lt.2 hε)

theorem optimize_result {ε : ℚ} (hε : 0 ≤ ε) (t : Tableau ℚ) (budget : ℕ) :
    ∃ verdict, (t.optimize ε budget).result = .ok verdict :=
  exists_optimize (separates_of_nonneg hε) t budget

/-! ### What exchanges keep -/

theorem Exchange.solves_iff (h : Exchange t u) : u.Solves v ↔ t.Solves v := by
  obtain ⟨row, column, inside, nonzero⟩ := h
  have hlt := t.objectiveRow_lt
  exact solves_pivot_iff (by omega) column inside (beq_eq_false_iff_ne.1 nonzero)

theorem Exchange.feasible_iff (h : Exchange t u) : u.Feasible v ↔ t.Feasible v := by
  constructor
  · rintro ⟨hsolves, hnonneg⟩
    exact ⟨h.solves_iff.1 hsolves, fun label hlabel => hnonneg label (h.restricted_iff.2 hlabel)⟩
  · rintro ⟨hsolves, hnonneg⟩
    exact ⟨h.solves_iff.2 hsolves, fun label hlabel => hnonneg label (h.restricted_iff.1 hlabel)⟩

theorem Exchanges.solves_iff (h : Exchanges t u) : u.Solves v ↔ t.Solves v := by
  induction h with
  | refl => exact Iff.rfl
  | tail _ step ih => exact step.solves_iff.trans ih

theorem Exchanges.feasible_iff (h : Exchanges t u) : u.Feasible v ↔ t.Feasible v := by
  induction h with
  | refl => exact Iff.rfl
  | tail _ step ih => exact step.feasible_iff.trans ih

/-! ### What a halted search has seen -/

theorem rhs_nonneg_of_optimal (h : t.searchMove 0 = .halt .optimal) :
    ∀ i < t.objectiveRow, 0 ≤ t.rhs i := by
  obtain ⟨hrow, -⟩ := certifies_of_searchMove h
  intro i hi
  simpa using infeasibleRow?_eq_none.1 hrow i hi

theorem objective_nonneg_of_optimal (h : t.searchMove 0 = .halt .optimal) :
    ∀ j, 1 ≤ j → j < t.width → 0 ≤ t.entry t.objectiveRow j := by
  obtain ⟨-, hcolumn⟩ := certifies_of_searchMove h
  intro j h1 hj
  simpa using negativeColumn?_eq_none.1 hcolumn j h1 hj

/-- Where the search halts with an optimum, the vertex bounds every feasible assignment. -/
theorem Feasible.le_objective (hd : t.labels.Nodup) (h : t.searchMove 0 = .halt .optimal)
    (hv : t.Feasible v) : t.objectiveAt v ≤ t.objective :=
  hv.le_rhs hd t.objectiveRow_lt (objective_nonneg_of_optimal h)

theorem not_feasible_of_infeasible (hd : t.labels.Nodup)
    (h : t.searchMove 0 = .halt (.infeasible r)) : ¬ t.Feasible v := by
  obtain ⟨hrow, hcolumn, -⟩ := certifies_of_searchMove h
  obtain ⟨hr, hneg, -⟩ := infeasibleRow?_eq_some.1 hrow
  refine not_feasible_of_row hd hr (by simpa using hneg) fun j h1 hj => ?_
  simpa using negativeColumn?_eq_none.1 hcolumn j h1 hj

theorem unbounded_column (h : t.searchMove 0 = .halt (.unbounded s)) :
    1 ≤ s ∧ s < t.width ∧ t.entry t.objectiveRow s < 0 ∧ ∀ i < t.objectiveRow, t.entry i s ≤ 0 := by
  obtain ⟨hcolumn, hrow⟩ := certifies_of_searchMove h
  obtain ⟨h1, hs, hneg, -⟩ := negativeColumn?_eq_some.1 hcolumn
  refine ⟨h1, hs, by simpa using hneg, fun i hi => ?_⟩
  simpa using leavingRow?_eq_none.1 hrow i hi

theorem objectiveAt_raise_unbounded (hd : t.labels.Nodup) (hneg : t.entry t.objectiveRow s < 0)
    (v : String → ℚ) (bound : ℚ) : ∃ x₀, ∀ x, x₀ ≤ x → bound ≤ t.objectiveAt (t.raise s x v) := by
  refine ⟨(bound - t.objectiveAt v) / -t.entry t.objectiveRow s, fun x hx => ?_⟩
  rw [div_le_iff₀ (neg_pos.2 hneg)] at hx
  rw [objectiveAt_raise hd]
  linarith

/-! ### Verdicts -/

theorem rowLabel_objectiveRow_of_create {matrix : Grid ℚ} {basic nonbasic : List String}
    (h : create matrix basic nonbasic = .ok t) : t.rowLabel t.objectiveRow = objectiveLabel := by
  obtain ⟨-, hbasic, -, -, -, hlast⟩ := create_eq_ok h
  rw [← hlast, ← hbasic, List.getLast?_eq_getElem?, rowLabel_eq, List.getD_eq_getElem?_getD, length_basic,
    objectiveRow]

/-- The verdict on `t`, read at the tableau that the pass left, is right about the feasible assignments of
`t`: the vertex is one of them and unbeaten, there is none, or from each of them the objective grows
without bound as the variable of the column is raised. -/
def RightOf (t last : Tableau ℚ) : Verdict → Prop
  | .optimal => t.Feasible last.value ∧
      ∀ v, t.Feasible v → v objectiveLabel ≤ last.value objectiveLabel
  | .infeasible _ => ∀ v, ¬ t.Feasible v
  | .unbounded s => 1 ≤ s ∧ s < last.width ∧ ∀ v, t.Feasible v →
      (∀ x, 0 ≤ x → t.Feasible (last.raise s x v) ∧
        last.raise s x v (last.columnLabel s) = v (last.columnLabel s) + x) ∧
      ∀ bound, ∃ x₀, ∀ x, x₀ ≤ x → bound ≤ last.raise s x v objectiveLabel
  | .stalled => True

/-- A pass at tolerance zero over a tableau that was accepted gives a verdict, and it is right. -/
theorem optimize_verdict {matrix : Grid ℚ} {basic nonbasic : List String}
    (h : create matrix basic nonbasic = .ok t) (budget : ℕ) :
    ∃ verdict, (t.optimize 0 budget).result = .ok verdict ∧
      t.RightOf (t.optimize 0 budget).tableau verdict := by
  obtain ⟨verdict, hresult⟩ := optimize_result le_rfl t budget
  refine ⟨verdict, hresult, ?_⟩
  obtain ⟨-, -, -, -, hdistinct, -⟩ := create_eq_ok h
  have hexchanges := optimize_exchanges t 0 budget
  have hhalt := optimize_eq_ok hresult
  generalize (t.optimize 0 budget).tableau = last at hexchanges hhalt
  have hd : last.labels.Nodup := hexchanges.labels_perm.nodup_iff.2 hdistinct
  have hfeasible (v : String → ℚ) : last.Feasible v ↔ t.Feasible v := hexchanges.feasible_iff
  have hobjective (v : String → ℚ) : v objectiveLabel = last.objectiveAt v := by
    rw [objectiveAt, hexchanges.rowLabel_objectiveRow, rowLabel_objectiveRow_of_create h]
  cases verdict with
  | optimal =>
    have hmove := hhalt.resolve_right nofun
    refine ⟨(hfeasible _).1 (feasible_value hd (rhs_nonneg_of_optimal hmove)), fun v hv => ?_⟩
    calc v objectiveLabel = last.objectiveAt v := hobjective v
      _ ≤ last.objective := ((hfeasible v).2 hv).le_objective hd hmove
      _ = last.objectiveAt last.value := (objectiveAt_value hd).symm
      _ = last.value objectiveLabel := (hobjective _).symm
  | infeasible r =>
    intro v hv
    exact not_feasible_of_infeasible hd (hhalt.resolve_right nofun) ((hfeasible v).2 hv)
  | unbounded s =>
    obtain ⟨h1, hs, hneg, hcolumn⟩ := unbounded_column (hhalt.resolve_right nofun)
    refine ⟨h1, hs, fun v hv => ⟨fun x hx => ⟨?_, ?_⟩, fun bound => ?_⟩⟩
    · exact (hfeasible _).1 (((hfeasible v).2 hv).raise hd h1 hs hcolumn hx)
    · rw [raise_columnLabel hd hs hs, if_pos rfl]
    · obtain ⟨x₀, hx₀⟩ := objectiveAt_raise_unbounded hd hneg v bound
      refine ⟨x₀, fun x hx => ?_⟩
      rw [hobjective (last.raise s x v)]
      exact hx₀ x hx
  | stalled => trivial

-- One row has to be repaired before the objective is improved.
theorem optimize_verdict_optimal :
    ∃ t : Tableau ℚ,
      create ⟨3, 3, #v[-2, 10, 0, -1, 1, -3, -1, 2, -1]⟩ ["y0", "y1", "F"] ["RHS", "x0", "x1"] =
        .ok t ∧
      (t.optimize 0 10).result = .ok .optimal ∧ t.RightOf (t.optimize 0 10).tableau .optimal := by
  obtain ⟨t, ht, hresult⟩ : ∃ t : Tableau ℚ,
      create ⟨3, 3, #v[-2, 10, 0, -1, 1, -3, -1, 2, -1]⟩ ["y0", "y1", "F"] ["RHS", "x0", "x1"] =
        .ok t ∧ (t.optimize 0 10).result = .ok .optimal := ⟨_, rfl, by decide +kernel⟩
  obtain ⟨verdict, hverdict, hright⟩ := optimize_verdict ht 10
  obtain rfl := Except.ok.inj (hresult.symm.trans hverdict)
  exact ⟨t, ht, hresult, hright⟩

end CuttingPlane.Tableau

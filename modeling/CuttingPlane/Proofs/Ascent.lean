import CuttingPlane.Proofs.Answers
import CuttingPlane.Proofs.Certificates
import CuttingPlane.Proofs.Pivots

/-!
# Ascent

A pass at tolerance zero that begins where no right-hand side is negative stays there. The ratio test finds the
row whose right-hand side is the first to vanish as the entering variable grows, so none falls below zero, and
the objective grows by the least ratio for every unit that the objective row promises. Nothing is ever there to
repair. The first pass over a request begins like this, since no supply is negative.
-/

namespace CuttingPlane

namespace Tableau

variable {t : Tableau ℚ} {i r s : ℕ}

/-- No right-hand side is negative. -/
def FeasibleVertex (t : Tableau ℚ) : Prop := ∀ i < t.objectiveRow, 0 ≤ t.rhs i

/-- The first column that improves the objective enters, at the row with the least ratio of those that limit
it. -/
structure Ascends (t : Tableau ℚ) (r s : ℕ) : Prop where
  entering : t.FirstNegative 0 t.objectiveRow s
  row : r < t.objectiveRow
  limits : 0 < t.entry r s
  least : ∀ i < t.objectiveRow, 0 < t.entry i s → t.rhs r / t.entry r s ≤ t.rhs i / t.entry i s

/-! ### The ratio test -/

theorem leavingRow?_least (h : t.leavingRow? s 0 = some r) (hi : i < t.objectiveRow)
    (hpos : 0 < t.entry i s) : t.rhs r / t.entry r s ≤ t.rhs i / t.entry i s := by
  have hleast := (leavingRow?_eq_some_iff le_trans (fun _ _ _ _ _ _ => le_total ..) r).1 h
  exact hleast.1.2.2 i hi hpos

/-! ### One pivot -/

theorem rhs_pivot_self (hr : r < t.height) (hs : 1 ≤ s) :
    (t.pivot r s).rhs r = t.rhs r / t.entry r s := by
  have hcolumn : 0 ≠ s := by omega
  rw [rhs, entry_pivot t r s hr t.zero_lt_width, if_pos rfl, if_neg hcolumn, rhs]

theorem rhs_pivot_of_ne (hi : i < t.height) (hne : i ≠ r) (hs : 1 ≤ s) (hzero : t.entry r s ≠ 0) :
    (t.pivot r s).rhs i = t.rhs i - t.entry i s * (t.rhs r / t.entry r s) := by
  have hcolumn : 0 ≠ s := by omega
  rw [rhs, entry_pivot t r s hi t.zero_lt_width, if_neg hne, if_neg hcolumn, rhs, rhs]
  field_simp

theorem Ascends.ratio_nonneg (h : t.Ascends r s) (ht : t.FeasibleVertex) : 0 ≤ t.rhs r / t.entry r s :=
  div_nonneg (ht r h.row) h.limits.le

theorem Ascends.feasibleVertex (h : t.Ascends r s) (ht : t.FeasibleVertex) :
    (t.pivot r s).FeasibleVertex := by
  intro i hi
  rw [objectiveRow_pivot] at hi
  have hlast := t.objectiveRow_lt
  by_cases hrow : i = r
  · subst hrow
    rw [rhs_pivot_self (by omega) h.entering.column]
    exact h.ratio_nonneg ht
  · rw [rhs_pivot_of_ne (by omega) hrow h.entering.column h.limits.ne']
    rcases lt_or_ge 0 (t.entry i s) with hpos | hneg
    · have hratio := (le_div_iff₀ hpos).1 (h.least i hi hpos)
      linarith
    · have hterm := mul_nonpos_of_nonpos_of_nonneg hneg (h.ratio_nonneg ht)
      have hrhs := ht i hi
      linarith

theorem Ascends.objective_eq (h : t.Ascends r s) : (t.pivot r s).objective =
    t.objective + |t.entry t.objectiveRow s| * (t.rhs r / t.entry r s) := by
  have hne : t.objectiveRow ≠ r := by
    have := h.row
    omega
  have hneg : t.entry t.objectiveRow s < 0 := by simpa using h.entering.negative
  rw [objective, objectiveRow_pivot, rhs_pivot_of_ne t.objectiveRow_lt hne h.entering.column h.limits.ne',
    abs_of_neg hneg, objective]
  ring

theorem Ascends.objective_le (h : t.Ascends r s) (ht : t.FeasibleVertex) :
    t.objective ≤ (t.pivot r s).objective := by
  rw [h.objective_eq]
  exact le_add_of_nonneg_right (mul_nonneg (abs_nonneg _) (h.ratio_nonneg ht))

/-! ### Moves -/

theorem FeasibleVertex.no_infeasibleRow (ht : t.FeasibleVertex) : t.infeasibleRow? 0 = none := by
  apply infeasibleRow?_eq_none.2
  intro i hi
  simpa using ht i hi

theorem FeasibleVertex.repairMove_eq (ht : t.FeasibleVertex) : t.repairMove 0 = .halt .feasible := by
  rw [Tableau.repairMove_eq, ht.no_infeasibleRow]

theorem FeasibleVertex.restore_eq (ht : t.FeasibleVertex) (budget : ℕ) :
    t.restore 0 budget = ⟨.ok (.feasible, budget), t, []⟩ := by
  have hnotes : t.repairNotes 0 = [] := by rw [Tableau.repairNotes_eq, ht.repairMove_eq]
  have hfollow : (repairRule 0).follow budget t = ⟨.ok (.feasible, budget), t, t.repairNotes 0⟩ :=
    Rule.follow_of_halt ht.repairMove_eq budget
  rw [restore, hfollow, hnotes]

theorem FeasibleVertex.ascends_of_searchMove (ht : t.FeasibleVertex) {purpose : Purpose}
    (h : t.searchMove 0 = .pivot purpose r s) : purpose = .improve ∧ t.Ascends r s := by
  rcases searchMove_eq_pivot h with ⟨-, hrow, -⟩ | ⟨rfl, hentering, hleaving⟩
  · rw [ht.no_infeasibleRow] at hrow
    cases hrow
  · obtain ⟨hr, hpos⟩ := leavingRow?_pos hleaving
    exact ⟨rfl, negativeColumn?_eq_some_iff.1 hentering, hr, hpos, fun i => leavingRow?_least hleaving⟩

end Tableau

open Tableau

/-! ### Passes -/

section Passes

variable {t : Tableau ℚ}

/-- A pivot ascends: it leads to a feasible vertex, and the objective grows by what the objective row promises
for the least ratio. Nothing is repaired. -/
def Event.Ascends (t : Tableau ℚ) : Event ℚ → Prop
  | pivoted r s _ _ after => after = t.pivot r s ∧ t.Ascends r s ∧ after.FeasibleVertex ∧
      after.objective = t.objective + |t.entry t.objectiveRow s| * (t.rhs r / t.entry r s) ∧
      t.objective ≤ after.objective
  | repairing _ => False
  | repairsSpent _ => False
  | _ => True

/-- The event of a pass that ascends, at a tableau where there is nothing to repair. -/
structure Event.AscendsAt (t : Tableau ℚ) (e : Event ℚ) : Prop where
  vertex : t.FeasibleVertex
  restored : ∀ budget, t.restore 0 budget = ⟨.ok (.feasible, budget), t, []⟩
  ascends : e.Ascends t

/-- Every event of the run ascends, and the run leads to a feasible vertex that is no worse. -/
structure Run.Ascends {ρ : Type} (run : Run ℚ ρ) (t : Tableau ℚ) : Prop where
  leads : t.replay run.events = run.tableau
  events : Along Event.AscendsAt t run.events
  vertex : run.tableau.FeasibleVertex
  objective_le : t.objective ≤ run.tableau.objective

theorem Tableau.ascends_searchNotes (t : Tableau ℚ) : ∀ e ∈ t.searchNotes 0, e.Ascends t := by
  intro e he
  rcases mem_searchNotes he with ⟨i, label, x, rfl⟩ | ⟨i, x, rfl⟩ | ⟨j, label, rfl⟩ | ⟨rfl, -⟩ <;> trivial

theorem Tableau.FeasibleVertex.along_notes (ht : t.FeasibleVertex) {events : List (Event ℚ)}
    (hnotes : ∀ e ∈ events, e.IsNote) (h : ∀ e ∈ events, e.Ascends t) :
    Along Event.AscendsAt t events :=
  CuttingPlane.along_notes hnotes fun e he => ⟨ht, ht.restore_eq, h e he⟩

theorem Tableau.FeasibleVertex.along_choice (ht : t.FeasibleVertex) (limit r : ℕ) :
    Along Event.AscendsAt t ((searchRule 0 limit).choice t .improve r) := by
  refine ht.along_notes ((Rule.searchRule_searches 0 limit).isNote_choice t .improve r) ?_
  simpa [Rule.choice, Purpose.announce, searchRule] using t.ascends_searchNotes

theorem Tableau.FeasibleVertex.follow_ascends (ht : t.FeasibleVertex) (limit budget : ℕ) :
    ((searchRule 0 limit).follow budget t).Ascends t := by
  revert ht
  have hsearches := Rule.searchRule_searches (0 : ℚ) limit
  refine hsearches.follow_induction (P := fun t run => t.FeasibleVertex → run.Ascends t) ?halt ?spent ?fault
    ?pivot budget t
  case halt =>
    intro t verdict left _ ht
    exact ⟨replay_notes (hsearches.notes t) t, ht.along_notes (hsearches.notes t) t.ascends_searchNotes, ht,
      le_rfl⟩
  case spent =>
    intro t purpose r s hmove ht
    obtain ⟨rfl, -⟩ := ht.ascends_of_searchMove hmove
    have hnotes := hsearches.isNote_spent t .improve r
    refine ⟨replay_notes hnotes t, ht.along_notes hnotes ?_, ht, le_rfl⟩
    intro e he
    rcases List.mem_append.1 he with he | he
    · exact t.ascends_searchNotes e he
    · obtain rfl := List.mem_singleton.1 he
      trivial
  case fault =>
    intro t purpose r s hmove hzero ht
    exact absurd (eq_of_beq hzero) (ht.ascends_of_searchMove hmove).2.limits.ne'
  case pivot =>
    intro t purpose r s rest hmove _ ih ht
    obtain ⟨rfl, hascends⟩ := ht.ascends_of_searchMove hmove
    have hvertex := hascends.feasibleVertex ht
    have hgrows := hascends.objective_le ht
    have hrest := ih hvertex
    have hmade : (t.made r s).Ascends t := ⟨rfl, hascends, hvertex, hascends.objective_eq, hgrows⟩
    have hpivot : Along Event.AscendsAt t [t.announced r s, t.made r s] :=
      ⟨⟨ht, ht.restore_eq, trivial⟩, ⟨ht, ht.restore_eq, hmade⟩, trivial⟩
    have hchoice := replay_notes (hsearches.isNote_choice t .improve r) t
    refine ⟨?_, ?_, hrest.vertex, hgrows.trans hrest.objective_le⟩
    · rw [replay_append, replay_append, hchoice]
      exact hrest.leads
    · rw [along_append, along_append, replay_append, hchoice]
      exact ⟨⟨ht.along_choice limit r, hpivot⟩, hrest.events⟩

theorem Tableau.FeasibleVertex.optimize_ascends (ht : t.FeasibleVertex) (budget : ℕ) :
    (t.optimize 0 budget).Ascends t := by
  obtain ⟨hleads, hevents, hvertex, hobjective⟩ := ht.follow_ascends budget budget
  exact ⟨hleads, hevents, hvertex, hobjective⟩

theorem Tableau.FeasibleVertex.exists_verdict (ht : t.FeasibleVertex) (budget : ℕ) :
    ∃ verdict, (t.optimize 0 budget).result = .ok verdict ∧ ∀ r, verdict ≠ .infeasible r := by
  obtain ⟨verdict, hresult⟩ := optimize_result le_rfl t budget
  refine ⟨verdict, hresult, ?_⟩
  rintro r rfl
  have hhalt := (optimize_eq_ok hresult).resolve_right nofun
  obtain ⟨hrow, -⟩ := certifies_of_searchMove hhalt
  have hnone := (ht.optimize_ascends budget).vertex.no_infeasibleRow
  cases hnone.symm.trans hrow

end Passes

/-! ### Requests -/

namespace Plan

variable {request : PlanRequest ℚ} {flag : StopFlag ℚ} {t : Tableau ℚ}

theorem proper_of_solving (h : solving (compute request flag).events ≠ []) : request.Proper := by
  apply PlanRequest.proper_iff.2
  unfold compute at h
  split at h
  · exact absurd rfl h
  · rename_i hshape
    refine ⟨hshape, ?_⟩
    split at h
    · assumption
    · exact absurd rfl h

theorem solving_compute (h : request.Proper) (htableau : request.problem.tableau = .ok t) :
    solving (compute request flag).events = (t.solve request.options flag).events := by
  obtain ⟨hshape, hnumbers⟩ := PlanRequest.proper_iff.1 h
  have hsolve : solving (solveProblem request.problem request.options flag).events =
      (t.solve request.options flag).events := by
    rw [solveProblem_eq, htableau]
    dsimp only
    split
    · exact solving_map _
    · rw [solving_append, solving_map]
      exact List.append_nil _
  unfold compute
  rw [hshape, hnumbers]
  dsimp only
  rw [solving_append, hsolve]
  rfl

theorem feasibleVertex_of_proper (h : request.Proper) (htableau : request.problem.tableau = .ok t) :
    t.FeasibleVertex := by
  have hposes := Problem.poses_of_tableau htableau
  intro i hi
  rw [hposes.objectiveRow_eq] at hi
  rw [rhs, hposes.entry i hi.le 0 (Nat.zero_le _), Problem.startingEntry_eq, if_neg hi.ne]
  exact Problem.getD_of_forall_mem h.supply_nonneg le_rfl i

/-- A pass at tolerance zero from a feasible vertex ascends, and its verdict is never that nothing is feasible.
Every solve that a request comes to begins at a feasible vertex, and if it is not stopped at once, with a pass
from there. -/
theorem first_pass_ascends :
    (∀ (t : Tableau ℚ) (budget : ℕ), t.FeasibleVertex → (t.optimize 0 budget).Ascends t ∧
      ∃ verdict, (t.optimize 0 budget).result = .ok verdict ∧ ∀ r, verdict ≠ .infeasible r) ∧
    ∀ (request : PlanRequest ℚ) (flag : StopFlag ℚ), solving (compute request flag).events ≠ [] →
        ∃ t, request.problem.tableau = .ok t ∧ t.FeasibleVertex ∧
          (flag.raised [] = false → .round 1 ::
            (t.optimize request.options.epsilon (request.options.pivotLimit t)).events <+:
              solving (compute request flag).events) := by
  constructor
  · intro t budget ht
    exact ⟨ht.optimize_ascends budget, ht.exists_verdict budget⟩
  · intro request flag hsolving
    have hproper := proper_of_solving hsolving
    obtain ⟨t, htableau⟩ := hproper.exists_tableau
    refine ⟨t, htableau, feasibleVertex_of_proper hproper htableau, ?_⟩
    intro hflag
    have hdown : ¬ flag.raised [] = true := by simp [hflag]
    obtain ⟨rest, hrounds⟩ := exists_rounds_events request.options request.options.maxCuts 0 t hdown
    obtain ⟨more, hround, -⟩ := runRound_events request.options 0 t
    rw [solving_compute hproper htableau, solve, hrounds, hround, List.append_assoc]
    exact List.prefix_append _ _

-- Two resources limit the first pivot alike, so the second one has the ratio zero and earns nothing more.
theorem first_pass_ascends_toys : ∃ t : Tableau ℚ,
    (⟨[150, 130, 30], [[5, 2], [2, 3], [1, 7]], [10, 20]⟩ : Problem ℚ).tableau = .ok t ∧
      t.FeasibleVertex ∧ (t.optimize 0 70).Ascends t ∧
      (t.optimize 0 1).tableau.objective = 300 ∧ (t.optimize 0 70).tableau.objective = 300 ∧
      .round 1 :: (t.optimize 0 70).events <+: solving (compute
        ⟨[150, 130, 30], [[5, 2], [2, 3], [1, 7]], [10, 20], ⟨0, 20, none⟩⟩ .never).events := by
  obtain ⟨t, htableau, hone, hlast, hlimit⟩ : ∃ t : Tableau ℚ,
      (⟨[150, 130, 30], [[5, 2], [2, 3], [1, 7]], [10, 20]⟩ : Problem ℚ).tableau = .ok t ∧
        (t.optimize 0 1).tableau.objective = 300 ∧ (t.optimize 0 70).tableau.objective = 300 ∧
        (⟨0, 20, none⟩ : Options ℚ).pivotLimit t = 70 := ⟨_, rfl, by decide +kernel⟩
  have hsolving : solving (compute (α := ℚ)
      ⟨[150, 130, 30], [[5, 2], [2, 3], [1, 7]], [10, 20], ⟨0, 20, none⟩⟩ .never).events ≠ [] :=
    List.ne_nil_of_length_pos (by decide +kernel)
  obtain ⟨hascends, hstart⟩ := first_pass_ascends
  obtain ⟨t', htableau', hvertex, hpass⟩ := hstart _ _ hsolving
  obtain rfl := Except.ok.inj (htableau.symm.trans htableau')
  have hprefix := hpass rfl
  rw [hlimit] at hprefix
  exact ⟨t, htableau, hvertex, (hascends t 70 hvertex).1, hone, hlast, hprefix⟩

end Plan
end CuttingPlane

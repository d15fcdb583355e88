import CuttingPlane.Proofs.Budgets

/-!
# Certificates

The entries of the tableau that a pass leaves show its verdict to be right, and no other: at every tableau
exactly one of the verdicts is attested by the signs of the right-hand sides, of the objective and of a single
row or column. A comparison with a NaN fails, so such an entry counts neither as negative nor as positive. The
budget is accounted for to the last pivot.
-/

namespace CuttingPlane

variable {α : Type} [Scalar α]

namespace Tableau

/-- `r` is the first row with a negative right-hand side. -/
structure FirstInfeasible (t : Tableau α) (ε : α) (r : Nat) : Prop where
  row : r < t.objectiveRow
  negative : t.rhs r < -ε
  first : ∀ i < r, ¬ t.rhs i < -ε

/-- `s` is the first column with a negative coefficient in row `i`. -/
structure FirstNegative (t : Tableau α) (ε : α) (i s : Nat) : Prop where
  column : 1 ≤ s
  inside : s < t.width
  negative : t.entry i s < -ε
  first : ∀ j, 1 ≤ j → j < s → ¬ t.entry i j < -ε

/-- Row `i` has no negative coefficient. -/
def NoNegative (t : Tableau α) (ε : α) (i : Nat) : Prop :=
  ∀ j, 1 ≤ j → j < t.width → ¬ t.entry i j < -ε

/-- The first row with a negative right-hand side has a negative coefficient. -/
def Repairable (t : Tableau α) (ε : α) : Prop := ∃ r s, t.FirstInfeasible ε r ∧ t.FirstNegative ε r s

/-- A row limits the first column that improves the objective. -/
def Improvable (t : Tableau α) (ε : α) : Prop :=
  ∃ r s, t.FirstNegative ε t.objectiveRow s ∧ r < t.objectiveRow ∧ ε < t.entry r s

/-- The entries of the tableau show the verdict to be right; a pass is stalled where there is a pivot to
make. -/
def Attests (t : Tableau α) (ε : α) : Verdict → Prop
  | .optimal => (∀ i < t.objectiveRow, ¬ t.rhs i < -ε) ∧ t.NoNegative ε t.objectiveRow
  | .unbounded s => ¬ t.Repairable ε ∧ t.FirstNegative ε t.objectiveRow s ∧
      ∀ i < t.objectiveRow, ¬ ε < t.entry i s
  | .infeasible r => t.FirstInfeasible ε r ∧ t.NoNegative ε r ∧ t.NoNegative ε t.objectiveRow
  | .stalled => t.Repairable ε ∨ t.Improvable ε

variable {t : Tableau α} {ε : α} {i r s : Nat}

/-! ### What the scans show -/

theorem infeasibleRow?_eq_some_iff : t.infeasibleRow? ε = some r ↔ t.FirstInfeasible ε r := by
  rw [infeasibleRow?_eq_some]
  exact ⟨fun ⟨row, negative, first⟩ => ⟨row, negative, first⟩, fun h => ⟨h.row, h.negative, h.first⟩⟩

theorem negativeColumn?_eq_some_iff : t.negativeColumn? i ε = some s ↔ t.FirstNegative ε i s := by
  rw [negativeColumn?_eq_some]
  constructor
  · rintro ⟨column, inside, negative, first⟩
    exact ⟨column, inside, negative, first⟩
  · intro h
    exact ⟨h.column, h.inside, h.negative, h.first⟩

theorem exists_leavingRow?_iff :
    (∃ r, t.leavingRow? s ε = some r) ↔ ∃ r < t.objectiveRow, ε < t.entry r s := by
  constructor
  · rintro ⟨r, h⟩
    exact ⟨r, leavingRow?_pos h⟩
  · rintro ⟨r, hr, hpos⟩
    apply Option.ne_none_iff_exists'.1
    intro h
    exact leavingRow?_eq_none.1 h r hr hpos

/-! ### Moves and verdicts -/

theorem repairable_iff : t.Repairable ε ↔ ∃ purpose r s, t.repairMove ε = .pivot purpose r s := by
  constructor
  · rintro ⟨r, s, hrow, hcolumn⟩
    refine ⟨.repair, r, s, ?_⟩
    simp [repairMove_eq, infeasibleRow?_eq_some_iff.2 hrow, negativeColumn?_eq_some_iff.2 hcolumn]
  · rintro ⟨purpose, r, s, h⟩
    obtain ⟨-, hrow, hcolumn⟩ := repairMove_eq_pivot h
    exact ⟨r, s, infeasibleRow?_eq_some_iff.1 hrow, negativeColumn?_eq_some_iff.1 hcolumn⟩

theorem exists_halt_of_not_repairable (h : ¬ t.Repairable ε) :
    ∃ state, t.repairMove ε = .halt state := by
  cases hmove : t.repairMove ε with
  | halt state => exact ⟨state, rfl⟩
  | pivot purpose r s => exact absurd (repairable_iff.2 ⟨purpose, r, s, hmove⟩) h

theorem attests_of_halt {verdict : Verdict} (h : t.searchMove ε = .halt verdict) :
    t.Attests ε verdict := by
  have hcertifies := certifies_of_searchMove h
  cases verdict with
  | optimal => exact ⟨infeasibleRow?_eq_none.1 hcertifies.1, negativeColumn?_eq_none.1 hcertifies.2⟩
  | unbounded s =>
    refine ⟨?_, negativeColumn?_eq_some_iff.1 hcertifies.1, leavingRow?_eq_none.1 hcertifies.2⟩
    intro hrepairable
    obtain ⟨purpose, i, j, hrepair⟩ := repairable_iff.1 hrepairable
    simp [searchMove_eq, hrepair] at h
  | infeasible r =>
    obtain ⟨hrow, hcolumn, hentering⟩ := hcertifies
    exact ⟨infeasibleRow?_eq_some_iff.1 hrow, negativeColumn?_eq_none.1 hcolumn,
      negativeColumn?_eq_none.1 hentering⟩
  | stalled => exact False.elim hcertifies

theorem attests_of_pivot {purpose : Purpose} (h : t.searchMove ε = .pivot purpose r s) :
    t.Attests ε .stalled := by
  rcases searchMove_eq_pivot h with ⟨-, hrow, hcolumn⟩ | ⟨-, hentering, hleaving⟩
  · exact .inl ⟨r, s, infeasibleRow?_eq_some_iff.1 hrow, negativeColumn?_eq_some_iff.1 hcolumn⟩
  · exact .inr ⟨r, s, negativeColumn?_eq_some_iff.1 hentering, leavingRow?_pos hleaving⟩

theorem searchMove_of_attests {verdict : Verdict} (h : t.Attests ε verdict) :
    t.searchMove ε = .halt verdict ∨ verdict = .stalled ∧ ∃ purpose r s, t.searchMove ε = .pivot purpose r s := by
  cases verdict with
  | optimal =>
    have hrow := infeasibleRow?_eq_none.2 h.1
    have hentering : t.enteringColumn? ε = none := negativeColumn?_eq_none.2 h.2
    exact .inl (by simp [searchMove_eq, repairMove_eq, hrow, hentering])
  | unbounded s =>
    obtain ⟨hrepairable, hnegative, hlimits⟩ := h
    obtain ⟨state, hrepair⟩ := exists_halt_of_not_repairable hrepairable
    have hentering : t.enteringColumn? ε = some s := negativeColumn?_eq_some_iff.2 hnegative
    exact .inl (by simp [searchMove_eq, hrepair, hentering, leavingRow?_eq_none.2 hlimits])
  | infeasible r =>
    obtain ⟨hfirst, hcoefficients, hobjective⟩ := h
    have hrow := infeasibleRow?_eq_some_iff.2 hfirst
    have hentering : t.enteringColumn? ε = none := negativeColumn?_eq_none.2 hobjective
    exact .inl (by simp [searchMove_eq, repairMove_eq, hrow, negativeColumn?_eq_none.2 hcoefficients, hentering])
  | stalled =>
    refine .inr ⟨rfl, ?_⟩
    by_cases hrepairable : t.Repairable ε
    · obtain ⟨purpose, r, s, hrepair⟩ := repairable_iff.1 hrepairable
      exact ⟨purpose, r, s, by simp [searchMove_eq, hrepair]⟩
    · obtain ⟨r, s, hnegative, hlimit⟩ := h.resolve_left hrepairable
      obtain ⟨state, hrepair⟩ := exists_halt_of_not_repairable hrepairable
      obtain ⟨k, hleaving⟩ := exists_leavingRow?_iff.2 ⟨r, hlimit⟩
      have hentering : t.enteringColumn? ε = some s := negativeColumn?_eq_some_iff.2 hnegative
      exact ⟨.improve, k, s, by simp [searchMove_eq, hrepair, hentering, hleaving]⟩

theorem Attests.unique {verdict other : Verdict} (h : t.Attests ε verdict) (h' : t.Attests ε other) :
    other = verdict := by
  rcases searchMove_of_attests h with hmove | ⟨rfl, purpose, r, s, hmove⟩
  · rcases searchMove_of_attests h' with hmove' | ⟨-, purpose, r, s, hmove'⟩
    · exact Move.halt.inj (hmove'.symm.trans hmove)
    · rw [hmove] at hmove'
      cases hmove'
  · rcases searchMove_of_attests h' with hmove' | ⟨rfl, -⟩
    · rw [hmove] at hmove'
      cases hmove'
    · rfl

/-! ### Passes -/

variable {budget : Nat}

theorem optimize_attests {verdict : Verdict} (h : (t.optimize ε budget).result = .ok verdict) :
    (t.optimize ε budget).tableau.Attests ε verdict := by
  obtain ⟨⟨answer, left⟩, hfollow, rfl⟩ := map_eq_ok_iff.1 h
  obtain ⟨n, rest, -, -, hends⟩ := (searchRule ε budget).follow_path budget t
  rw [hfollow] at hends
  rcases hends.2 with hhalt | ⟨-, rfl, purpose, r, s, hpivot⟩
  · exact attests_of_halt hhalt
  · exact attests_of_pivot hpivot

theorem left_eq_zero_of_stalled {left : Nat} (h : (t.restore ε budget).result = .ok (.stalled, left)) :
    left = 0 := by
  obtain ⟨n, rest, -, -, hends⟩ := (repairRule ε).follow_path budget t
  rw [show ((repairRule ε).follow budget t).result = .ok (.stalled, left) from h] at hends
  obtain ⟨rfl, hhalt | ⟨hleft, -⟩⟩ := hends
  · rcases repairMove_eq_halt hhalt with ⟨hstate, -⟩ | ⟨r, hstate, -⟩ <;> cases hstate
  · exact hleft

/-- A pass ends with the only verdict that the tableau it leaves attests. It makes at most as many pivots as
its budget has, and all of them if it stalls. A repair hands back the pivots that it did not make, and none if
it stalls. -/
theorem optimize_certified {ε : Float} (hε : ¬ ε < 0) (t : Tableau Float) (budget : Nat) :
    (∃ verdict, (t.optimize ε budget).result = .ok verdict ∧
      (∀ other, (t.optimize ε budget).tableau.Attests ε other ↔ other = verdict) ∧
      pivotsIn (t.optimize ε budget).events ≤ budget ∧
      (verdict = .stalled → pivotsIn (t.optimize ε budget).events = budget)) ∧
    ∃ state left, (t.restore ε budget).result = .ok (state, left) ∧
      pivotsIn (t.restore ε budget).events + left = budget ∧ (state = .stalled → left = 0) := by
  have hseparates := Binary64.separates_of_not_neg hε
  constructor
  · obtain ⟨verdict, hresult⟩ := exists_optimize hseparates t budget
    have hattests := optimize_attests hresult
    refine ⟨verdict, hresult, ?_, pivotsIn_optimize_le t ε budget, ?_⟩
    · intro other
      exact ⟨fun hother => hattests.unique hother, fun hother => hother ▸ hattests⟩
    · rintro rfl
      exact pivotsIn_of_stalled hresult
  · have hrepairs := Rule.repairRule_searches ε
    obtain ⟨⟨state, left⟩, hresult⟩ := hrepairs.exists_result hseparates budget t
    refine ⟨state, left, hresult, hrepairs.pivotsIn_add_left hresult, ?_⟩
    rintro rfl
    exact left_eq_zero_of_stalled hresult

-- The repair needs both pivots, and there is none left for the column that improves then.
theorem optimize_certified_repair : ∃ t : Tableau Float,
    create ⟨4, 3, #v[-2, -3, 10, 0, -1, -1, 1, -3, -1, -2, 2, -1]⟩ ["y0", "y1", "y2", "F"]
        ["RHS", "x0", "x1"] = .ok t ∧
      (t.optimize 1e-6 2).result = .ok .stalled ∧ (t.optimize 1e-6 2).tableau.Attests 1e-6 .stalled ∧
      ¬ (t.optimize 1e-6 2).tableau.Attests 1e-6 .optimal ∧ pivotsIn (t.optimize 1e-6 2).events = 2 ∧
      (t.restore 1e-6 5).result = .ok (.feasible, 3) ∧ pivotsIn (t.restore 1e-6 5).events = 2 := by
  have hε : ¬ (1e-6 : Float) < 0 := by decide +kernel
  obtain ⟨t, ht, hoptimize, hrestore⟩ : ∃ t : Tableau Float,
      create ⟨4, 3, #v[-2, -3, 10, 0, -1, -1, 1, -3, -1, -2, 2, -1]⟩ ["y0", "y1", "y2", "F"]
          ["RHS", "x0", "x1"] = .ok t ∧
        (t.optimize 1e-6 2).result = .ok .stalled ∧
        (t.restore 1e-6 5).result = .ok (.feasible, 3) := ⟨_, rfl, by decide +kernel⟩
  obtain ⟨⟨verdict, hresult, hattests, -, hall⟩, -⟩ := optimize_certified hε t 2
  obtain ⟨-, state, left, hrestored, hsum, -⟩ := optimize_certified hε t 5
  obtain rfl := Except.ok.inj (hresult.symm.trans hoptimize)
  obtain ⟨rfl, rfl⟩ := Prod.mk.inj (Except.ok.inj (hrestored.symm.trans hrestore))
  refine ⟨t, ht, hoptimize, (hattests .stalled).2 rfl, ?_, hall rfl, hrestore, by omega⟩
  intro hoptimal
  cases (hattests .optimal).1 hoptimal

end Tableau
end CuttingPlane

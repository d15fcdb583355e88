import CuttingPlane.Proofs.Labels
import CuttingPlane.Proofs.Scans
import Mathlib.Logic.Relation

/-!
# Passes

What a search may do at a tableau, said once: where it pivots and what it has seen when it halts. A pass
that follows a rule is a path of pivots that the rule asked for, no longer than the budget, and it ends
where the rule halts, where the budget is spent, or at a pivot that has no meaning.
-/

namespace CuttingPlane

section Results

variable {ε β γ : Type} {f : β → γ} {x : Except ε β}

theorem map_eq_ok_iff {c : γ} : x.map f = .ok c ↔ ∃ b, x = .ok b ∧ f b = c := by
  cases x <;> simp [Except.map]

end Results

variable {α : Type} [Scalar α]

namespace Tableau

variable {t u : Tableau α} {ε : α} {r s : Nat}

/-! ### Moves of a search -/

/-- What a verdict says of the tableau that the search halted at. -/
def Certifies (t : Tableau α) (ε : α) : Verdict → Prop
  | .optimal => t.infeasibleRow? ε = none ∧ t.enteringColumn? ε = none
  | .unbounded s => t.enteringColumn? ε = some s ∧ t.leavingRow? s ε = none
  | .infeasible r =>
    t.infeasibleRow? ε = some r ∧ t.negativeColumn? r ε = none ∧ t.enteringColumn? ε = none
  | .stalled => False

theorem repairMove_eq_pivot {purpose : Purpose} (h : t.repairMove ε = .pivot purpose r s) :
    purpose = .repair ∧ t.infeasibleRow? ε = some r ∧ t.negativeColumn? r ε = some s := by
  rw [repairMove_eq] at h
  cases hrow : t.infeasibleRow? ε with
  | none => simp [hrow] at h
  | some i =>
    cases hcolumn : t.negativeColumn? i ε with
    | none => simp [hrow, hcolumn] at h
    | some j =>
      simp only [hrow, hcolumn, Move.pivot.injEq] at h
      obtain ⟨hp, rfl, rfl⟩ := h
      exact ⟨hp.symm, rfl, hcolumn⟩

theorem repairMove_eq_halt {state : Feasibility} (h : t.repairMove ε = .halt state) :
    (state = .feasible ∧ t.infeasibleRow? ε = none) ∨
      ∃ r, state = .stuck r ∧ t.infeasibleRow? ε = some r ∧ t.negativeColumn? r ε = none := by
  rw [repairMove_eq] at h
  cases hrow : t.infeasibleRow? ε with
  | none =>
    simp only [hrow, Move.halt.injEq] at h
    exact .inl ⟨h.symm, rfl⟩
  | some i =>
    cases hcolumn : t.negativeColumn? i ε with
    | none =>
      simp only [hrow, hcolumn, Move.halt.injEq] at h
      exact .inr ⟨i, h.symm, rfl, hcolumn⟩
    | some j => simp [hrow, hcolumn] at h

theorem searchMove_eq_pivot {purpose : Purpose} (h : t.searchMove ε = .pivot purpose r s) :
    (purpose = .repair ∧ t.infeasibleRow? ε = some r ∧ t.negativeColumn? r ε = some s) ∨
      (purpose = .improve ∧ t.enteringColumn? ε = some s ∧ t.leavingRow? s ε = some r) := by
  rw [searchMove_eq] at h
  cases hrepair : t.repairMove ε with
  | pivot p i j =>
    simp only [hrepair, Move.pivot.injEq] at h
    obtain ⟨rfl, rfl, rfl⟩ := h
    exact .inl (repairMove_eq_pivot hrepair)
  | halt state =>
    cases hentering : t.enteringColumn? ε with
    | none => cases state <;> simp [hrepair, hentering] at h
    | some j =>
      cases hleaving : t.leavingRow? j ε with
      | none => simp [hrepair, hentering, hleaving] at h
      | some i =>
        simp only [hrepair, hentering, hleaving, Move.pivot.injEq] at h
        obtain ⟨hp, rfl, rfl⟩ := h
        exact .inr ⟨hp.symm, rfl, hleaving⟩

theorem certifies_of_searchMove {verdict : Verdict} (h : t.searchMove ε = .halt verdict) :
    t.Certifies ε verdict := by
  rw [searchMove_eq] at h
  cases hrepair : t.repairMove ε with
  | pivot p i j => simp [hrepair] at h
  | halt state =>
    cases hentering : t.enteringColumn? ε with
    | none =>
      rcases repairMove_eq_halt hrepair with ⟨rfl, hrow⟩ | ⟨r, rfl, hrow, hcolumn⟩
      · simp only [hrepair, hentering, Move.halt.injEq] at h
        subst h
        exact ⟨hrow, hentering⟩
      · simp only [hrepair, hentering, Move.halt.injEq] at h
        subst h
        exact ⟨hrow, hcolumn, hentering⟩
    | some j =>
      cases hleaving : t.leavingRow? j ε with
      | none =>
        simp only [hrepair, hentering, hleaving, Move.halt.injEq] at h
        subst h
        exact ⟨hentering, hleaving⟩
      | some i => simp [hrepair, hentering, hleaving] at h

/-- What a search leaves besides its move. -/
theorem mem_searchNotes {e : Event α} (h : e ∈ t.searchNotes ε) :
    (∃ i label x, e = .stuck i label x) ∨ (∃ i x, e = .ratio i x) ∨
      (∃ j label, e = .unlimited j label) ∨ (e = .optimum t ∧ t.searchMove ε = .halt .optimal) := by
  rw [searchNotes_eq] at h
  cases hrepair : t.repairMove ε with
  | pivot purpose i j => simp [hrepair] at h
  | halt state =>
    simp only [hrepair] at h
    rcases List.mem_append.1 h with h | h
    · rw [repairNotes_eq] at h
      split at h
      · obtain rfl := List.mem_singleton.1 h
        exact .inl ⟨_, _, _, rfl⟩
      · cases h
    rw [improveNotes_eq] at h
    cases hentering : t.enteringColumn? ε with
    | none =>
      simp only [hentering] at h
      split at h
      · rename_i hstate
        obtain rfl := List.mem_singleton.1 h
        exact .inr (.inr (.inr ⟨rfl, by simp [searchMove_eq, hrepair, hentering, hstate]⟩))
      · cases h
    | some j =>
      have htests (h : e ∈ t.ratioNotes j ε) : ∃ i x, e = .ratio i x := by
        obtain ⟨p, -, rfl⟩ := List.mem_map.1 h
        exact ⟨_, _, rfl⟩
      cases hleaving : t.leavingRow? j ε with
      | none =>
        simp only [hentering, hleaving, List.mem_append, List.mem_singleton] at h
        rcases h with h | rfl
        · exact .inr (.inl (htests h))
        · exact .inr (.inr (.inl ⟨_, _, rfl⟩))
      | some i =>
        simp only [hentering, hleaving] at h
        exact .inr (.inl (htests h))

/-- A search pivots above the objective and right of the right-hand sides, on an entry that its
tolerance tells from zero. -/
theorem searchMove_position {purpose : Purpose} (h : t.searchMove ε = .pivot purpose r s) :
    r < t.objectiveRow ∧ 1 ≤ s ∧ s < t.width ∧ (t.entry r s < -ε ∨ ε < t.entry r s) := by
  rcases searchMove_eq_pivot h with ⟨-, hrow, hcolumn⟩ | ⟨-, hentering, hleaving⟩
  · obtain ⟨hs, hlt, hneg, -⟩ := negativeColumn?_eq_some.1 hcolumn
    exact ⟨(infeasibleRow?_eq_some.1 hrow).1, hs, hlt, .inl hneg⟩
  · obtain ⟨hs, hlt, -, -⟩ := negativeColumn?_eq_some.1 hentering
    obtain ⟨hr, hpos⟩ := leavingRow?_pos hleaving
    exact ⟨hr, hs, hlt, .inr hpos⟩

/-! ### Single pivots -/

theorem pivot?_eq_ok : t.pivot? r s = .ok u ↔
    r < t.height ∧ s < t.width ∧ (t.entry r s == 0) = false ∧ u = t.pivot r s := by
  unfold pivot?
  by_cases hin : r < t.height ∧ s < t.width
  · rw [if_pos hin]
    cases hzero : t.entry r s == 0 with
    | true => simp
    | false =>
      simp only [Bool.false_eq_true, if_false, Except.ok.injEq, true_and]
      exact ⟨fun h => ⟨hin.1, hin.2, h.symm⟩, fun h => h.2.2.symm⟩
  · rw [if_neg hin]
    simp only [reduceCtorEq, false_iff]
    exact fun h => hin ⟨h.1, h.2.1⟩

/-- The announcement of a pivot. -/
def announced (t : Tableau α) (r s : Nat) : Event α :=
  .pivoting r s (t.columnLabel s) (t.rowLabel r) (t.entry r s)

/-- The event of a pivot that was made. -/
def made (t : Tableau α) (r s : Nat) : Event α :=
  .pivoted r s (t.columnLabel s) (t.rowLabel r) (t.pivot r s)

theorem pivotStep_eq (hr : r < t.height) (hs : s < t.width) :
    t.pivotStep r s =
      if t.entry r s == 0 then ⟨.error (.zeroPivot r s), t, [t.announced r s, .zeroElement r s]⟩
      else ⟨.ok (), t.pivot r s, [t.announced r s, t.made r s]⟩ := by
  have hbasic : r < t.basic.length := by simpa using hr
  have hnonbasic : s < t.nonbasic.length := by simpa using hs
  simp only [pivotStep, List.getElem?_eq_getElem hbasic, List.getElem?_eq_getElem hnonbasic,
    announced, made, rowLabel_eq_getElem hbasic, columnLabel_eq_getElem hnonbasic]

theorem pivotStep_of_ok (h : t.pivot? r s = .ok u) :
    (t.pivotStep r s).result = .ok () ∧ (t.pivotStep r s).tableau = u := by
  obtain ⟨hr, hs, hzero, rfl⟩ := pivot?_eq_ok.1 h
  rw [pivotStep_eq hr hs, hzero]
  exact ⟨rfl, rfl⟩

theorem pivotStep_of_error {fault : Fault} (h : t.pivot? r s = .error fault) :
    (t.pivotStep r s).result = .error fault ∧ (t.pivotStep r s).tableau = t := by
  unfold pivot? at h
  by_cases hin : r < t.height ∧ s < t.width
  · rw [if_pos hin] at h
    rw [pivotStep_eq hin.1 hin.2]
    cases hzero : t.entry r s == 0 with
    | true =>
      simp only [hzero, if_true, Except.error.injEq] at h
      exact ⟨congrArg Except.error h, rfl⟩
    | false => simp [hzero] at h
  · rw [if_neg hin, Except.error.injEq] at h
    subst h
    unfold pivotStep
    split
    · rename_i hnonbasic hbasic
      have hr : r < t.height := by simpa using (List.getElem?_eq_some_iff.1 hbasic).1
      have hs : s < t.width := by simpa using (List.getElem?_eq_some_iff.1 hnonbasic).1
      exact absurd ⟨hr, hs⟩ hin
    · exact ⟨rfl, rfl⟩

/-- One tableau comes out of the other by an exchange above the objective and right of the right-hand
sides, on an entry that is not zero. -/
inductive Exchange (t : Tableau α) : Tableau α → Prop
  | intro {r s : Nat} (row : r < t.objectiveRow) (column : 1 ≤ s) (inside : s < t.width)
      (nonzero : (t.entry r s == 0) = false) : Exchange t (t.pivot r s)

/-- Tableaus that differ by exchanges. -/
def Exchanges : Tableau α → Tableau α → Prop := Relation.ReflTransGen Exchange

theorem exchange_of_searchMove {purpose : Purpose} (asked : t.searchMove ε = .pivot purpose r s)
    (made : t.pivot? r s = .ok u) : Exchange t u := by
  obtain ⟨hr, h1, hs, -⟩ := searchMove_position asked
  obtain ⟨-, -, hzero, rfl⟩ := pivot?_eq_ok.1 made
  exact .intro hr h1 hs hzero

end Tableau

/-! ### Following a rule -/

namespace Rule

open Tableau

variable {ν : Type} {rule : Rule α ν} {t u : Tableau α}

/-- The rule asks for the pivot from `t` to `u`. -/
inductive Pivots (rule : Rule α ν) (t u : Tableau α) : Prop
  | intro {purpose : Purpose} {r s : Nat} (asked : rule.move t = .pivot purpose r s)
      (made : t.pivot? r s = .ok u)

/-- A path of `n` pivots that the rule asked for. -/
inductive Path (rule : Rule α ν) : Nat → Tableau α → Tableau α → Prop
  | stay (t : Tableau α) : Path rule 0 t t
  | pivot {n : Nat} {t u v : Tableau α} (first : rule.Pivots t u) (rest : Path rule n u v) :
      Path rule (n + 1) t v

theorem Path.reflTransGen {R : Tableau α → Tableau α → Prop} {n : Nat} (h : rule.Path n t u)
    (hstep : ∀ {t u}, rule.Pivots t u → R t u) : Relation.ReflTransGen R t u := by
  induction h with
  | stay t => exact .refl
  | pivot first rest ih => exact .head (hstep first) ih

/-- How a pass can end at a tableau with `left` pivots to go. -/
def Ends (rule : Rule α ν) (left : Nat) (t : Tableau α) : Except Fault (ν × Nat) → Prop
  | .ok (verdict, rest) => rest = left ∧ (rule.move t = .halt verdict ∨
      left = 0 ∧ verdict = rule.stalled ∧ ∃ purpose r s, rule.move t = .pivot purpose r s)
  | .error fault => ∃ purpose r s, rule.move t = .pivot purpose r s ∧ t.pivot? r s = .error fault

/-- A pass is a path of the rule within the budget, and its result is read off the last tableau. -/
theorem follow_path (rule : Rule α ν) (budget : Nat) (t : Tableau α) :
    ∃ n left, n + left = budget ∧ rule.Path n t (rule.follow budget t).tableau ∧
      rule.Ends left (rule.follow budget t).tableau (rule.follow budget t).result := by
  -- Along the budget; only a pivot that was made uses one up, so each other case is a path of length zero.
  induction budget generalizing t with
  | zero =>
    refine ⟨0, 0, rfl, ?_⟩
    cases hmove : rule.move t with
    | halt verdict =>
      simp only [follow, hmove]
      exact ⟨.stay t, rfl, .inl hmove⟩
    | pivot purpose r s =>
      simp only [follow, hmove]
      exact ⟨.stay t, rfl, .inr ⟨rfl, rfl, purpose, r, s, hmove⟩⟩
  | succ budget ih =>
    cases hmove : rule.move t with
    | halt verdict =>
      refine ⟨0, budget + 1, by omega, ?_⟩
      simp only [follow, hmove]
      exact ⟨.stay t, rfl, .inl hmove⟩
    | pivot purpose r s =>
      cases hpivot : t.pivot? r s with
      | error fault =>
        obtain ⟨hresult, htableau⟩ := pivotStep_of_error hpivot
        refine ⟨0, budget + 1, by omega, ?_⟩
        simp only [follow, hmove, hresult, htableau]
        exact ⟨.stay t, purpose, r, s, hmove, hpivot⟩
      | ok u =>
        obtain ⟨hresult, htableau⟩ := pivotStep_of_ok hpivot
        obtain ⟨n, left, hsum, hpath, hends⟩ := ih u
        refine ⟨n + 1, left, by omega, ?_⟩
        simp only [follow, hmove, hresult, htableau]
        exact ⟨.pivot ⟨hmove, hpivot⟩ hpath, hends⟩

end Rule

/-! ### Passes of a search -/

namespace Tableau

variable {t : Tableau α} {ε : α} {budget : Nat}

theorem optimize_path (t : Tableau α) (ε : α) (budget : Nat) :
    ∃ n ≤ budget, (searchRule ε budget).Path n t (t.optimize ε budget).tableau := by
  obtain ⟨n, left, hsum, hpath, -⟩ := (searchRule ε budget).follow_path budget t
  exact ⟨n, by omega, hpath⟩

theorem optimize_exchanges (t : Tableau α) (ε : α) (budget : Nat) :
    Exchanges t (t.optimize ε budget).tableau := by
  obtain ⟨n, -, hpath⟩ := optimize_path t ε budget
  exact hpath.reflTransGen fun ⟨asked, made⟩ => exchange_of_searchMove asked made

/-- A verdict other than a stall is what the search says at the tableau that the pass leaves. -/
theorem optimize_eq_ok {verdict : Verdict} (h : (t.optimize ε budget).result = .ok verdict) :
    (t.optimize ε budget).tableau.searchMove ε = .halt verdict ∨ verdict = .stalled := by
  obtain ⟨n, left, -, -, hends⟩ := (searchRule ε budget).follow_path budget t
  obtain ⟨⟨verdict', rest⟩, hresult, rfl⟩ := map_eq_ok_iff.1 h
  rw [hresult] at hends
  rcases hends.2 with hhalt | ⟨-, hstalled, -⟩
  · exact .inl hhalt
  · exact .inr hstalled

end Tableau
end CuttingPlane

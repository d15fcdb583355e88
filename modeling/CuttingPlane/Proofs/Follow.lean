import CuttingPlane.Proofs.Passes

/-!
# Following a rule, pivot by pivot

How a pass goes on at a tableau, said once for every rule that pivots where a search may: it halts, it has
no pivot left, it comes to a pivot on zero, or it makes the pivot and goes on. Between its pivots a pass
only leaves notes, events that tell of no change. A tolerance that separates its entries from zero keeps
every pass from a pivot on zero.
-/

namespace CuttingPlane

variable {α : Type}

/-- Events that tell neither of a pivot nor of a cut, and begin no round. -/
def Event.IsNote : Event α → Prop
  | pivoting .. => False
  | pivoted .. => False
  | cut .. => False
  | round _ => False
  | _ => True

theorem Purpose.isNote_announce (purpose : Purpose) (row : Nat) :
    ∀ e ∈ purpose.announce (α := α) row, e.IsNote := by
  intro e he
  cases purpose with
  | repair =>
    obtain rfl := List.mem_singleton.1 he
    trivial
  | improve => cases he

variable [Scalar α] {ε : α}

namespace Tableau

theorem isNote_repairNotes (t : Tableau α) (ε : α) : ∀ e ∈ t.repairNotes ε, e.IsNote := by
  rw [repairNotes_eq]
  split <;> simp [Event.IsNote]

theorem isNote_searchNotes (t : Tableau α) (ε : α) : ∀ e ∈ t.searchNotes ε, e.IsNote := by
  intro e he
  rcases mem_searchNotes he with ⟨i, label, x, rfl⟩ | ⟨i, x, rfl⟩ | ⟨j, label, rfl⟩ | ⟨rfl, -⟩ <;> trivial

end Tableau

open Tableau

/-! ### Passes -/

namespace Rule

variable {ν : Type} {rule : Rule α ν}

/-- A rule that pivots where a search may, and whose other events are notes. -/
structure Searches (rule : Rule α ν) (ε : α) : Prop where
  position : ∀ {t : Tableau α} {purpose : Purpose} {r s : Nat}, rule.move t = .pivot purpose r s →
    r < t.objectiveRow ∧ 1 ≤ s ∧ s < t.width ∧ (t.entry r s < -ε ∨ ε < t.entry r s)
  notes : ∀ t, ∀ e ∈ rule.notes t, e.IsNote
  spent : ∀ purpose r, (rule.spent purpose r).IsNote

theorem repairRule_searches (ε : α) : (repairRule ε).Searches ε where
  position h := by
    obtain ⟨-, hrow, hcolumn⟩ := repairMove_eq_pivot h
    obtain ⟨hs, hlt, hneg, -⟩ := negativeColumn?_eq_some.1 hcolumn
    exact ⟨(infeasibleRow?_eq_some.1 hrow).1, hs, hlt, .inl hneg⟩
  notes t := t.isNote_repairNotes ε
  spent _ _ := trivial

theorem searchRule_searches (ε : α) (limit : Nat) : (searchRule ε limit).Searches ε where
  position := searchMove_position
  notes t := t.isNote_searchNotes ε
  spent purpose _ := by cases purpose <;> trivial

/-- What a rule leaves before it pivots: the notes of its choice and of what the pivot is for. -/
def choice (rule : Rule α ν) (t : Tableau α) (purpose : Purpose) (r : Nat) : List (Event α) :=
  rule.notes t ++ purpose.announce r

theorem Searches.isNote_choice (h : rule.Searches ε) (t : Tableau α) (purpose : Purpose) (r : Nat) :
    ∀ e ∈ rule.choice t purpose r, e.IsNote := by
  intro e he
  rcases List.mem_append.1 he with he | he
  · exact h.notes t e he
  · exact purpose.isNote_announce r e he

theorem Searches.isNote_spent (h : rule.Searches ε) (t : Tableau α) (purpose : Purpose) (r : Nat) :
    ∀ e ∈ rule.notes t ++ [rule.spent purpose r], e.IsNote := by
  intro e he
  rcases List.mem_append.1 he with he | he
  · exact h.notes t e he
  · exact List.mem_singleton.1 he ▸ h.spent purpose r

/-! What a pass does at a tableau: halt, stop for want of a pivot, or pivot and go on. -/

theorem follow_of_halt {t : Tableau α} {verdict : ν} (h : rule.move t = .halt verdict) (budget : Nat) :
    rule.follow budget t = ⟨.ok (verdict, budget), t, rule.notes t⟩ := by
  cases budget <;> simp only [follow, h]

theorem follow_zero_of_pivot {t : Tableau α} {purpose : Purpose} {r s : Nat}
    (h : rule.move t = .pivot purpose r s) :
    rule.follow 0 t = ⟨.ok (rule.stalled, 0), t, rule.notes t ++ [rule.spent purpose r]⟩ := by
  simp only [follow, h]

theorem Searches.follow_succ_of_zero (h : rule.Searches ε) {t : Tableau α} {purpose : Purpose} {r s : Nat}
    (hmove : rule.move t = .pivot purpose r s) (hzero : (t.entry r s == 0) = true) (budget : Nat) :
    rule.follow (budget + 1) t = ⟨.error (.zeroPivot r s), t,
      rule.choice t purpose r ++ [t.announced r s, .zeroElement r s]⟩ := by
  obtain ⟨hr, -, hs, -⟩ := h.position hmove
  have hlast := t.objectiveRow_lt
  have hstep := pivotStep_eq (t := t) (r := r) (by omega) hs
  rw [hzero, if_pos rfl] at hstep
  simp only [follow, hmove, hstep]
  rfl

theorem Searches.follow_succ_of_nonzero (h : rule.Searches ε) {t : Tableau α} {purpose : Purpose} {r s : Nat}
    (hmove : rule.move t = .pivot purpose r s) (hzero : (t.entry r s == 0) = false) (budget : Nat) :
    let rest := rule.follow budget (t.pivot r s)
    rule.follow (budget + 1) t = ⟨rest.result, rest.tableau,
      rule.choice t purpose r ++ [t.announced r s, t.made r s] ++ rest.events⟩ := by
  obtain ⟨hr, -, hs, -⟩ := h.position hmove
  have hlast := t.objectiveRow_lt
  have hstep := pivotStep_eq (t := t) (r := r) (by omega) hs
  rw [hzero, if_neg Bool.false_ne_true] at hstep
  simp only [follow, hmove, hstep]
  rfl

/-- The induction along the pivots of a pass, each of which uses up one of the budget. -/
theorem Searches.follow_budget_induction {P : Nat → Tableau α → Run α (Except Fault (ν × Nat)) → Prop}
    (h : rule.Searches ε)
    (halt : ∀ budget t verdict, rule.move t = .halt verdict →
      P budget t ⟨.ok (verdict, budget), t, rule.notes t⟩)
    (spent : ∀ t purpose r s, rule.move t = .pivot purpose r s →
      P 0 t ⟨.ok (rule.stalled, 0), t, rule.notes t ++ [rule.spent purpose r]⟩)
    (fault : ∀ budget t purpose r s, rule.move t = .pivot purpose r s → (t.entry r s == 0) = true →
      P (budget + 1) t ⟨.error (.zeroPivot r s), t,
        rule.choice t purpose r ++ [t.announced r s, .zeroElement r s]⟩)
    (pivot : ∀ budget t purpose r s rest, rule.move t = .pivot purpose r s → (t.entry r s == 0) = false →
      P budget (t.pivot r s) rest → P (budget + 1) t ⟨rest.result, rest.tableau,
        rule.choice t purpose r ++ [t.announced r s, t.made r s] ++ rest.events⟩)
    (budget : Nat) (t : Tableau α) : P budget t (rule.follow budget t) := by
  induction budget generalizing t with
  | zero =>
    cases hmove : rule.move t with
    | halt verdict =>
      rw [follow_of_halt hmove]
      exact halt 0 t verdict hmove
    | pivot purpose r s =>
      rw [follow_zero_of_pivot hmove]
      exact spent t purpose r s hmove
  | succ budget ih =>
    cases hmove : rule.move t with
    | halt verdict =>
      rw [follow_of_halt hmove]
      exact halt (budget + 1) t verdict hmove
    | pivot purpose r s =>
      cases hzero : t.entry r s == 0 with
      | true =>
        rw [h.follow_succ_of_zero hmove hzero]
        exact fault budget t purpose r s hmove hzero
      | false =>
        rw [h.follow_succ_of_nonzero hmove hzero]
        exact pivot budget t purpose r s _ hmove hzero (ih (t.pivot r s))

/-- The induction along the pivots of a pass, whatever its budget. -/
theorem Searches.follow_induction {P : Tableau α → Run α (Except Fault (ν × Nat)) → Prop}
    (h : rule.Searches ε)
    (halt : ∀ t verdict left, rule.move t = .halt verdict → P t ⟨.ok (verdict, left), t, rule.notes t⟩)
    (spent : ∀ t purpose r s, rule.move t = .pivot purpose r s →
      P t ⟨.ok (rule.stalled, 0), t, rule.notes t ++ [rule.spent purpose r]⟩)
    (fault : ∀ t purpose r s, rule.move t = .pivot purpose r s → (t.entry r s == 0) = true →
      P t ⟨.error (.zeroPivot r s), t,
        rule.choice t purpose r ++ [t.announced r s, .zeroElement r s]⟩)
    (pivot : ∀ t purpose r s rest, rule.move t = .pivot purpose r s → (t.entry r s == 0) = false →
      P (t.pivot r s) rest → P t ⟨rest.result, rest.tableau,
        rule.choice t purpose r ++ [t.announced r s, t.made r s] ++ rest.events⟩)
    (budget : Nat) (t : Tableau α) : P t (rule.follow budget t) :=
  h.follow_budget_induction (P := fun _ => P) (fun budget t verdict => halt t verdict budget) spent
    (fun _ => fault) (fun _ => pivot) budget t

/-- What is so for the notes of a rule and for the events of a pivot is so for every event of a pass. -/
theorem Searches.forall_follow {Q : Event α → Prop} (h : rule.Searches ε)
    (notes : ∀ t, ∀ e ∈ rule.notes t, Q e) (spent : ∀ purpose r, Q (rule.spent purpose r))
    (repairing : ∀ r, Q (.repairing r)) (zero : ∀ r s, Q (.zeroElement r s))
    (announced : ∀ t r s, Q (Tableau.announced t r s)) (made : ∀ t r s, Q (Tableau.made t r s))
    (budget : Nat) (t : Tableau α) : ∀ e ∈ (rule.follow budget t).events, Q e := by
  have hchoice (t : Tableau α) (purpose : Purpose) (r : Nat) : ∀ e ∈ rule.choice t purpose r, Q e := by
    intro e he
    rcases List.mem_append.1 he with he | he
    · exact notes t e he
    · cases purpose with
      | repair => exact List.mem_singleton.1 he ▸ repairing r
      | improve => cases he
  refine h.follow_induction (P := fun _ run => ∀ e ∈ run.events, Q e) (fun t verdict left _ => notes t)
    (fun t purpose r s _ => ?_) (fun t purpose r s _ _ => ?_) (fun t purpose r s rest _ _ ih => ?_) budget t
  · exact List.forall_mem_append.2 ⟨notes t, List.forall_mem_singleton.2 (spent purpose r)⟩
  · refine List.forall_mem_append.2 ⟨hchoice t purpose r, ?_⟩
    exact List.forall_mem_cons.2 ⟨announced t r s, List.forall_mem_singleton.2 (zero r s)⟩
  · refine List.forall_mem_append.2 ⟨List.forall_mem_append.2 ⟨hchoice t purpose r, ?_⟩, ih⟩
    exact List.forall_mem_cons.2 ⟨announced t r s, List.forall_mem_singleton.2 (made t r s)⟩

end Rule

/-! ### Tolerances -/

/-- No number below `-ε` or above `ε` is zero. -/
def Separates (ε : α) : Prop := ∀ x : α, x < -ε ∨ ε < x → (x == 0) = false

section Separates

variable {ν : Type} {rule : Rule α ν} {ε : α}

theorem Rule.Searches.exists_result (h : rule.Searches ε) (hε : Separates ε) (budget : Nat)
    (t : Tableau α) : ∃ verdict, (rule.follow budget t).result = .ok verdict := by
  refine h.follow_induction (P := fun _ run => ∃ verdict, run.result = .ok verdict)
    (fun t verdict left _ => ⟨_, rfl⟩) (fun t purpose r s _ => ⟨_, rfl⟩)
    (fun t purpose r s hmove hzero => ?_) (fun t purpose r s rest _ _ ih => ih) budget t
  obtain ⟨-, -, -, hentry⟩ := h.position hmove
  rw [hε _ hentry] at hzero
  cases hzero

theorem Tableau.exists_optimize (hε : Separates ε) (t : Tableau α) (budget : Nat) :
    ∃ verdict, (t.optimize ε budget).result = .ok verdict := by
  obtain ⟨verdict, hresult⟩ := (Rule.searchRule_searches ε budget).exists_result hε budget t
  exact ⟨verdict.1, map_eq_ok_iff.2 ⟨verdict, hresult, rfl⟩⟩

end Separates
end CuttingPlane

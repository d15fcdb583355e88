import CuttingPlane.Proofs.Limits

/-!
# Parts of a budget

A pass goes on from the tableau that it is at, whatever came before. So a pass that ran out of pivots and is
taken up again ends where one pass with all of the pivots does, wherever it was interrupted, and pivots that a
pass does not use make no difference to it.
-/

namespace CuttingPlane

variable {α : Type}

section Runs

variable {ρ σ : Type} {run run' rest rest' : Run α ρ} {first : Run α σ}

/-- The runs come to the same end by the same steps. -/
structure Run.Alike (run other : Run α ρ) : Prop where
  result : run.result = other.result
  tableau : run.tableau = other.tableau
  snapshots : Event.snapshots run.events = Event.snapshots other.events

/-- The run does what the first one did, and goes on as the other. -/
structure Run.Resumes (run : Run α ρ) (first : Run α σ) (rest : Run α ρ) : Prop where
  result : run.result = rest.result
  tableau : run.tableau = rest.tableau
  snapshots : Event.snapshots run.events = Event.snapshots first.events ++ Event.snapshots rest.events

theorem Run.Resumes.congr (h : run.Resumes first rest) (hrun : run'.Alike run) (hrest : rest'.Alike rest) :
    run'.Resumes first rest' := by
  refine ⟨?_, ?_, ?_⟩
  · rw [hrun.result, h.result, hrest.result]
  · rw [hrun.tableau, h.tableau, hrest.tableau]
  · rw [hrun.snapshots, h.snapshots, hrest.snapshots]

end Runs

theorem Event.snapshots_notes {events : List (Event α)} (h : ∀ e ∈ events, e.IsNote) :
    snapshots events = [] := by
  apply List.filterMap_eq_nil_iff.2
  intro e he
  have hnote := h e he
  cases e with
  | pivoted => cases hnote
  | cut => cases hnote
  | _ => rfl

variable [Scalar α] {ε : α}

/-! ### Passes of a rule -/

namespace Rule

variable {ν : Type} {rule rule' : Rule α ν} {t : Tableau α} {budget : Nat}

theorem Searches.snapshots_pivot (h : rule.Searches ε) (t : Tableau α) (purpose : Purpose) (r s : Nat)
    (events : List (Event α)) :
    Event.snapshots (rule.choice t purpose r ++ [t.announced r s, t.made r s] ++ events) =
      Event.snapshots [t.made r s] ++ Event.snapshots events := by
  rw [Event.snapshots_append, Event.snapshots_append, Event.snapshots_notes (h.isNote_choice t purpose r)]
  rfl

theorem Searches.pivotsIn_add_left (h : rule.Searches ε) {verdict : ν} {left : Nat}
    (hresult : (rule.follow budget t).result = .ok (verdict, left)) :
    pivotsIn (rule.follow budget t).events + left = budget := by
  revert hresult
  refine h.follow_budget_induction (P := fun budget _ run => run.result = .ok (verdict, left) →
    pivotsIn run.events + left = budget) ?halt ?spent ?fault ?pivot budget t
  case halt =>
    intro budget t halted _ hrun
    obtain ⟨-, rfl⟩ := Prod.mk.inj (Except.ok.inj hrun)
    rw [pivotsIn_notes (h.notes t), Nat.zero_add]
  case spent =>
    intro t purpose r s _ hrun
    obtain ⟨-, rfl⟩ := Prod.mk.inj (Except.ok.inj hrun)
    rw [pivotsIn_notes (h.isNote_spent t purpose r)]
  case fault =>
    intro budget t purpose r s _ _ hrun
    cases hrun
  case pivot =>
    intro budget t purpose r s rest _ _ ih hrun
    have hrest := ih hrun
    rw [h.pivotsIn_pivot]
    omega

theorem Searches.follow_alike (h : rule.Searches ε) (h' : rule'.Searches ε)
    (hmove : ∀ t, rule'.move t = rule.move t) (hstalled : rule'.stalled = rule.stalled) (budget : Nat)
    (t : Tableau α) : (rule.follow budget t).Alike (rule'.follow budget t) := by
  refine h.follow_budget_induction (P := fun budget t run => run.Alike (rule'.follow budget t)) ?halt ?spent
    ?fault ?pivot budget t
  case halt =>
    intro budget t verdict hhalt
    rw [follow_of_halt ((hmove t).trans hhalt)]
    exact ⟨rfl, rfl, by rw [Event.snapshots_notes (h.notes t), Event.snapshots_notes (h'.notes t)]⟩
  case spent =>
    intro t purpose r s hpivot
    rw [follow_zero_of_pivot ((hmove t).trans hpivot), hstalled]
    refine ⟨rfl, rfl, ?_⟩
    rw [Event.snapshots_notes (h.isNote_spent t purpose r), Event.snapshots_notes (h'.isNote_spent t purpose r)]
  case fault =>
    intro budget t purpose r s hpivot hzero
    rw [h'.follow_succ_of_zero ((hmove t).trans hpivot) hzero]
    refine ⟨rfl, rfl, ?_⟩
    simp only [Event.snapshots_append, Event.snapshots_notes (h.isNote_choice t purpose r),
      Event.snapshots_notes (h'.isNote_choice t purpose r)]
  case pivot =>
    intro budget t purpose r s rest hpivot hzero ih
    rw [h'.follow_succ_of_nonzero ((hmove t).trans hpivot) hzero]
    exact ⟨ih.result, ih.tableau, by rw [h.snapshots_pivot, h'.snapshots_pivot, ih.snapshots]⟩

/-- A pass that came to an end is the beginning of every pass with more pivots. -/
theorem Searches.follow_resumes (h : rule.Searches ε) {answer : ν × Nat}
    (hresult : (rule.follow budget t).result = .ok answer) (more : Nat) :
    (rule.follow (pivotsIn (rule.follow budget t).events + more) t).Resumes (rule.follow budget t)
      (rule.follow more (rule.follow budget t).tableau) := by
  -- Along the pivots of the shorter pass. Where it ends, both are at one tableau with `more` pivots to go.
  have hend (t : Tableau α) (result : Except Fault (ν × Nat)) (notes : List (Event α))
      (hnotes : ∀ e ∈ notes, e.IsNote) :
      (rule.follow (pivotsIn notes + more) t).Resumes ⟨result, t, notes⟩ (rule.follow more t) := by
    rw [pivotsIn_notes hnotes, Nat.zero_add]
    exact ⟨rfl, rfl, by rw [Event.snapshots_notes hnotes, List.nil_append]⟩
  revert hresult
  refine h.follow_budget_induction (P := fun _ t run => run.result = .ok answer →
    (rule.follow (pivotsIn run.events + more) t).Resumes run (rule.follow more run.tableau)) ?halt ?spent
    ?fault ?pivot budget t
  case halt =>
    intro budget t verdict _ _
    exact hend t _ _ (h.notes t)
  case spent =>
    intro t purpose r s _ _
    exact hend t _ _ (h.isNote_spent t purpose r)
  case fault =>
    intro budget t purpose r s _ _ hrun
    cases hrun
  case pivot =>
    intro budget t purpose r s rest hmove hzero ih hrun
    obtain ⟨hsame, htableau, hsnapshots⟩ := ih hrun
    rw [h.pivotsIn_pivot, Nat.add_right_comm, h.follow_succ_of_nonzero hmove hzero]
    refine ⟨hsame, htableau, ?_⟩
    rw [h.snapshots_pivot, h.snapshots_pivot, hsnapshots, List.append_assoc]

end Rule

/-! ### Passes of a search -/

namespace Tableau

open Rule

variable {t : Tableau α} {budget : Nat} {verdict : Verdict}

-- The limit of a search changes only what is said when it is spent.
theorem searchRule_alike (ε : α) (limit limit' budget : Nat) (t : Tableau α) :
    ((searchRule ε limit).follow budget t).Alike ((searchRule ε limit').follow budget t) :=
  (searchRule_searches ε limit).follow_alike (searchRule_searches ε limit') (fun _ => rfl) rfl budget t

theorem optimize_resumes (h : (t.optimize ε budget).result = .ok verdict) (more : Nat) :
    (t.optimize ε (pivotsIn (t.optimize ε budget).events + more)).Resumes (t.optimize ε budget)
      ((t.optimize ε budget).tableau.optimize ε more) := by
  obtain ⟨answer, hfollow, -⟩ := map_eq_ok_iff.1 h
  have hresumes := (searchRule_searches ε budget).follow_resumes hfollow more
  obtain ⟨hresult, htableau, hsnapshots⟩ := hresumes.congr (searchRule_alike ε _ budget _ t)
    (searchRule_alike ε more budget more _)
  exact ⟨congrArg (Except.map Prod.fst) hresult, htableau, hsnapshots⟩

theorem optimize_of_halt (h : t.searchMove ε = .halt verdict) (budget : Nat) :
    t.optimize ε budget = ⟨.ok verdict, t, t.searchNotes ε⟩ := by
  have hfollow : (searchRule ε budget).follow budget t = ⟨.ok (verdict, budget), t, t.searchNotes ε⟩ :=
    follow_of_halt h budget
  rw [optimize, hfollow]
  rfl

theorem pivotsIn_of_stalled (h : (t.optimize ε budget).result = .ok .stalled) :
    pivotsIn (t.optimize ε budget).events = budget := by
  obtain ⟨⟨verdict, left⟩, hfollow, hverdict⟩ := map_eq_ok_iff.1 h
  have hsum := (searchRule_searches ε budget).pivotsIn_add_left hfollow
  obtain ⟨n, left', -, -, hends⟩ := (searchRule ε budget).follow_path budget t
  rw [hfollow] at hends
  obtain ⟨rfl, hhalt | ⟨rfl, -⟩⟩ := hends
  · obtain rfl : verdict = .stalled := hverdict
    exact False.elim (certifies_of_searchMove hhalt)
  · exact hsum

theorem length_snapshots_optimize (t : Tableau α) (ε : α) (budget : Nat) :
    (Event.snapshots (t.optimize ε budget).events).length = pivotsIn (t.optimize ε budget).events := by
  rw [Event.length_snapshots, (records_optimize t ε budget).cuts_eq, Nat.add_zero]

/-- Let a pass end with a verdict. If it stalled, a pass with more pivots does what it did and goes on as a
pass from its last tableau with the pivots that are more. If not, every pass with as many pivots as it made
is like it, and a pass from its last tableau ends there at once with the same verdict. -/
theorem optimize_budgets {ε : Float} (hε : ¬ ε < 0) (t : Tableau Float) (budget : Nat) :
    let first := t.optimize ε budget
    ∃ verdict, first.result = .ok verdict ∧
      (verdict = .stalled → ∀ more,
        (t.optimize ε (budget + more)).Resumes first (first.tableau.optimize ε more)) ∧
      (verdict ≠ .stalled →
        (∀ other ≥ (Event.snapshots first.events).length, (t.optimize ε other).Alike first) ∧
        ∀ other, (first.tableau.optimize ε other).Alike ⟨.ok verdict, first.tableau, []⟩ ∧
          pivotsIn (first.tableau.optimize ε other).events = 0) := by
  intro first
  obtain ⟨verdict, hfirst⟩ := exists_optimize (Binary64.separates_of_not_neg hε) t budget
  refine ⟨verdict, hfirst, ?_, ?_⟩
  · rintro rfl more
    have hresumes := optimize_resumes hfirst more
    rwa [pivotsIn_of_stalled hfirst] at hresumes
  · intro hverdict
    have hhalt : first.tableau.searchMove ε = .halt verdict := (optimize_eq_ok hfirst).resolve_right hverdict
    have hnotes := Event.snapshots_notes (first.tableau.isNote_searchNotes ε)
    constructor
    · intro other hother
      rw [length_snapshots_optimize] at hother
      obtain ⟨more, rfl⟩ := Nat.exists_eq_add_of_le hother
      obtain ⟨hresult, htableau, hsnapshots⟩ := optimize_resumes hfirst more
      rw [optimize_of_halt hhalt] at hresult htableau hsnapshots
      refine ⟨hresult.trans hfirst.symm, htableau, ?_⟩
      rw [hsnapshots, hnotes, List.append_nil]
    · intro other
      rw [optimize_of_halt hhalt]
      exact ⟨⟨rfl, rfl, hnotes⟩, pivotsIn_notes (first.tableau.isNote_searchNotes ε)⟩

-- Two pivots repair the rows and a third one improves. The first pass is interrupted in the repair.
theorem optimize_budgets_repair : ∃ t : Tableau Float,
    create ⟨4, 3, #v[-2, -3, 10, 0, -1, -1, 1, -3, -1, -2, 2, -1]⟩ ["y0", "y1", "y2", "F"]
        ["RHS", "x0", "x1"] = .ok t ∧
      (t.optimize 1e-6 1).result = .ok .stalled ∧
      (t.optimize 1e-6 3).Resumes (t.optimize 1e-6 1) ((t.optimize 1e-6 1).tableau.optimize 1e-6 2) ∧
      (t.optimize 1e-6 3).result = .ok .optimal ∧ (t.optimize 1e-6 9).Alike (t.optimize 1e-6 3) := by
  have hε : ¬ (1e-6 : Float) < 0 := by decide +kernel
  obtain ⟨t, ht, hone, hthree, hlength⟩ : ∃ t : Tableau Float,
      create ⟨4, 3, #v[-2, -3, 10, 0, -1, -1, 1, -3, -1, -2, 2, -1]⟩ ["y0", "y1", "y2", "F"]
          ["RHS", "x0", "x1"] = .ok t ∧
        (t.optimize 1e-6 1).result = .ok .stalled ∧ (t.optimize 1e-6 3).result = .ok .optimal ∧
        (Event.snapshots (t.optimize 1e-6 3).events).length = 3 := ⟨_, rfl, by decide +kernel⟩
  obtain ⟨verdict, hfirst, hstalled, -⟩ := optimize_budgets hε t 1
  obtain rfl := Except.ok.inj (hfirst.symm.trans hone)
  obtain ⟨verdict, hwhole, -, hended⟩ := optimize_budgets hε t 3
  obtain rfl := Except.ok.inj (hwhole.symm.trans hthree)
  exact ⟨t, ht, hone, hstalled rfl 2, hthree, (hended nofun).1 9 (by rw [hlength]; decide)⟩

end Tableau
end CuttingPlane

import CuttingPlane.Proofs.Faults
import CuttingPlane.Proofs.Histories
import CuttingPlane.Proofs.Reads

/-!
# Sound pivots

At a tolerance that is not negative no pass and no solve breaks down, whatever doubles its tableau holds.
Every pivot is above the objective and right of the right-hand sides, on a number that its purpose asks for
and that is not zero, every cut is as wide as the tableau, and nothing is read outside of it.
-/

namespace CuttingPlane

section Along

variable {α : Type} {P : Tableau α → Event α → Prop} {t : Tableau α}

/-- `P` holds of every event at the tableau that the events before it lead to. -/
def Along (P : Tableau α → Event α → Prop) : Tableau α → List (Event α) → Prop
  | _, [] => True
  | t, e :: events => P t e ∧ Along P (e.leave t) events

theorem along_append {past more : List (Event α)} :
    Along P t (past ++ more) ↔ Along P t past ∧ Along P (t.replay past) more := by
  induction past generalizing t with
  | nil => simp [Along]
  | cons e past ih => simp only [List.cons_append, Along, ih, Tableau.replay_cons, and_assoc]

theorem along_notes {events : List (Event α)} (h : ∀ e ∈ events, e.IsNote) (hP : ∀ e ∈ events, P t e) :
    Along P t events := by
  induction events with
  | nil => trivial
  | cons e events ih =>
    refine ⟨hP e (List.mem_cons_self ..), ?_⟩
    rw [(h e (List.mem_cons_self ..)).leave]
    exact ih (fun e' he' => h e' (List.mem_cons_of_mem _ he')) fun e' he' => hP e' (List.mem_cons_of_mem _ he')

theorem Tells.along [Scalar α] {ε : α} {events : List (Event α)} (h : Tells ε t events)
    (hP : ∀ (u : Tableau α) (e : Event α), e.HappensAt ε u → P u e) : Along P t events := by
  induction events generalizing t with
  | nil => trivial
  | cons e events ih => exact ⟨hP t e h.1, ih h.2⟩

end Along

/-! ### What is pivoted on -/

/-- The entries that a pivot for the purpose may be made on. -/
def Purpose.Admits (purpose : Purpose) (ε element : Float) : Prop :=
  match purpose with
  | .repair => element < -ε
  | .improve => ε < element

theorem Purpose.Admits.isNaN {purpose : Purpose} {ε element : Float} (h : purpose.Admits ε element) :
    element.isNaN = false := by
  cases purpose with
  | repair => exact Binary64.isNaN_left_of_lt h
  | improve => exact Binary64.isNaN_right_of_lt h

theorem Purpose.Admits.beq_zero {purpose : Purpose} {ε element : Float} (h : purpose.Admits ε element)
    (hε : ¬ ε < 0) : (element == 0) = false := by
  refine Binary64.separates_of_not_neg hε element ?_
  cases purpose with
  | repair => exact .inl h
  | improve => exact .inr h

namespace Tableau

variable {t : Tableau Float} {ε : Float} {purpose : Purpose} {r s : Nat}

/-- A pivot for the purpose has a meaning here. -/
structure SoundAt (t : Tableau Float) (ε : Float) (purpose : Purpose) (r s : Nat) : Prop where
  row : r < t.objectiveRow
  column : 1 ≤ s
  inside : s < t.width
  admits : purpose.Admits ε (t.entry r s)
  nonzero : (t.entry r s == 0) = false
  number : (t.entry r s).isNaN = false

theorem soundAt_of_repair (hε : ¬ ε < 0) (hrow : t.infeasibleRow? ε = some r)
    (hcolumn : t.negativeColumn? r ε = some s) : t.SoundAt ε .repair r s := by
  obtain ⟨h1, hs, hneg, -⟩ := negativeColumn?_eq_some.1 hcolumn
  have hadmits : Purpose.repair.Admits ε (t.entry r s) := hneg
  exact ⟨(infeasibleRow?_eq_some.1 hrow).1, h1, hs, hadmits, hadmits.beq_zero hε, hadmits.isNaN⟩

theorem soundAt_of_repairMove (hε : ¬ ε < 0) (h : t.repairMove ε = .pivot purpose r s) :
    t.SoundAt ε purpose r s := by
  obtain ⟨rfl, hrow, hcolumn⟩ := repairMove_eq_pivot h
  exact soundAt_of_repair hε hrow hcolumn

theorem soundAt_of_searchMove (hε : ¬ ε < 0) (h : t.searchMove ε = .pivot purpose r s) :
    t.SoundAt ε purpose r s := by
  rcases searchMove_eq_pivot h with ⟨rfl, hrow, hcolumn⟩ | ⟨rfl, hentering, hleaving⟩
  · exact soundAt_of_repair hε hrow hcolumn
  · obtain ⟨h1, hs, -, -⟩ := negativeColumn?_eq_some.1 hentering
    obtain ⟨hr, hpos⟩ := leavingRow?_pos hleaving
    have hadmits : Purpose.improve.Admits ε (t.entry r s) := hpos
    exact ⟨hr, h1, hs, hadmits, hadmits.beq_zero hε, hadmits.isNaN⟩

end Tableau

/-! ### Sound runs -/

section Sound

variable {ν : Type} {move : Tableau Float → Move ν} {ε : Float} {t : Tableau Float}

/-- A pivot is one that the rule asks for and that has a meaning, and a cut is a row as wide as the
tableau. -/
def Event.SoundAt (move : Tableau Float → Move ν) (ε : Float) (t : Tableau Float) : Event Float → Prop
  | pivoted r s _ _ after => (∃ purpose, move t = .pivot purpose r s ∧ t.SoundAt ε purpose r s) ∧
      after = t.pivot r s
  | cut _ _ row after => row.length = t.width ∧ after = t.addRow t.cutLabel row
  | _ => True

theorem Event.IsNote.soundAt {e : Event Float} (h : e.IsNote) : e.SoundAt move ε t := by
  cases e with
  | pivoted => cases h
  | cut => cases h
  | _ => trivial

theorem Event.HappensAt.soundAt (hε : ¬ ε < 0) {e : Event Float} (h : e.HappensAt ε t) :
    e.SoundAt (Tableau.searchMove · ε) ε t := by
  cases e with
  | pivoted r s entering leaving after =>
    obtain ⟨⟨purpose, asked⟩, made, -⟩ := h
    exact ⟨⟨purpose, asked, Tableau.soundAt_of_searchMove hε asked⟩, (Tableau.pivot?_eq_ok.1 made).2.2.2⟩
  | cut source label row after =>
    obtain ⟨-, -, added, ⟨i, hrow, rfl⟩, rfl⟩ := h
    obtain ⟨k, hsource, htableau⟩ := Tableau.addCut_of_ok added
    obtain rfl : i = k := Option.some.inj (hrow.symm.trans hsource)
    exact ⟨t.length_cutRow i, htableau⟩
  | _ => trivial

/-- The run comes to a result, its history leads to where it ends, and every event is sound. -/
structure Run.Sound {β : Type} (run : Run Float (Except Fault β)) (move : Tableau Float → Move ν) (ε : Float)
    (t : Tableau Float) : Prop where
  answers : ∃ result, run.result = .ok result
  leads : t.replay run.events = run.tableau
  sound : Along (Event.SoundAt move ε) t run.events

theorem Rule.Searches.sound_follow {rule : Rule Float ν} (h : rule.Searches ε)
    (hmove : ∀ {u : Tableau Float} {purpose : Purpose} {r s : Nat}, rule.move u = .pivot purpose r s →
      u.SoundAt ε purpose r s) (budget : Nat) (t : Tableau Float) :
    (rule.follow budget t).Sound rule.move ε t := by
  have hnotes : ∀ {u : Tableau Float} {events : List (Event Float)}, (∀ e ∈ events, e.IsNote) →
      u.replay events = u ∧ Along (Event.SoundAt rule.move ε) u events := fun hevents =>
    ⟨Tableau.replay_notes hevents _, along_notes hevents fun e he => (hevents e he).soundAt⟩
  refine h.follow_induction (P := fun t run => run.Sound rule.move ε t)
    (fun t verdict left _ => ?_) (fun t purpose r s _ => ?_) (fun t purpose r s asked hzero => ?_)
    (fun t purpose r s rest asked hzero ih => ?_) budget t
  · obtain ⟨hleads, hsound⟩ := hnotes (h.notes t)
    exact ⟨⟨_, rfl⟩, hleads, hsound⟩
  · obtain ⟨hleads, hsound⟩ := hnotes (h.isNote_spent t purpose r)
    exact ⟨⟨_, rfl⟩, hleads, hsound⟩
  · rw [(hmove asked).nonzero] at hzero
    cases hzero
  · obtain ⟨hleads, hsound⟩ := hnotes (h.isNote_choice t purpose r)
    refine ⟨ih.answers, ?_, ?_⟩
    · rw [Tableau.replay_append, Tableau.replay_append, hleads]
      exact ih.leads
    · rw [along_append, along_append, Tableau.replay_append, hleads]
      exact ⟨⟨hsound, trivial, ⟨⟨purpose, asked, hmove asked⟩, rfl⟩, trivial⟩, ih.sound⟩

end Sound

namespace Tableau

/-- At a tolerance that is not negative every repair, every pass and every solve comes to a result by sound
pivots and cuts, and at no tableau is there a read outside of it. -/
theorem runs_sound {options : Options Float} (hε : ¬ options.epsilon < 0) (t : Tableau Float)
    (budget : Nat) (flag : StopFlag Float) :
    (t.restore options.epsilon budget).Sound (repairMove · options.epsilon) options.epsilon t ∧
    (t.optimize options.epsilon budget).Sound (searchMove · options.epsilon) options.epsilon t ∧
    (t.solve options flag).Sound (searchMove · options.epsilon) options.epsilon t ∧
    ∀ u : Tableau Float, u.ReadsInside options.epsilon := by
  have hseparates := Binary64.separates_of_not_neg hε
  refine ⟨?_, ?_, ?_, fun u => u.readsInside _⟩
  · exact (Rule.repairRule_searches _).sound_follow (soundAt_of_repairMove hε) budget t
  · have hfollow := (Rule.searchRule_searches options.epsilon budget).sound_follow
      (soundAt_of_searchMove hε) budget t
    exact ⟨exists_optimize hseparates t budget, hfollow.leads, hfollow.sound⟩
  · have hrecorded := solve_recorded t options flag
    exact ⟨exists_solve hseparates flag t, hrecorded.leads,
      hrecorded.tells.along fun _ _ h => h.soundAt hε⟩

-- One row has to be repaired; an entry of the tableau is infinite and one is no number.
theorem runs_sound_not_finite :
    ∃ t : Tableau Float, create ⟨3, 3, #v[-2, 10, 0, -1, 1 / 0, -3, 0 / 0, 2, -1]⟩ ["y0", "y1", "F"]
        ["RHS", "x0", "x1"] = .ok t ∧
      (t.restore 1e-6 10).Sound (repairMove · 1e-6) 1e-6 t ∧
      (t.solve .default .never).Sound (searchMove · 1e-6) 1e-6 t := by
  have hε : ¬ Options.default.epsilon < 0 := by decide +kernel
  obtain ⟨t, ht⟩ : ∃ t : Tableau Float, create ⟨3, 3, #v[-2, 10, 0, -1, 1 / 0, -3, 0 / 0, 2, -1]⟩
      ["y0", "y1", "F"] ["RHS", "x0", "x1"] = .ok t := ⟨_, rfl⟩
  obtain ⟨hrestore, -, hsolve, -⟩ := runs_sound hε t 10 .never
  exact ⟨t, ht, hrestore, hsolve⟩

end Tableau
end CuttingPlane

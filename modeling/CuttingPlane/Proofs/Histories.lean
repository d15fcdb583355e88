import CuttingPlane.Proofs.Rounds

/-!
# Histories of solves

The events of a solve tell all of its changes. Taken one after the other from the tableau that the solve
began with, they lead through every tableau that it came to: each pivot is one that the search asks for at
the tableau before, each cut follows an optimum, and an optimum is announced where the search halts with
one.
-/

namespace CuttingPlane

variable {α : Type}

/-! ### Reading a history -/

namespace Event

/-- The tableau after an event at `t`. -/
def leave (t : Tableau α) : Event α → Tableau α
  | pivoted _ _ _ _ after => after
  | cut _ _ _ after => after
  | _ => t

/-- Whether a cut was added. -/
def isCut : Event α → Bool
  | cut .. => true
  | _ => false

/-- The tableau of an optimum. -/
def optimum? : Event α → Option (Tableau α)
  | optimum t => some t
  | _ => none

/-- Events that neither change the tableau nor announce an optimum. -/
def Quiet : Event α → Prop
  | pivoted .. => False
  | cut .. => False
  | optimum _ => False
  | _ => True

end Event

/-- The number of cuts that a history tells of. -/
def cutsIn (events : List (Event α)) : Nat := events.countP Event.isCut

/-- The optima that a history tells of, in order. -/
def optimaIn (events : List (Event α)) : List (Tableau α) := events.filterMap Event.optimum?

/-- The tableau that a history leads to from `t`. -/
def Tableau.replay (t : Tableau α) (events : List (Event α)) : Tableau α := events.foldl Event.leave t

@[simp] theorem Tableau.replay_nil (t : Tableau α) : t.replay [] = t := rfl

@[simp] theorem Tableau.replay_cons (t : Tableau α) (e : Event α) (events : List (Event α)) :
    t.replay (e :: events) = (e.leave t).replay events := rfl

@[simp] theorem Tableau.replay_append (t : Tableau α) (past more : List (Event α)) :
    t.replay (past ++ more) = (t.replay past).replay more := List.foldl_append

@[simp] theorem cutsIn_append (past more : List (Event α)) :
    cutsIn (past ++ more) = cutsIn past + cutsIn more := List.countP_append

@[simp] theorem optimaIn_append (past more : List (Event α)) :
    optimaIn (past ++ more) = optimaIn past ++ optimaIn more := List.filterMap_append

theorem mem_optimaIn {events : List (Event α)} {u : Tableau α} : u ∈ optimaIn events ↔ .optimum u ∈ events := by
  rw [optimaIn, List.mem_filterMap]
  constructor
  · rintro ⟨e, he, hu⟩
    cases e with
    | optimum w => exact Option.some.inj hu ▸ he
    | _ => cases hu
  · exact fun h => ⟨_, h, rfl⟩

theorem Event.IsNote.leave {e : Event α} (h : e.IsNote) (t : Tableau α) : e.leave t = t := by
  cases e with
  | pivoted => cases h
  | cut => cases h
  | _ => rfl

theorem Tableau.replay_notes {events : List (Event α)} (h : ∀ e ∈ events, e.IsNote) (t : Tableau α) :
    t.replay events = t := by
  induction events with
  | nil => rfl
  | cons e events ih =>
    rw [replay_cons, (h e (List.mem_cons_self ..)).leave]
    exact ih fun e' he' => h e' (List.mem_cons_of_mem _ he')

variable [Scalar α] {ε : α} {t u : Tableau α}

/-- What an event says is so at the tableau that it happens at. -/
def Event.HappensAt (ε : α) (t : Tableau α) : Event α → Prop
  | pivoted r s entering leaving after => (∃ purpose, t.searchMove ε = .pivot purpose r s) ∧
      t.pivot? r s = .ok after ∧ entering = t.columnLabel s ∧ leaving = t.rowLabel r
  | cut source label row after => t.searchMove ε = .halt .optimal ∧
      (∃ part, t.mostFractional? ε = some (source, part)) ∧ (t.addCut source ε).result = .ok label ∧
      (∃ i, t.rowOf? source = some i ∧ row = t.cutRow i) ∧ after = (t.addCut source ε).tableau
  | optimum u => u = t ∧ t.searchMove ε = .halt .optimal
  | _ => True

/-- Every event of the history happens at the tableau that the events before it lead to. -/
def Tells (ε : α) : Tableau α → List (Event α) → Prop
  | _, [] => True
  | t, e :: events => e.HappensAt ε t ∧ Tells ε (e.leave t) events

theorem tells_append {past more : List (Event α)} :
    Tells ε t (past ++ more) ↔ Tells ε t past ∧ Tells ε (t.replay past) more := by
  induction past generalizing t with
  | nil => simp [Tells]
  | cons e past ih => simp only [List.cons_append, Tells, ih, Tableau.replay_cons, and_assoc]

theorem Event.HappensAt.step {e : Event α} (h : e.HappensAt ε t) :
    e.leave t = t ∨ Tableau.Step ε t (e.leave t) := by
  cases e with
  | pivoted r s entering leaving after =>
    obtain ⟨⟨purpose, asked⟩, made, -⟩ := h
    exact .inr (.pivot asked made)
  | cut source label row after =>
    obtain ⟨optimum, ⟨part, chosen⟩, added, -, rfl⟩ := h
    exact .inr (.cut optimum chosen added)
  | _ => exact .inl rfl

-- What an event leaves, by the cuts that it tells of: the tableau itself, an exchange, or the cut of a row.
theorem Event.HappensAt.leave_cases {e : Event α} (h : e.HappensAt ε t) {P : Nat → Tableau α → Prop}
    (keep : P 0 t)
    (pivot : ∀ r s, r < t.objectiveRow → 1 ≤ s → s < t.width → P 0 (t.pivot r s))
    (cut : ∀ i, P 1 (t.addRow t.cutLabel (t.cutRow i))) : P (cutsIn [e]) (e.leave t) := by
  cases e with
  | pivoted r s entering leaving after =>
    obtain ⟨⟨purpose, asked⟩, made, -⟩ := h
    obtain ⟨hr, h1, hs, -⟩ := Tableau.searchMove_position asked
    obtain ⟨-, -, -, rfl⟩ := Tableau.pivot?_eq_ok.1 made
    exact pivot r s hr h1 hs
  | cut source label row after =>
    obtain ⟨-, -, added, -, rfl⟩ := h
    obtain ⟨i, -, htableau⟩ := Tableau.addCut_of_ok added
    rw [Event.leave, htableau]
    exact cut i
  | _ => exact keep

/-- The induction along the exchanges and the cuts that a history tells of, with the number of the cuts. -/
theorem Tells.replay_induction {P : Nat → Tableau α → Prop}
    (pivot : ∀ cuts t r s, r < t.objectiveRow → 1 ≤ s → s < t.width → P cuts t → P cuts (t.pivot r s))
    (cut : ∀ cuts t i, P cuts t → P (cuts + 1) (t.addRow t.cutLabel (t.cutRow i)))
    {events : List (Event α)} (h : Tells ε t events) (cuts : Nat) (start : P cuts t) :
    P (cuts + cutsIn events) (t.replay events) := by
  induction events generalizing cuts t with
  | nil => exact start
  | cons e events ih =>
    have hstep : P (cuts + cutsIn [e]) (e.leave t) :=
      h.1.leave_cases (P := fun more u => P (cuts + more) u) start
        (fun r s hr h1 hs => pivot cuts t r s hr h1 hs start) fun i => cut cuts t i start
    have hrest := ih h.2 _ hstep
    rwa [Nat.add_assoc, ← cutsIn_append] at hrest

/-- What a history leads to is reached by the steps of a solve. -/
theorem Tells.reaches {events : List (Event α)} (h : Tells ε t events) :
    Tableau.Reaches ε t (t.replay events) := by
  induction events generalizing t with
  | nil => exact .refl
  | cons e events ih =>
    rcases h.1.step with hsame | hstep
    · rw [Tableau.replay_cons, hsame]
      exact ih (hsame ▸ h.2)
    · exact .head hstep (ih h.2)

/-- At every point of its history a solve is at the tableau that the events so far lead to. -/
theorem Tells.split {e : Event α} {past more : List (Event α)} (h : Tells ε t (past ++ e :: more)) :
    Tableau.Reaches ε t (t.replay past) ∧ e.HappensAt ε (t.replay past) ∧
      Tableau.Reaches ε (t.replay past) (t.replay (past ++ e :: more)) := by
  obtain ⟨hpast, hmore⟩ := tells_append.1 h
  rw [Tableau.replay_append]
  exact ⟨hpast.reaches, hmore.1, hmore.reaches⟩

theorem Tells.optimum_reached {events : List (Event α)} (h : Tells ε t events)
    (hu : u ∈ optimaIn events) : Tableau.Reaches ε t u ∧ u.searchMove ε = .halt .optimal := by
  obtain ⟨past, more, rfl⟩ := List.append_of_mem (mem_optimaIn.1 hu)
  obtain ⟨hreaches, ⟨rfl, hmove⟩, -⟩ := h.split
  exact ⟨hreaches, hmove⟩

theorem Tells.exists_optimum_of_cuts {events : List (Event α)} (h : Tells ε t events)
    (hcuts : 0 < cutsIn events) : ∃ u, Tableau.Reaches ε t u ∧ u.searchMove ε = .halt .optimal ∧
      Tableau.Reaches ε u (t.replay events) := by
  obtain ⟨e, he, hcut⟩ := List.countP_pos_iff.1 hcuts
  obtain ⟨past, more, rfl⟩ := List.append_of_mem he
  obtain ⟨hbefore, hhappens, hafter⟩ := h.split
  cases e with
  | cut => exact ⟨_, hbefore, hhappens.1, hafter⟩
  | _ => cases hcut

/-! ### Records -/

/-- The events lead from `t` to `u`, and tell of this many cuts and of these optima. -/
structure Records (ε : α) (t : Tableau α) (events : List (Event α)) (u : Tableau α) (cuts : Nat)
    (optima : List (Tableau α)) : Prop where
  tells : Tells ε t events
  leads : t.replay events = u
  cuts_eq : cutsIn events = cuts
  optima_eq : optimaIn events = optima

theorem Records.append {w : Tableau α} {past more : List (Event α)} {m n : Nat}
    {xs ys : List (Tableau α)} (h : Records ε t past u m xs) (h' : Records ε u more w n ys) :
    Records ε t (past ++ more) w (m + n) (xs ++ ys) where
  tells := tells_append.2 ⟨h.tells, h.leads ▸ h'.tells⟩
  leads := by rw [Tableau.replay_append, h.leads, h'.leads]
  cuts_eq := by rw [cutsIn_append, h.cuts_eq, h'.cuts_eq]
  optima_eq := by rw [optimaIn_append, h.optima_eq, h'.optima_eq]

theorem Records.nil (ε : α) (t : Tableau α) : Records ε t [] t 0 [] := ⟨trivial, rfl, rfl, rfl⟩

theorem Records.quiet {e : Event α} (h : e.Quiet) : Records ε t [e] t 0 [] := by
  cases e with
  | pivoted => cases h
  | cut => cases h
  | optimum => cases h
  | _ => exact ⟨⟨trivial, trivial⟩, rfl, rfl, rfl⟩

theorem Records.of_quiet {events : List (Event α)} (h : ∀ e ∈ events, e.Quiet) :
    Records ε t events t 0 [] := by
  induction events with
  | nil => exact .nil ε t
  | cons e events ih =>
    have hfirst := Records.quiet (ε := ε) (t := t) (h e (List.mem_cons_self ..))
    exact hfirst.append (ih fun e' he' => h e' (List.mem_cons_of_mem _ he'))

/-! ### Passes -/

/-- The optima that a pass announces: its last tableau, if it ended with one. -/
def Run.optima (run : Run α (Except Fault Verdict)) : List (Tableau α) :=
  match run.result with
  | .ok .optimal => [run.tableau]
  | _ => []

namespace Tableau

theorem quiet_searchNotes (h : t.searchMove ε ≠ .halt .optimal) : ∀ e ∈ t.searchNotes ε, e.Quiet := by
  intro e he
  rcases mem_searchNotes he with ⟨i, label, x, rfl⟩ | ⟨i, x, rfl⟩ | ⟨j, label, rfl⟩ | ⟨-, hmove⟩
  · trivial
  · trivial
  · trivial
  · exact absurd hmove h

theorem searchNotes_of_optimal (h : t.searchMove ε = .halt .optimal) :
    t.searchNotes ε = [.optimum t] := by
  obtain ⟨hrow, hcolumn⟩ := certifies_of_searchMove h
  have hrepair : t.repairMove ε = .halt .feasible := by simp [repairMove_eq, hrow]
  simp [searchNotes_eq, repairNotes_eq, improveNotes_eq, hrepair, hcolumn]

/-- The events of choosing a move announce an optimum exactly where the search halts with one. -/
theorem records_searchNotes (t : Tableau α) (ε : α) : Records ε t (t.searchNotes ε) t 0
    (if t.searchMove ε = .halt .optimal then [t] else []) := by
  by_cases h : t.searchMove ε = .halt .optimal
  · rw [if_pos h, searchNotes_of_optimal h]
    exact ⟨⟨⟨rfl, h⟩, trivial⟩, rfl, rfl, rfl⟩
  · rw [if_neg h]
    exact .of_quiet (quiet_searchNotes h)

theorem records_pivot {purpose : Purpose} {r s : Nat} (h : t.searchMove ε = .pivot purpose r s)
    (hzero : (t.entry r s == 0) = false) :
    Records ε t [t.announced r s, t.made r s] (t.pivot r s) 0 [] := by
  obtain ⟨hr, -, hs, -⟩ := searchMove_position h
  have hlt := t.objectiveRow_lt
  have hmade : t.pivot? r s = .ok (t.pivot r s) := pivot?_eq_ok.2 ⟨by omega, hs, hzero, rfl⟩
  exact ⟨⟨trivial, ⟨⟨purpose, h⟩, hmade, rfl, rfl⟩, trivial⟩, rfl, rfl, rfl⟩

theorem records_choice {purpose : Purpose} {r s : Nat} (limit : Nat)
    (h : t.searchMove ε = .pivot purpose r s) :
    Records ε t ((searchRule ε limit).choice t purpose r) t 0 [] := by
  have hnotes := records_searchNotes t ε
  rw [h] at hnotes
  have hannounce : Records ε t (purpose.announce (α := α) r) t 0 [] := by
    cases purpose
    · exact .quiet trivial
    · exact .nil ε t
  exact hnotes.append hannounce

end Tableau

open Tableau

/-- A pass tells of its pivots, and announces an optimum exactly if it ends with one. -/
theorem records_follow (ε : α) (limit budget : Nat) (t : Tableau α) :
    let run := (searchRule ε limit).follow budget t
    Records ε t run.events run.tableau 0
      (Run.optima ⟨run.result.map Prod.fst, run.tableau, run.events⟩) := by
  -- Along the pivots: one never happens at an optimum, so the notes before it are quiet.
  refine (Rule.searchRule_searches ε limit).follow_induction (P := fun t run => Records ε t run.events
    run.tableau 0 (Run.optima ⟨run.result.map Prod.fst, run.tableau, run.events⟩))
    (fun t verdict left hmove => ?_) (fun t purpose r s hmove => ?_) (fun t purpose r s hmove _ => ?_)
    (fun t purpose r s rest hmove hzero ih => ?_) budget t
  · have hnotes := records_searchNotes t ε
    have hhalt : t.searchMove ε = .halt verdict := hmove
    rw [hhalt] at hnotes
    cases verdict <;> exact hnotes
  · have hnotes := records_searchNotes t ε
    have hpivot : t.searchMove ε = .pivot purpose r s := hmove
    rw [hpivot] at hnotes
    refine hnotes.append (.quiet ?_)
    cases purpose <;> trivial
  · refine (records_choice limit hmove).append (.of_quiet ?_)
    intro e he
    rcases List.mem_pair.1 he with rfl | rfl <;> trivial
  · exact ((records_choice limit hmove).append (records_pivot hmove hzero)).append ih

theorem records_optimize (t : Tableau α) (ε : α) (budget : Nat) :
    Records ε t (t.optimize ε budget).events (t.optimize ε budget).tableau 0
      (t.optimize ε budget).optima :=
  records_follow ε budget budget t

/-! ### Rounds -/

/-- The cuts that a round adds. -/
def Round.cuts : Except Fault (Round α) → Nat
  | .ok .cut => 1
  | _ => 0

theorem records_addCut {label : String} {part : α} (optimum : t.searchMove ε = .halt .optimal)
    (chosen : t.mostFractional? ε = some (label, part)) {name : String}
    (added : (t.addCut label ε).result = .ok name) :
    Records ε t (t.addCut label ε).events (t.addCut label ε).tableau 1 [] := by
  obtain ⟨rfl, i, hrow, hcut⟩ := addCut_eq_of_ok added
  have hhappens : Event.HappensAt ε t (.cut label t.cutLabel (t.cutRow i)
      (t.addRow t.cutLabel (t.cutRow i))) :=
    ⟨optimum, ⟨part, chosen⟩, added, ⟨i, hrow, rfl⟩, by rw [hcut]⟩
  rw [hcut]
  exact ⟨⟨hhappens, trivial⟩, rfl, rfl, rfl⟩

theorem quiet_addCut {label : String} {reason : CutError}
    (refused : (t.addCut label ε).result = .error reason) : ∀ e ∈ (t.addCut label ε).events, e.Quiet := by
  revert refused
  refine addCut_cases (P := fun run => run.result = .error reason → ∀ e ∈ run.events, e.Quiet)
    (fun _ _ => ?_) (fun _ _ _ => ?_) (fun i _ h => ?_)
  · simp
  · simp [Event.Quiet]
  · cases h

theorem records_cutRound (cuts : Nat) (h : t.searchMove ε = .halt .optimal) :
    Records ε t (cutRound ε cuts t).events (cutRound ε cuts t).tableau
      (Round.cuts (.ok (cutRound ε cuts t).result)) [] := by
  have hfractional (label : String) (part : α) : Records ε t [.fractional label part] t 0 [] :=
    .quiet trivial
  refine cutRound_cases (P := fun run => Records ε t run.events run.tableau
    (Round.cuts (.ok run.result)) []) (fun _ => .quiet trivial) (fun label part reason _ refused => ?_)
    (fun label part name chosen added => ?_)
  · exact ((hfractional label part).append (.of_quiet (quiet_addCut refused))).append
      (.quiet (e := .uncut reason) trivial)
  · exact (hfractional label part).append (records_addCut h chosen added)

/-- A round announces the optimum of its pass, and tells of its cut if it adds one. -/
theorem records_runRound (options : Options α) (cuts : Nat) (t : Tableau α) :
    Records options.epsilon t (runRound options cuts t).events (runRound options cuts t).tableau
      (Round.cuts (runRound options cuts t).result)
      (t.optimize options.epsilon (options.pivotLimit t)).optima := by
  have hround : Records options.epsilon t [.round (cuts + 1)] t 0 [] := .quiet trivial
  have hpass := hround.append (records_optimize t options.epsilon (options.pivotLimit t))
  refine runRound_cases (P := fun run => Records options.epsilon t run.events run.tableau
    (Round.cuts run.result) (t.optimize options.epsilon (options.pivotLimit t)).optima) rfl
    (fun fault _ => hpass) (fun s _ => hpass) (fun r _ => hpass) (fun _ => ?_) (fun hresult => ?_)
  · have hstalled := hpass.append (.quiet (e := .stalled cuts) trivial)
    rwa [List.append_nil] at hstalled
  · have hmove := (optimize_eq_ok hresult).resolve_right nofun
    have hcut := hpass.append (records_cutRound cuts hmove)
    rwa [List.append_nil, Nat.zero_add] at hcut

/-! ### Whole solves -/

section Rounds

variable {options : Options α} {flag : StopFlag α}

theorem cutsIn_of_cut {cuts : Nat} (h : (runRound options cuts t).result = .ok .cut) :
    cutsIn (runRound options cuts t).events = 1 := by
  rw [(records_runRound options cuts t).cuts_eq, h]
  rfl

/-- A round is never ended by the flag, and the solution that it ends with counts the cuts so far. -/
theorem solution_of_ended {cuts : Nat} {solution : Solution α}
    (h : (runRound options cuts t).result = .ok (.ended solution)) :
    solution.cuts = cuts ∧ solution.outcome ≠ .cancelled := by
  revert h
  refine runRound_cases (P := fun run => run.result = .ok (.ended solution) →
    solution.cuts = cuts ∧ solution.outcome ≠ .cancelled) rfl (fun _ _ h => ?_) (fun _ _ h => ?_)
    (fun _ _ h => ?_) (fun _ h => ?_) (fun _ h => ?_)
  · cases h
  · obtain rfl := Round.ended.inj (Except.ok.inj h)
    exact ⟨rfl, nofun⟩
  · obtain rfl := Round.ended.inj (Except.ok.inj h)
    exact ⟨rfl, nofun⟩
  · obtain rfl := Round.ended.inj (Except.ok.inj h)
    exact ⟨rfl, nofun⟩
  · have hcut := Except.ok.inj h
    revert hcut
    refine cutRound_cases (P := fun run => run.result = .ended solution →
      solution.cuts = cuts ∧ solution.outcome ≠ .cancelled) (fun _ h => ?_) (fun _ _ _ _ _ h => ?_)
      (fun _ _ _ _ _ h => ?_)
    · obtain rfl := Round.ended.inj h
      exact ⟨rfl, nofun⟩
    · obtain rfl := Round.ended.inj h
      exact ⟨rfl, nofun⟩
    · cases h

/-- The events of the run lead to where it ends, and a solution counts the cuts they tell of, those
before the run included. -/
structure Recorded (ε : α) (cuts : Nat) (t : Tableau α) (run : Run α (Except Fault (Solution α))) :
    Prop where
  tells : Tells ε t run.events
  leads : t.replay run.events = run.tableau
  counts : ∀ solution, run.result = .ok solution → solution.cuts = cuts + cutsIn run.events

theorem rounds_recorded (options : Options α) (flag : StopFlag α) (remaining cuts : Nat)
    (past : List (Event α)) (t : Tableau α) :
    Recorded options.epsilon cuts t (rounds options flag remaining cuts past t) := by
  -- By cases of how a solve goes on: stopped, ended by a fault, ended by a solution, out of cuts, cut again.
  refine rounds_induction (P := Recorded options.epsilon) (fun cuts past t _ => ?_)
    (fun cuts t fault hround => ?_) (fun cuts t solution hround => ?_) (fun cuts t hround => ?_)
    (fun cuts t rest hround ih => ?_) remaining cuts past t
  · exact ⟨⟨trivial, trivial⟩, rfl, fun solution h => Except.ok.inj h ▸ rfl⟩
  · have hrecords := records_runRound options cuts t
    exact ⟨hrecords.tells, hrecords.leads, fun solution h => by cases h⟩
  · have hrecords := records_runRound options cuts t
    refine ⟨hrecords.tells, hrecords.leads, fun solution' h => ?_⟩
    obtain rfl := Except.ok.inj h
    rw [hrecords.cuts_eq, hround, (solution_of_ended hround).1]
    rfl
  · have hrecords := (records_runRound options cuts t).append (.quiet (e := .cutsSpent options.maxCuts) trivial)
    refine ⟨hrecords.tells, hrecords.leads, fun solution h => ?_⟩
    obtain rfl := Except.ok.inj h
    rw [hrecords.cuts_eq, hround]
    rfl
  · have hrecords := records_runRound options cuts t
    refine ⟨tells_append.2 ⟨hrecords.tells, ?_⟩, ?_, fun solution h => ?_⟩
    · rw [hrecords.leads]
      exact ih.tells
    · rw [replay_append, hrecords.leads]
      exact ih.leads
    · rw [ih.counts solution h, cutsIn_append, hrecords.cuts_eq, hround]
      exact Nat.add_assoc cuts 1 (cutsIn rest.events)

theorem lt_cuts_of_cut {remaining cuts : Nat} {past : List (Event α)} (hflag : ¬ flag.raised past = true)
    (hround : (runRound options cuts t).result = .ok .cut) {solution : Solution α}
    (h : (rounds options flag remaining cuts past t).result = .ok solution) : cuts < solution.cuts := by
  obtain ⟨more, hmore⟩ := exists_rounds_events options remaining cuts t hflag
  rw [(rounds_recorded options flag remaining cuts past t).counts solution h, hmore, cutsIn_append,
    cutsIn_of_cut hround]
  omega

theorem solve_recorded (t : Tableau α) (options : Options α) (flag : StopFlag α) :
    Recorded options.epsilon 0 t (t.solve options flag) :=
  rounds_recorded options flag options.maxCuts 0 [] t

end Rounds
end CuttingPlane

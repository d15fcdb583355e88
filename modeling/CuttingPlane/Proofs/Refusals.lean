import CuttingPlane.Proofs.CutNames
import CuttingPlane.Proofs.Faults
import CuttingPlane.Proofs.Histories
import CuttingPlane.Proofs.Start

/-!
# Refused cuts

A solve gives up where the cut that it asked for is refused. That never happens: in doubles too, at any
tolerance, the row with the largest fractional part is found again by its label, and it is not whole. What
is put in is that row's cut and nothing else. So where a solve says that there is no whole point, the last
pass said so.
-/

namespace CuttingPlane

/-! ### Sizes of doubles -/

namespace Binary64

open Float.Model

variable {x y ε : Float}

theorem not_lt_negative_infinity (hy : y.toModel.unpack = .infinity .negative) : ¬ x < y := by
  rw [lt_eq, hy]
  cases x.toModel.unpack with
  | infinity s => cases s <;> nofun
  | finite s => cases s <;> nofun
  | _ => nofun

theorem not_positive_infinity_lt (hx : x.toModel.unpack = .infinity .positive) : ¬ x < y := by
  rw [lt_eq, hx]
  cases y.toModel.unpack with
  | infinity s => cases s <;> nofun
  | _ => nofun

theorem unpack_abs_neg_infinity (hx : x.toModel.unpack = .infinity .positive) :
    (Scalar.abs (-x)).toModel.unpack = .infinity .positive := by
  have hneg : (-x).toModel.unpack = .infinity .negative := unpack_neg_infinity hx
  have hbelow : -x < 0 := by rw [lt_eq, hneg, unpack_zero]; rfl
  unfold Scalar.abs
  rw [if_pos (show -x < 0 from hbelow)]
  exact unpack_neg_infinity hneg

/-- A double in a comparison that holds is finite or infinite. -/
theorem value?_or_infinite (h : x.isNaN = false) :
    (∃ a, value? x = some a) ∨ ∃ s, x.toModel.unpack = .infinity s := by
  rcases unpack_cases x with hx | hx | hx
  · have hnan : x.isNaN = x.toModel.unpack.isNaN := rfl
    rw [hnan, hx] at h
    cases h
  · exact .inr hx
  · exact .inl hx

/-- Every double discerns, an infinity and a NaN included. -/
theorem discerns (ε : Float) : Discerns ε := by
  intro x hx hsize
  rcases value?_or_infinite (isNaN_left_of_lt hx) with ⟨b, hb⟩ | ⟨s, hε⟩
  · rcases value?_or_infinite (isNaN_right_of_lt hx) with ⟨a, ha⟩ | ⟨s, hinfinite⟩
    · rw [lt_iff hb ha] at hx
      rw [lt_iff (value?_abs (value?_neg ha)) hb, abs_neg] at hsize
      exact absurd (hx.trans_le (le_abs_self a)) hsize.not_gt
    · cases s with
      | positive => exact not_positive_infinity_lt (unpack_abs_neg_infinity hinfinite) hsize
      | negative => exact not_lt_negative_infinity hinfinite hx
  · cases s with
    | positive => exact not_positive_infinity_lt hε hx
    | negative => exact not_lt_negative_infinity hε hsize

end Binary64

variable {α : Type} [Scalar α]

/-! ### What a cut leaves as it is -/

namespace Tableau

variable {t u : Tableau α} {name : String} {row : List α}

/-- The second tableau is the first with the row of `name` put in above the objective. No other entry is
changed, no other label, and none of the variables that are decided on. -/
structure PutsIn (t : Tableau α) (name : String) (row : List α) (u : Tableau α) : Prop where
  height : u.height = t.height + 1
  width : u.width = t.width
  above : ∀ i < t.objectiveRow, u.rowLabel i = t.rowLabel i ∧ ∀ j < t.width, u.entry i j = t.entry i j
  new : u.rowLabel t.objectiveRow = name ∧ ∀ j < t.width, u.entry t.objectiveRow j = row.getD j 0
  objective : u.rowLabel u.objectiveRow = t.rowLabel t.objectiveRow ∧
    ∀ j < t.width, u.entry u.objectiveRow j = t.entry t.objectiveRow j
  nonbasic : u.nonbasic = t.nonbasic
  decision : u.decision = t.decision

theorem putsIn_addRow (t : Tableau α) (name : String) (row : List α) :
    t.PutsIn name row (t.addRow name row) := by
  have hlast := t.objectiveRow_add_one
  refine ⟨height_addRow .., width_addRow .., fun i hi => ⟨?_, fun j hj => ?_⟩, ⟨?_, fun j hj => ?_⟩,
    ⟨?_, fun j hj => ?_⟩, rfl, rfl⟩
  · rw [rowLabel_addRow row (by omega), if_pos hi]
  · rw [entry_addRow _ _ _ (by omega) hj, if_pos hi]
  · rw [rowLabel_addRow row (by omega), if_neg (Nat.lt_irrefl _), if_pos rfl]
  · rw [entry_addRow _ _ _ (by omega) hj, if_neg (Nat.lt_irrefl _), if_pos rfl]
  · rw [objectiveRow_addRow, rowLabel_addRow row (by omega), if_neg (by omega), if_neg (by omega),
      Nat.add_sub_cancel]
  · rw [objectiveRow_addRow, entry_addRow _ _ _ (by omega) hj, if_neg (by omega), if_neg (by omega),
      Nat.add_sub_cancel]

theorem PutsIn.objective_eq (h : t.PutsIn name row u) : u.objective = t.objective :=
  h.objective.2 0 t.zero_lt_width

/-- A new name leaves the values of the variables that were there. -/
theorem solution_addRow (row : List α) (hname : name ∉ t.labels) (hdecision : t.decision ⊆ t.labels) :
    (t.addRow name row).solution = t.solution := by
  have hvalue : ∀ label ∈ t.decision, (t.addRow name row).value label = t.value label :=
    fun label hlabel => value_addRow_of_ne row fun h => hname (h ▸ hdecision hlabel)
  change (t.addRow name row).values t.decision = t.values t.decision
  rw [values, values, List.map_congr_left fun label hlabel => by rw [hvalue label hlabel]]

theorem Edits.decision_eq {cuts : Nat} (h : Edits t cuts u) : u.decision = t.decision := by
  induction h with
  | none => rfl
  | pivot _ made ih =>
    obtain ⟨-, -, -, rfl⟩ := pivot?_eq_ok.1 made
    exact ih
  | cut _ added ih =>
    obtain ⟨i, -, htableau⟩ := addCut_of_ok added
    rw [htableau]
    exact ih

/-- The variables that are decided on keep their labels through pivots and cuts. -/
theorem Edits.decision_subset {cuts : Nat} {matrix : Grid α} {basic nonbasic : List String}
    (hcreate : create matrix basic nonbasic = .ok t) (h : Edits t cuts u) : u.decision ⊆ u.labels := by
  obtain ⟨-, -, hnonbasic, hdecision, -⟩ := create_eq_ok hcreate
  intro label hlabel
  rw [h.decision_eq, hdecision, ← hnonbasic] at hlabel
  rw [h.labels_perm.mem_iff]
  exact List.mem_append_left _ (List.mem_append_right _ (List.mem_of_mem_drop hlabel))

end Tableau

/-! ### Solves without a refusal -/

open Tableau

/-- A cut was passed over or could not be added. -/
def Event.IsRefusal : Event α → Prop
  | noCut _ => True
  | uncut _ => True
  | _ => False

variable {options : Options α} {flag : StopFlag α} {cuts : Nat} {t : Tableau α}

theorem not_isRefusal_optimize (t : Tableau α) (ε : α) (budget : Nat) :
    ∀ e ∈ (t.optimize ε budget).events, ¬ e.IsRefusal := by
  refine (Rule.searchRule_searches ε budget).forall_follow (fun t e he => ?_) (fun purpose r => ?_)
    (fun _ => id) (fun _ _ => id) (fun _ _ _ => id) (fun _ _ _ => id) budget t
  · rcases mem_searchNotes he with ⟨i, label, x, rfl⟩ | ⟨i, x, rfl⟩ | ⟨j, label, rfl⟩ | ⟨rfl, -⟩ <;> exact id
  · cases purpose <;> exact id

theorem cutRound_not_refused {ε : α} (hε : Discerns ε) (cuts : Nat) (hd : t.labels.Nodup) :
    (∀ e ∈ (cutRound ε cuts t).events, ¬ e.IsRefusal) ∧
      ∀ solution, (cutRound ε cuts t).result = .ended solution → solution.outcome = .optimal := by
  refine cutRound_cases (P := fun run => (∀ e ∈ run.events, ¬ e.IsRefusal) ∧
    ∀ solution, run.result = .ended solution → solution.outcome = .optimal)
    (fun _ => ?_) (fun label part reason hchosen hrefused => ?_) (fun label part name hchosen _ => ?_)
  · exact ⟨List.forall_mem_singleton.2 id, fun solution h => Round.ended.inj h ▸ rfl⟩
  · obtain ⟨i, -, -, hcut⟩ := addCut_of_chosen hε hd hchosen
    rw [hcut] at hrefused
    cases hrefused
  · obtain ⟨i, -, -, hcut⟩ := addCut_of_chosen hε hd hchosen
    rw [hcut]
    exact ⟨List.forall_mem_cons.2 ⟨id, List.forall_mem_singleton.2 id⟩, nofun⟩

/-- The pass of the round that begins after these events. -/
def passAfter (options : Options α) (t : Tableau α) (past : List (Event α)) : Run α (Except Fault Verdict) :=
  (t.replay past).optimize options.epsilon (options.pivotLimit (t.replay past))

/-- The run ends with the pass of the round after `past`, by this verdict of it. -/
structure EndsByPass (options : Options α) (cuts : Nat) (t : Tableau α)
    (run : Run α (Except Fault (Solution α))) (past : List (Event α)) (verdict : Verdict) : Prop where
  events : run.events = past ++ .round (cuts + cutsIn past + 1) :: (passAfter options t past).events
  result : (passAfter options t past).result = .ok verdict
  tableau : run.tableau = (passAfter options t past).tableau

/-- No cut is refused in the run, and where it finds that there is no whole point, its last pass did. -/
structure NeverRefused (options : Options α) (cuts : Nat) (t : Tableau α)
    (run : Run α (Except Fault (Solution α))) : Prop where
  events : ∀ e ∈ run.events, ¬ e.IsRefusal
  infeasible : ∀ solution, run.result = .ok solution → solution.outcome = .infeasible →
    ∃ past r, EndsByPass options cuts t run past (.infeasible r)

theorem runRound_neverRefused (hε : Discerns options.epsilon) (cuts : Nat) (hl : t.WellLabelled) :
    (∀ e ∈ (runRound options cuts t).events, ¬ e.IsRefusal) ∧
      ∀ solution, (runRound options cuts t).result = .ok (.ended solution) →
        solution.outcome = .infeasible → ∃ r, EndsByPass options cuts t
          ⟨.ok solution, (runRound options cuts t).tableau, (runRound options cuts t).events⟩ []
          (.infeasible r) := by
  have hpass : ∀ e ∈ Event.round (cuts + 1) ::
      (t.optimize options.epsilon (options.pivotLimit t)).events, ¬ e.IsRefusal :=
    List.forall_mem_cons.2 ⟨id, not_isRefusal_optimize t _ _⟩
  refine runRound_cases (P := fun run => (∀ e ∈ run.events, ¬ e.IsRefusal) ∧
    ∀ solution, run.result = .ok (.ended solution) → solution.outcome = .infeasible →
      ∃ r, EndsByPass options cuts t ⟨.ok solution, run.tableau, run.events⟩ [] (.infeasible r)) rfl
    (fun fault _ => ⟨hpass, nofun⟩) (fun s _ => ⟨hpass, fun solution h ho => ?_⟩)
    (fun r hresult => ⟨hpass, fun solution h ho => ?_⟩) (fun _ => ⟨?_, fun solution h ho => ?_⟩)
    (fun hresult => ?_)
  · obtain rfl := Round.ended.inj (Except.ok.inj h)
    cases ho
  · exact ⟨r, rfl, hresult, rfl⟩
  · exact List.forall_mem_append.2 ⟨hpass, List.forall_mem_singleton.2 id⟩
  · obtain rfl := Round.ended.inj (Except.ok.inj h)
    cases ho
  · have hreaches := optimize_reaches t options.epsilon (options.pivotLimit t)
    obtain ⟨hevents, hwhole⟩ := cutRound_not_refused hε cuts (hreaches.wellLabelled hl).distinct
    refine ⟨List.forall_mem_append.2 ⟨hpass, hevents⟩, fun solution h ho => ?_⟩
    rw [hwhole solution (Except.ok.inj h)] at ho
    cases ho

/-- Distinct labels stay so, and with them no cut of a solve is refused. -/
theorem rounds_neverRefused (hε : Discerns options.epsilon) (flag : StopFlag α) (remaining cuts : Nat)
    (past : List (Event α)) (hl : t.WellLabelled) :
    NeverRefused options cuts t (rounds options flag remaining cuts past t) := by
  refine rounds_induction
    (P := fun cuts t run => t.WellLabelled → NeverRefused options cuts t run)
    (fun cuts past t _ hl => ⟨List.forall_mem_singleton.2 id, fun solution h ho => ?_⟩)
    (fun cuts t fault hround hl => ⟨(runRound_neverRefused hε cuts hl).1, nofun⟩)
    (fun cuts t solution hround hl => ?_) (fun cuts t hround hl => ⟨?_, fun solution h ho => ?_⟩)
    (fun cuts t rest hround ih hl => ?_) remaining cuts past t hl
  · obtain rfl := Except.ok.inj h
    cases ho
  · obtain ⟨hevents, hends⟩ := runRound_neverRefused hε cuts hl
    refine ⟨hevents, fun solution' h ho => ?_⟩
    obtain rfl := Except.ok.inj h
    exact ⟨[], hends solution hround ho⟩
  · exact List.forall_mem_append.2 ⟨(runRound_neverRefused hε cuts hl).1, List.forall_mem_singleton.2 id⟩
  · obtain rfl := Except.ok.inj h
    cases ho
  · have hreaches := (runRound_reaches options cuts t).1
    have hrest := ih (hreaches.wellLabelled hl)
    refine ⟨List.forall_mem_append.2 ⟨(runRound_neverRefused hε cuts hl).1, hrest.events⟩,
      fun solution h ho => ?_⟩
    obtain ⟨past, r, hpass⟩ := hrest.infeasible solution h ho
    -- The events of the round lead to where the rest begins, and tell of its one cut.
    have hafter : passAfter options t ((runRound options cuts t).events ++ past) =
        passAfter options (runRound options cuts t).tableau past := by
      rw [passAfter, replay_append, (records_runRound options cuts t).leads, passAfter]
    have hnumber : cuts + cutsIn ((runRound options cuts t).events ++ past) + 1 =
        cuts + 1 + cutsIn past + 1 := by
      rw [cutsIn_append, cutsIn_of_cut hround, Nat.add_assoc cuts 1]
    refine ⟨(runRound options cuts t).events ++ past, r, ?_, ?_, ?_⟩
    · rw [hafter, hnumber, hpass.events, List.append_assoc]
    · rw [hafter, hpass.result]
    · rw [hafter, hpass.tableau]

/-- In doubles, at any tolerance, the cut that a solve asks for is never refused. It puts in one row, whose
right-hand side is exactly the negated fractional part, and leaves the rest of the tableau, the objective
and, unless its name is taken, the values of all variables as they were. So a solve of a problem meets no
refusal, and where it ends as infeasible its last pass did. -/
theorem no_cut_refused :
    (∀ t : Tableau Float, t.labels.Nodup → ∀ (ε : Float) (source : String) (part : Float),
      t.mostFractional? ε = some (source, part) →
        let u := (t.addCut source ε).tableau
        (t.addCut source ε).result = .ok t.cutLabel ∧ (∃ row, t.PutsIn t.cutLabel row u) ∧
        u.rhs t.objectiveRow = -part ∧ u.objective = t.objective ∧
        (t.cutLabel ∉ t.labels → t.decision ⊆ t.labels → u.solution = t.solution)) ∧
    (∀ (matrix : Grid Float) (basic nonbasic : List String) (t₀ t : Tableau Float) (cuts : ℕ),
      create matrix basic nonbasic = .ok t₀ → Edits t₀ cuts t → t.decision ⊆ t.labels) ∧
    ∀ (p : Problem Float) (t : Tableau Float), p.tableau = .ok t →
      ∀ (options : Options Float) (flag : StopFlag Float),
        let run := t.solve options flag
        (∀ reason, .uncut reason ∉ run.events) ∧
        ∀ solution, run.result = .ok solution → solution.outcome = .infeasible →
          ∃ past r, EndsByPass options 0 t run past (.infeasible r) := by
  refine ⟨fun t hd ε source part hchosen => ?_, fun matrix basic nonbasic t₀ t cuts hcreate hedits =>
    hedits.decision_subset hcreate, fun p t h options flag => ?_⟩
  · obtain ⟨i, -, rfl, hcut⟩ := addCut_of_chosen (Binary64.discerns ε) hd hchosen
    have hputs := t.putsIn_addRow t.cutLabel (t.cutRow i)
    rw [hcut]
    refine ⟨rfl, ⟨_, hputs⟩, ?_, hputs.objective_eq, solution_addRow _⟩
    rw [rhs, hputs.new.2 0 t.zero_lt_width, getD_cutRow i t.zero_lt_width, rhs]
  · have hrun := rounds_neverRefused (Binary64.discerns options.epsilon) flag options.maxCuts 0 []
      (Problem.poses_of_tableau h).labelled
    exact ⟨fun reason hmem => hrun.events _ hmem trivial, hrun.infeasible⟩

-- The optimum of one and a half is cut, which leaves a row that cannot be repaired.
theorem no_cut_refused_half :
    (∃ t : Tableau Float, create ⟨2, 2, #v[1.5, 1.5, 1, 1]⟩ ["x1", "F"] ["RHS", "x2"] = .ok t ∧
      (t.addCut "x1" 0).result = .ok "cut4" ∧ (t.addCut "x1" 0).tableau.rhs 1 = -0.5 ∧
      (t.addCut "x1" 0).tableau.solution = t.solution) ∧
    ∃ t : Tableau Float, (⟨[1.5], [[1]], [1]⟩ : Problem Float).tableau = .ok t ∧
      ∃ past r, EndsByPass ⟨0, 20, none⟩ 0 t (t.solve ⟨0, 20, none⟩ .never) past (.infeasible r) := by
  obtain ⟨hadded, hdecided, hsolved⟩ := no_cut_refused
  constructor
  · obtain ⟨t, hcreate, hlabels, hchosen, hrow, hname, hfresh⟩ : ∃ t : Tableau Float,
        create ⟨2, 2, #v[1.5, 1.5, 1, 1]⟩ ["x1", "F"] ["RHS", "x2"] = .ok t ∧ t.labels.Nodup ∧
          t.mostFractional? 0 = some ("x1", 0.5) ∧ t.objectiveRow = 1 ∧ t.cutLabel = "cut4" ∧
          t.cutLabel ∉ t.labels := ⟨_, rfl, by decide +kernel⟩
    obtain ⟨hresult, -, hrhs, -, hsolution⟩ := hadded t hlabels 0 "x1" 0.5 hchosen
    rw [hname] at hresult
    rw [hrow] at hrhs
    exact ⟨t, hcreate, hresult, hrhs, hsolution hfresh (hdecided _ _ _ t t 0 hcreate .none)⟩
  · obtain ⟨t, htableau, hresult⟩ : ∃ t : Tableau Float,
        (⟨[1.5], [[1]], [1]⟩ : Problem Float).tableau = .ok t ∧
          (t.solve ⟨0, 20, none⟩ .never).result.map Solution.outcome = .ok .infeasible :=
      ⟨_, rfl, by decide +kernel⟩
    obtain ⟨solution, hsolution, ho⟩ := map_eq_ok_iff.1 hresult
    exact ⟨t, htableau, (hsolved _ t htableau ⟨0, 20, none⟩ .never).2 solution hsolution ho⟩

end CuttingPlane

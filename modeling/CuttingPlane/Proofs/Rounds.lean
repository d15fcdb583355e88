import CuttingPlane.Proofs.Follow
import CuttingPlane.Solve
import Mathlib.Logic.Relation

/-!
# Solves as runs of steps

A solve changes its tableau in two ways only: by pivots that the search asks for, and by cuts at an
optimum that is not whole. Whatever is kept by these steps holds wherever a solve ends, and the
solution tells why it ended there.
-/

namespace CuttingPlane

variable {α : Type} [Scalar α]

/-- A number above `ε` keeps a size that is not below `ε` when it is negated. -/
def Discerns (ε : α) : Prop := ∀ x : α, ε < x → ¬ Scalar.abs (-x) < ε

namespace Tableau

/-- One change that a solve makes. -/
inductive Step (ε : α) : Tableau α → Tableau α → Prop
  | pivot {t u : Tableau α} {purpose : Purpose} {r s : Nat}
      (asked : t.searchMove ε = .pivot purpose r s) (made : t.pivot? r s = .ok u) : Step ε t u
  | cut {t : Tableau α} {label name : String} {part : α} (optimum : t.searchMove ε = .halt .optimal)
      (chosen : t.mostFractional? ε = some (label, part))
      (added : (t.addCut label ε).result = .ok name) : Step ε t (t.addCut label ε).tableau

/-- The second tableau comes out of the first by steps of a solve. -/
def Reaches (ε : α) : Tableau α → Tableau α → Prop := Relation.ReflTransGen (Step ε)

/-- Why a solve ends at a tableau, by the solution that it gives. -/
inductive Concludes (ε : α) (t : Tableau α) : Solution α → Prop
  | whole {cuts : Nat} (optimum : t.searchMove ε = .halt .optimal)
      (found : t.mostFractional? ε = none) : Concludes ε t (t.wholeSolution ε cuts)
  | unbounded {cuts s : Nat} (found : t.searchMove ε = .halt (.unbounded s)) :
      Concludes ε t (.failed .unbounded cuts)
  | infeasible {cuts r : Nat} (found : t.searchMove ε = .halt (.infeasible r)) :
      Concludes ε t (.failed .infeasible cuts)
  | uncut {cuts : Nat} {label : String} {part : α} {reason : CutError}
      (chosen : t.mostFractional? ε = some (label, part))
      (refused : (t.addCut label ε).result = .error reason) : Concludes ε t (.failed .infeasible cuts)
  | spent {cuts : Nat} : Concludes ε t (.failed .nonConvergent cuts)
  | stopped {cuts : Nat} : Concludes ε t (.failed .cancelled cuts)

variable {ε : α} {t u : Tableau α}

theorem Concludes.of_optimal {solution : Solution α} (h : t.Concludes ε solution)
    (ho : solution.outcome = .optimal) : t.searchMove ε = .halt .optimal ∧
      t.mostFractional? ε = none ∧ ∃ cuts, solution = t.wholeSolution ε cuts := by
  cases h with
  | whole optimum found => exact ⟨optimum, found, _, rfl⟩
  | _ => cases ho

theorem Concludes.of_infeasible {solution : Solution α} (h : t.Concludes ε solution)
    (ho : solution.outcome = .infeasible) : (∃ r, t.searchMove ε = .halt (.infeasible r)) ∨
      ∃ label part reason, t.mostFractional? ε = some (label, part) ∧
        (t.addCut label ε).result = .error reason := by
  cases h with
  | infeasible found => exact .inl ⟨_, found⟩
  | uncut chosen refused => exact .inr ⟨_, _, _, chosen, refused⟩
  | _ => cases ho

theorem addCut_cases {source : String} {P : Run α (Except CutError String) → Prop}
    (missing : t.rowOf? source = none → P ⟨.error (.noSuchRow source), t, []⟩)
    (degenerate : ∀ i, t.rowOf? source = some i → P ⟨.error (.degenerate source), t, [.noCut source]⟩)
    (added : ∀ i, t.rowOf? source = some i → P ⟨.ok t.cutLabel, t.addRow t.cutLabel (t.cutRow i),
      [.cut source t.cutLabel (t.cutRow i) (t.addRow t.cutLabel (t.cutRow i))]⟩) :
    P (t.addCut source ε) := by
  rw [addCut_eq]
  cases hrow : t.rowOf? source with
  | none => exact missing hrow
  | some i =>
    dsimp only
    split
    · exact degenerate i hrow
    · exact added i hrow

theorem getD_cutRow (i : Nat) {j : Nat} (hj : j < t.width) :
    (t.cutRow i).getD j 0 = -Scalar.fract (t.entry i j) := by
  have hlength : j < (t.cutRow i).length := by
    rw [cutRow_eq, List.length_map, Grid.length_row]
    exact hj
  rw [← List.getElem_eq_getD (h := hlength) 0]
  simp only [cutRow_eq, Grid.row, List.getElem_map, List.getElem_range]
  rfl

theorem addCut_of_error {label : String} {reason : CutError}
    (h : (t.addCut label ε).result = .error reason) : (t.addCut label ε).tableau = t := by
  revert h
  refine addCut_cases (P := fun run => run.result = .error reason → run.tableau = t)
    (fun _ _ => rfl) (fun _ _ _ => rfl) (fun i _ h => ?_)
  cases h

theorem addCut_eq_of_ok {source name : String} (h : (t.addCut source ε).result = .ok name) :
    name = t.cutLabel ∧ ∃ i, t.rowOf? source = some i ∧
      t.addCut source ε = ⟨.ok t.cutLabel, t.addRow t.cutLabel (t.cutRow i),
        [.cut source t.cutLabel (t.cutRow i) (t.addRow t.cutLabel (t.cutRow i))]⟩ := by
  revert h
  refine addCut_cases (P := fun run => run.result = .ok name → name = t.cutLabel ∧
    ∃ i, t.rowOf? source = some i ∧ run = ⟨.ok t.cutLabel, t.addRow t.cutLabel (t.cutRow i),
      [.cut source t.cutLabel (t.cutRow i) (t.addRow t.cutLabel (t.cutRow i))]⟩)
    (fun _ h => ?_) (fun _ _ h => ?_) (fun i hrow h => ?_)
  · cases h
  · cases h
  · exact ⟨(Except.ok.inj h).symm, i, hrow, rfl⟩

theorem addCut_of_ok {label name : String} (h : (t.addCut label ε).result = .ok name) :
    ∃ i, t.rowOf? label = some i ∧
      (t.addCut label ε).tableau = t.addRow t.cutLabel (t.cutRow i) := by
  obtain ⟨-, i, hrow, hcut⟩ := addCut_eq_of_ok h
  exact ⟨i, hrow, by rw [hcut]⟩

/-- The cut of the row that was chosen is not refused: the row is found by its label, and its right-hand side
alone keeps it from being passed over as whole. -/
theorem addCut_of_chosen (hε : Discerns ε) (hd : t.labels.Nodup) {label : String} {part : α}
    (h : t.mostFractional? ε = some (label, part)) :
    ∃ i < t.objectiveRow, part = Scalar.fract (t.rhs i) ∧
      t.addCut label ε = ⟨.ok t.cutLabel, t.addRow t.cutLabel (t.cutRow i),
        [.cut label t.cutLabel (t.cutRow i) (t.addRow t.cutLabel (t.cutRow i))]⟩ := by
  have hlt := t.objectiveRow_lt
  obtain ⟨i, hi, rfl, rfl, hpart, -⟩ := mostFractional?_row h
  have hlength : 0 < (t.cutRow i).length := by
    rw [cutRow_eq, List.length_map, Grid.length_row]
    exact t.zero_lt_width
  have hsome : ¬ ((t.cutRow i).all fun a => Scalar.abs a < ε) = true := by
    intro hall
    have hsize := List.all_eq_true.1 hall _ (List.getElem_mem hlength)
    rw [decide_eq_true_eq, List.getElem_eq_getD 0, getD_cutRow i t.zero_lt_width] at hsize
    exact hε _ hpart hsize
  refine ⟨i, hi, rfl, ?_⟩
  rw [addCut_eq]
  rw [rowOf?_rowLabel hd (by omega)]
  dsimp only
  rw [if_neg hsome]

/-- A step is an exchange or adds the cut of a row above the objective. -/
theorem Step.exchange_or_addRow (hd : t.labels.Nodup) (h : Step ε t u) :
    Exchange t u ∨ ∃ i < t.objectiveRow, u = t.addRow t.cutLabel (t.cutRow i) := by
  cases h with
  | pivot asked made => exact .inl (exchange_of_searchMove asked made)
  | cut optimum chosen added =>
    have hlt := t.objectiveRow_lt
    obtain ⟨i, hi, rfl, -⟩ := mostFractional?_row chosen
    obtain ⟨k, hrow, htableau⟩ := addCut_of_ok added
    rw [rowOf?_rowLabel hd (by omega)] at hrow
    obtain rfl := Option.some.inj hrow
    exact .inr ⟨i, hi, htableau⟩

theorem optimize_reaches (t : Tableau α) (ε : α) (budget : Nat) :
    Reaches ε t (t.optimize ε budget).tableau := by
  obtain ⟨n, -, hpath⟩ := optimize_path t ε budget
  exact hpath.reflTransGen fun ⟨asked, made⟩ => .pivot asked made

end Tableau

open Tableau

/-! ### Rounds -/

theorem cutRound_cases {ε : α} {cuts : Nat} {t : Tableau α} {P : Run α (Round α) → Prop}
    (whole : t.mostFractional? ε = none → P ⟨.ended (t.wholeSolution ε cuts), t, [.solved cuts]⟩)
    (uncut : ∀ label part reason, t.mostFractional? ε = some (label, part) →
      (t.addCut label ε).result = .error reason → P ⟨.ended (.failed .infeasible cuts), t,
        .fractional label part :: (t.addCut label ε).events ++ [.uncut reason]⟩)
    (cut : ∀ label part name, t.mostFractional? ε = some (label, part) →
      (t.addCut label ε).result = .ok name → P ⟨.cut, (t.addCut label ε).tableau,
        .fractional label part :: (t.addCut label ε).events⟩) :
    P (cutRound ε cuts t) := by
  unfold cutRound
  cases hchosen : t.mostFractional? ε with
  | none => exact whole hchosen
  | some pair =>
    obtain ⟨label, part⟩ := pair
    cases hadded : (t.addCut label ε).result with
    | error reason =>
      simp only [hadded, addCut_of_error hadded]
      exact uncut label part reason hchosen hadded
    | ok name =>
      simp only [hadded]
      exact cut label part name hchosen hadded

/-- How a round goes on after its pass. -/
theorem runRound_cases {options : Options α} {cuts : Nat} {t : Tableau α}
    {P : Run α (Except Fault (Round α)) → Prop} {pass : Run α (Except Fault Verdict)}
    (hpass : t.optimize options.epsilon (options.pivotLimit t) = pass)
    (fault : ∀ fault, pass.result = .error fault →
      P ⟨.error fault, pass.tableau, .round (cuts + 1) :: pass.events⟩)
    (unbounded : ∀ s, pass.result = .ok (.unbounded s) →
      P ⟨.ok (.ended (.failed .unbounded cuts)), pass.tableau, .round (cuts + 1) :: pass.events⟩)
    (infeasible : ∀ r, pass.result = .ok (.infeasible r) →
      P ⟨.ok (.ended (.failed .infeasible cuts)), pass.tableau, .round (cuts + 1) :: pass.events⟩)
    (stalled : pass.result = .ok .stalled → P ⟨.ok (.ended (.failed .nonConvergent cuts)), pass.tableau,
      .round (cuts + 1) :: pass.events ++ [.stalled cuts]⟩)
    (optimal : pass.result = .ok .optimal →
      P ⟨.ok (cutRound options.epsilon cuts pass.tableau).result,
        (cutRound options.epsilon cuts pass.tableau).tableau,
        .round (cuts + 1) :: pass.events ++ (cutRound options.epsilon cuts pass.tableau).events⟩) :
    P (runRound options cuts t) := by
  unfold runRound
  rw [hpass]
  cases hresult : pass.result with
  | error reason =>
    simp only [hresult]
    exact fault reason hresult
  | ok verdict =>
    simp only [hresult]
    cases verdict with
    | unbounded s => exact unbounded s hresult
    | infeasible r => exact infeasible r hresult
    | stalled => exact stalled hresult
    | optimal => exact optimal hresult

theorem runRound_of_optimal {options : Options α} {cuts : Nat} {t : Tableau α}
    (h : (t.optimize options.epsilon (options.pivotLimit t)).result = .ok .optimal) :
    (runRound options cuts t).result = .ok (cutRound options.epsilon cuts
      (t.optimize options.epsilon (options.pivotLimit t)).tableau).result := by
  unfold runRound
  simp only [h]

theorem cutRound_of_whole {ε : α} {cuts : Nat} {t : Tableau α} (h : t.mostFractional? ε = none) :
    (cutRound ε cuts t).result = .ended (t.wholeSolution ε cuts) := by
  unfold cutRound
  rw [h]

theorem cutRound_of_added {ε : α} {cuts : Nat} {t : Tableau α} {label name : String} {part : α}
    (h : t.mostFractional? ε = some (label, part)) (hadded : (t.addCut label ε).result = .ok name) :
    (cutRound ε cuts t).result = .cut := by
  unfold cutRound
  simp only [h, hadded]

theorem cutRound_reaches {ε : α} {t : Tableau α} (cuts : Nat) (h : t.searchMove ε = .halt .optimal) :
    Reaches ε t (cutRound ε cuts t).tableau ∧
      ∀ solution, (cutRound ε cuts t).result = .ended solution →
        (cutRound ε cuts t).tableau.Concludes ε solution := by
  refine cutRound_cases (P := fun run => Reaches ε t run.tableau ∧
    ∀ solution, run.result = .ended solution → run.tableau.Concludes ε solution)
    (fun hchosen => ?_) (fun label part reason hchosen hadded => ?_)
    (fun label part name hchosen hadded => ?_)
  · refine ⟨.refl, fun solution hsolution => ?_⟩
    obtain rfl := Round.ended.inj hsolution
    exact .whole h hchosen
  · refine ⟨.refl, fun solution hsolution => ?_⟩
    obtain rfl := Round.ended.inj hsolution
    exact .uncut hchosen hadded
  · refine ⟨.single (.cut h hchosen hadded), fun solution hsolution => ?_⟩
    cases hsolution

theorem runRound_reaches (options : Options α) (cuts : Nat) (t : Tableau α) :
    Reaches options.epsilon t (runRound options cuts t).tableau ∧
      ∀ solution, (runRound options cuts t).result = .ok (.ended solution) →
        (runRound options cuts t).tableau.Concludes options.epsilon solution := by
  have hpass := optimize_reaches t options.epsilon (options.pivotLimit t)
  refine runRound_cases (P := fun run => Reaches options.epsilon t run.tableau ∧
    ∀ solution, run.result = .ok (.ended solution) → run.tableau.Concludes options.epsilon solution) rfl
    (fun fault _ => ?_) (fun s hresult => ?_) (fun r hresult => ?_) (fun _ => ?_) (fun hresult => ?_)
  · exact ⟨hpass, fun solution h => by cases h⟩
  · refine ⟨hpass, fun solution h => ?_⟩
    obtain rfl := Round.ended.inj (Except.ok.inj h)
    exact .unbounded ((optimize_eq_ok hresult).resolve_right nofun)
  · refine ⟨hpass, fun solution h => ?_⟩
    obtain rfl := Round.ended.inj (Except.ok.inj h)
    exact .infeasible ((optimize_eq_ok hresult).resolve_right nofun)
  · refine ⟨hpass, fun solution h => ?_⟩
    obtain rfl := Round.ended.inj (Except.ok.inj h)
    exact .spent
  · obtain ⟨hcut, hends⟩ := cutRound_reaches cuts ((optimize_eq_ok hresult).resolve_right nofun)
    exact ⟨hpass.trans hcut, fun solution h => hends solution (Except.ok.inj h)⟩

theorem optimize_of_runRound_error {options : Options α} {cuts : Nat} {t : Tableau α} {fault : Fault}
    (h : (runRound options cuts t).result = .error fault) :
    (t.optimize options.epsilon (options.pivotLimit t)).result = .error fault := by
  revert h
  refine runRound_cases (P := fun run => run.result = .error fault →
    (t.optimize options.epsilon (options.pivotLimit t)).result = .error fault) rfl
    (fun reason hresult h => ?_) (fun s _ h => ?_) (fun r _ h => ?_) (fun _ h => ?_) (fun _ h => ?_)
  · rw [hresult, Except.error.inj h]
  all_goals cases h

/-! ### Whole solves -/

section Rounds

variable {options : Options α} {flag : StopFlag α} {remaining cuts : Nat} {past : List (Event α)}
  {t : Tableau α}

theorem rounds_of_raised (h : flag.raised past = true) :
    rounds options flag remaining cuts past t =
      ⟨.ok (.failed .cancelled cuts), t, [.cancelled cuts]⟩ := by
  unfold rounds
  rw [if_pos h]

theorem rounds_of_error (h : ¬ flag.raised past = true) {fault : Fault}
    (hround : (runRound options cuts t).result = .error fault) :
    rounds options flag remaining cuts past t =
      ⟨.error fault, (runRound options cuts t).tableau, (runRound options cuts t).events⟩ := by
  unfold rounds
  simp only [if_neg h, hround]

theorem rounds_of_ended (h : ¬ flag.raised past = true) {solution : Solution α}
    (hround : (runRound options cuts t).result = .ok (.ended solution)) :
    rounds options flag remaining cuts past t =
      ⟨.ok solution, (runRound options cuts t).tableau, (runRound options cuts t).events⟩ := by
  unfold rounds
  simp only [if_neg h, hround]

theorem rounds_zero_of_cut (h : ¬ flag.raised past = true)
    (hround : (runRound options cuts t).result = .ok .cut) :
    rounds options flag 0 cuts past t =
      ⟨.ok (.failed .nonConvergent (cuts + 1)), (runRound options cuts t).tableau,
        (runRound options cuts t).events ++ [.cutsSpent options.maxCuts]⟩ := by
  unfold rounds
  simp only [if_neg h, hround]

theorem rounds_succ_of_cut (h : ¬ flag.raised past = true)
    (hround : (runRound options cuts t).result = .ok .cut) :
    rounds options flag (remaining + 1) cuts past t =
      let now := runRound options cuts t
      let rest := rounds options flag remaining (cuts + 1) (past ++ now.events) now.tableau
      ⟨rest.result, rest.tableau, now.events ++ rest.events⟩ := by
  rw [rounds]
  simp only [if_neg h, hround]

-- How the first round of a solve ends it, or that the solve goes on after a cut.
theorem rounds_cases {P : Run α (Except Fault (Solution α)) → Prop}
    (stopped : flag.raised past = true → P ⟨.ok (.failed .cancelled cuts), t, [.cancelled cuts]⟩)
    (fault : ∀ fault, (runRound options cuts t).result = .error fault →
      P ⟨.error fault, (runRound options cuts t).tableau, (runRound options cuts t).events⟩)
    (ended : ∀ solution, (runRound options cuts t).result = .ok (.ended solution) →
      P ⟨.ok solution, (runRound options cuts t).tableau, (runRound options cuts t).events⟩)
    (cut : ¬ flag.raised past = true → (runRound options cuts t).result = .ok .cut →
      P (rounds options flag remaining cuts past t)) :
    P (rounds options flag remaining cuts past t) := by
  by_cases hflag : flag.raised past = true
  · rw [rounds_of_raised hflag]
    exact stopped hflag
  cases hround : (runRound options cuts t).result with
  | error reason =>
    rw [rounds_of_error hflag hround]
    exact fault reason hround
  | ok round =>
    cases round with
    | ended solution =>
      rw [rounds_of_ended hflag hround]
      exact ended solution hround
    | cut => exact cut hflag hround

/-- A solve that is not stopped at once goes through its first round. -/
theorem exists_rounds_events (options : Options α) (remaining cuts : Nat) (t : Tableau α)
    (h : ¬ flag.raised past = true) : ∃ more,
      (rounds options flag remaining cuts past t).events = (runRound options cuts t).events ++ more := by
  refine rounds_cases (P := fun run => ∃ more, run.events = (runRound options cuts t).events ++ more)
    (fun hflag => absurd hflag h) (fun fault _ => ?_) (fun solution _ => ?_) (fun hflag hround => ?_)
  · exact ⟨[], (List.append_nil _).symm⟩
  · exact ⟨[], (List.append_nil _).symm⟩
  · cases remaining with
    | zero =>
      rw [rounds_zero_of_cut hflag hround]
      exact ⟨_, rfl⟩
    | succ remaining =>
      rw [rounds_succ_of_cut hflag hround]
      exact ⟨_, rfl⟩

/-- The induction along the rounds of a solve, each of which but the last uses up one of the cuts to go. -/
theorem rounds_cap_induction {P : Nat → Nat → Tableau α → Run α (Except Fault (Solution α)) → Prop}
    (stopped : ∀ remaining cuts past t, flag.raised past = true →
      P remaining cuts t ⟨.ok (.failed .cancelled cuts), t, [.cancelled cuts]⟩)
    (fault : ∀ remaining cuts t fault, (runRound options cuts t).result = .error fault → P remaining cuts t
      ⟨.error fault, (runRound options cuts t).tableau, (runRound options cuts t).events⟩)
    (ended : ∀ remaining cuts t solution, (runRound options cuts t).result = .ok (.ended solution) →
      P remaining cuts t
        ⟨.ok solution, (runRound options cuts t).tableau, (runRound options cuts t).events⟩)
    (spent : ∀ cuts t, (runRound options cuts t).result = .ok .cut → P 0 cuts t
      ⟨.ok (.failed .nonConvergent (cuts + 1)), (runRound options cuts t).tableau,
        (runRound options cuts t).events ++ [.cutsSpent options.maxCuts]⟩)
    (cut : ∀ remaining cuts t rest, (runRound options cuts t).result = .ok .cut →
      P remaining (cuts + 1) (runRound options cuts t).tableau rest → P (remaining + 1) cuts t
        ⟨rest.result, rest.tableau, (runRound options cuts t).events ++ rest.events⟩)
    (remaining cuts : Nat) (past : List (Event α)) (t : Tableau α) :
    P remaining cuts t (rounds options flag remaining cuts past t) := by
  induction remaining generalizing cuts past t with
  | zero =>
    refine rounds_cases (stopped 0 cuts past t) (fault 0 cuts t) (ended 0 cuts t) fun hflag hround => ?_
    rw [rounds_zero_of_cut hflag hround]
    exact spent cuts t hround
  | succ remaining ih =>
    refine rounds_cases (stopped _ cuts past t) (fault _ cuts t) (ended _ cuts t) fun hflag hround => ?_
    rw [rounds_succ_of_cut hflag hround]
    exact cut remaining cuts t _ hround (ih _ _ _)

/-- The induction along the rounds of a solve, whatever its cap. -/
theorem rounds_induction {P : Nat → Tableau α → Run α (Except Fault (Solution α)) → Prop}
    (stopped : ∀ cuts past t, flag.raised past = true →
      P cuts t ⟨.ok (.failed .cancelled cuts), t, [.cancelled cuts]⟩)
    (fault : ∀ cuts t fault, (runRound options cuts t).result = .error fault → P cuts t
      ⟨.error fault, (runRound options cuts t).tableau, (runRound options cuts t).events⟩)
    (ended : ∀ cuts t solution, (runRound options cuts t).result = .ok (.ended solution) → P cuts t
      ⟨.ok solution, (runRound options cuts t).tableau, (runRound options cuts t).events⟩)
    (spent : ∀ cuts t, (runRound options cuts t).result = .ok .cut → P cuts t
      ⟨.ok (.failed .nonConvergent (cuts + 1)), (runRound options cuts t).tableau,
        (runRound options cuts t).events ++ [.cutsSpent options.maxCuts]⟩)
    (cut : ∀ cuts t rest, (runRound options cuts t).result = .ok .cut →
      P (cuts + 1) (runRound options cuts t).tableau rest →
      P cuts t ⟨rest.result, rest.tableau, (runRound options cuts t).events ++ rest.events⟩)
    (remaining cuts : Nat) (past : List (Event α)) (t : Tableau α) :
    P cuts t (rounds options flag remaining cuts past t) :=
  rounds_cap_induction (P := fun _ => P) (fun _ => stopped) (fun _ => fault) (fun _ => ended) spent
    (fun _ => cut) remaining cuts past t

theorem exists_solve {options : Options α} (hε : Separates options.epsilon) (flag : StopFlag α)
    (t : Tableau α) : ∃ solution, (t.solve options flag).result = .ok solution := by
  change ∃ solution, (rounds options flag options.maxCuts 0 [] t).result = .ok solution
  refine rounds_induction (P := fun _ _ run => ∃ solution, run.result = .ok solution)
    (fun cuts past t _ => ⟨_, rfl⟩) (fun cuts t fault hround => ?_) (fun cuts t solution _ => ⟨solution, rfl⟩)
    (fun cuts t _ => ⟨_, rfl⟩) (fun cuts t rest _ ih => ih) options.maxCuts 0 [] t
  obtain ⟨verdict, hresult⟩ := exists_optimize hε t (options.pivotLimit t)
  rw [optimize_of_runRound_error hround] at hresult
  cases hresult

/-- Steps lead to where the run ends, and its solution says why it ended there. -/
def Lands (ε : α) (t : Tableau α) (run : Run α (Except Fault (Solution α))) : Prop :=
  Reaches ε t run.tableau ∧ ∀ solution, run.result = .ok solution → run.tableau.Concludes ε solution

theorem rounds_lands (options : Options α) (flag : StopFlag α) (remaining cuts : Nat)
    (past : List (Event α)) (t : Tableau α) :
    Lands options.epsilon t (rounds options flag remaining cuts past t) := by
  refine rounds_induction (P := fun _ t run => Lands options.epsilon t run) (fun cuts past t _ => ?_)
    (fun cuts t fault _ => ?_) (fun cuts t solution hround => ?_) (fun cuts t _ => ?_)
    (fun cuts t rest _ ih => ?_) remaining cuts past t
  · exact ⟨.refl, fun solution h => Except.ok.inj h ▸ .stopped⟩
  · exact ⟨(runRound_reaches options cuts t).1, fun solution h => by cases h⟩
  · obtain ⟨hreach, hends⟩ := runRound_reaches options cuts t
    exact ⟨hreach, fun solution' h => Except.ok.inj h ▸ hends solution hround⟩
  · exact ⟨(runRound_reaches options cuts t).1, fun solution h => Except.ok.inj h ▸ .spent⟩
  · exact ⟨(runRound_reaches options cuts t).1.trans ih.1, ih.2⟩

theorem solve_reaches (t : Tableau α) (options : Options α) (flag : StopFlag α) :
    Reaches options.epsilon t (t.solve options flag).tableau :=
  (rounds_lands options flag options.maxCuts 0 [] t).1

theorem solve_concludes {solution : Solution α} (h : (t.solve options flag).result = .ok solution) :
    (t.solve options flag).tableau.Concludes options.epsilon solution :=
  (rounds_lands options flag options.maxCuts 0 [] t).2 solution h

end Rounds
end CuttingPlane

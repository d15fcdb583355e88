import CuttingPlane.Proofs.Faults
import CuttingPlane.Proofs.Interruptions
import Mathlib.Algebra.BigOperators.Intervals

/-!
# Limits of a solve

A solve keeps to the limits that its options announce, whatever its entries are. A pass makes at most as many
pivots as its budget, which is set again at every round for the tableau as it is then, one row higher for
each cut. Since every round but the last uses up a cut, the cap on the cuts limits the passes, and both
together limit the pivots and the snapshots of the whole solve.
-/

namespace CuttingPlane

open Finset (range)

variable {α : Type}

/-! ### Counting -/

def Event.isPivot : Event α → Bool
  | pivoted .. => true
  | _ => false

def Event.round? : Event α → Option Nat
  | round number => some number
  | _ => none

/-- The number of pivots that a history tells of. -/
def pivotsIn (events : List (Event α)) : Nat := events.countP Event.isPivot

/-- The numbers of the rounds that a history tells of, in order. -/
def roundsIn (events : List (Event α)) : List Nat := events.filterMap Event.round?

@[simp] theorem pivotsIn_append (past more : List (Event α)) :
    pivotsIn (past ++ more) = pivotsIn past + pivotsIn more := List.countP_append

@[simp] theorem roundsIn_append (past more : List (Event α)) :
    roundsIn (past ++ more) = roundsIn past ++ roundsIn more := List.filterMap_append

theorem pivotsIn_notes {events : List (Event α)} (h : ∀ e ∈ events, e.IsNote) : pivotsIn events = 0 := by
  refine List.countP_eq_zero.2 fun e he => ?_
  have hnote := h e he
  cases e with
  | pivoted => cases hnote
  | _ => exact Bool.false_ne_true

/-- A snapshot is left by every pivot and by every cut. -/
theorem Event.length_snapshots (events : List (Event α)) :
    (snapshots events).length = pivotsIn events + cutsIn events := by
  induction events with
  | nil => rfl
  | cons e events ih =>
    have hone : e.snapshot?.toList.length = (if e.isPivot then 1 else 0) + if e.isCut then 1 else 0 := by
      cases e <;> rfl
    rw [snapshots_cons, List.length_append, hone, ih, pivotsIn, pivotsIn, cutsIn, cutsIn, List.countP_cons,
      List.countP_cons]
    omega

theorem OfRound.roundsIn_eq {number : Nat} {events : List (Event α)} (h : OfRound number events) :
    roundsIn events = [number] := by
  have htail : roundsIn events.tail = [] := by
    refine List.filterMap_eq_nil_iff.2 fun e he => ?_
    have hround := h.tail e he
    cases e with
    | round => exact absurd trivial hround
    | _ => rfl
  rw [h.eq_cons]
  exact congrArg (number :: ·) htail

/-! ### Budgets -/

/-- The pivots that a pass may make after this many cuts to `t`. -/
def Tableau.passLimit (t : Tableau α) (options : Options α) (cuts : Nat) : Nat :=
  options.maxPivots.getD (Options.pivotsPerLine * (t.height + cuts + t.width))

theorem passLimit_zero_le_sum (t : Tableau α) (options : Options α) (remaining : Nat) :
    t.passLimit options 0 ≤ ∑ k ∈ range (remaining + 1), t.passLimit options k :=
  Finset.single_le_sum_of_canonicallyOrdered (f := t.passLimit options) (by simp)

variable [Scalar α] {ε : α} {t : Tableau α}

/-- Pivots leave the size of a tableau, and a cut makes it one row higher. -/
theorem Tells.size_eq {events : List (Event α)} (h : Tells ε t events) :
    (t.replay events).height = t.height + cutsIn events ∧ (t.replay events).width = t.width := by
  have hsize := h.replay_induction (P := fun cuts u => u.height = t.height + cuts ∧ u.width = t.width)
    (fun _ _ _ _ _ _ _ hu => hu) (fun _ _ _ hu => ⟨congrArg (· + 1) hu.1, hu.2⟩) 0 ⟨rfl, rfl⟩
  rwa [Nat.zero_add] at hsize

theorem Tells.passLimit_eq {events : List (Event α)} (h : Tells ε t events) (options : Options α)
    (cuts : Nat) : (t.replay events).passLimit options cuts = t.passLimit options (cutsIn events + cuts) := by
  obtain ⟨hheight, hwidth⟩ := h.size_eq
  rw [Tableau.passLimit, Tableau.passLimit, hheight, hwidth, Nat.add_assoc t.height]

/-! ### Passes -/

theorem Rule.Searches.pivotsIn_pivot {ν : Type} {rule : Rule α ν} (h : rule.Searches ε) (t : Tableau α)
    (purpose : Purpose) (r s : Nat) (events : List (Event α)) :
    pivotsIn (rule.choice t purpose r ++ [t.announced r s, t.made r s] ++ events) = pivotsIn events + 1 := by
  have hpivot : pivotsIn [t.announced r s, t.made r s] = 1 := rfl
  rw [pivotsIn_append, pivotsIn_append, pivotsIn_notes (h.isNote_choice t purpose r), hpivot]
  omega

theorem Rule.Searches.pivotsIn_follow_le {ν : Type} {rule : Rule α ν} (h : rule.Searches ε) (budget : Nat)
    (t : Tableau α) : pivotsIn (rule.follow budget t).events ≤ budget := by
  refine h.follow_budget_induction (P := fun budget _ run => pivotsIn run.events ≤ budget)
    (fun budget t verdict _ => ?_) (fun t purpose r s _ => ?_) (fun budget t purpose r s _ _ => ?_)
    (fun budget t purpose r s rest _ _ ih => ?_) budget t
  · rw [pivotsIn_notes (h.notes t)]
    exact Nat.zero_le _
  · rw [pivotsIn_notes (h.isNote_spent t purpose r)]
  · rw [pivotsIn_append, pivotsIn_notes (h.isNote_choice t purpose r)]
    exact Nat.zero_le _
  · rw [h.pivotsIn_pivot]
    exact Nat.succ_le_succ ih

theorem Tableau.pivotsIn_optimize_le (t : Tableau α) (ε : α) (budget : Nat) :
    pivotsIn (t.optimize ε budget).events ≤ budget :=
  (Rule.searchRule_searches ε budget).pivotsIn_follow_le budget t

/-! ### Rounds -/

theorem pivotsIn_cutRound (ε : α) (cuts : Nat) (t : Tableau α) :
    pivotsIn (cutRound ε cuts t).events = 0 := by
  have hcut (label : String) : pivotsIn (t.addCut label ε).events = 0 :=
    Tableau.addCut_cases (P := fun run => pivotsIn run.events = 0) (fun _ => rfl) (fun _ _ => rfl)
      fun _ _ => rfl
  refine cutRound_cases (P := fun run => pivotsIn run.events = 0) (fun _ => rfl)
    (fun label part reason _ _ => ?_) (fun label part name _ _ => hcut label)
  rw [pivotsIn_append]
  exact congrArg (· + 0) (hcut label)

/-- A round makes the pivots of its pass. -/
theorem runRound_events (options : Options α) (cuts : Nat) (t : Tableau α) :
    ∃ more, (runRound options cuts t).events =
      .round (cuts + 1) :: (t.optimize options.epsilon (options.pivotLimit t)).events ++ more ∧
      pivotsIn more = 0 := by
  refine runRound_cases (P := fun run => ∃ more, run.events =
      .round (cuts + 1) :: (t.optimize options.epsilon (options.pivotLimit t)).events ++ more ∧
      pivotsIn more = 0) rfl (fun _ _ => ?_) (fun _ _ => ?_) (fun _ _ => ?_) (fun _ => ?_) (fun _ => ?_)
  · exact ⟨[], (List.append_nil _).symm, rfl⟩
  · exact ⟨[], (List.append_nil _).symm, rfl⟩
  · exact ⟨[], (List.append_nil _).symm, rfl⟩
  · exact ⟨_, rfl, rfl⟩
  · exact ⟨_, rfl, pivotsIn_cutRound _ _ _⟩

theorem pivotsIn_runRound_le (options : Options α) (cuts : Nat) (t : Tableau α) :
    pivotsIn (runRound options cuts t).events ≤ t.passLimit options 0 := by
  obtain ⟨more, hevents, hmore⟩ := runRound_events options cuts t
  rw [hevents, pivotsIn_append, hmore]
  exact t.pivotsIn_optimize_le options.epsilon (options.pivotLimit t)

section Rounds

variable {options : Options α} {flag : StopFlag α} {remaining cuts : Nat}
  {run : Run α (Except Fault (Solution α))}

/-- What a run has used up that may add `remaining` cuts and is given up at the next one. -/
structure Spends (options : Options α) (remaining cuts : Nat) (t : Tableau α)
    (run : Run α (Except Fault (Solution α))) : Prop where
  passes : ∃ n ≤ remaining + 1, roundsIn run.events = List.range' (cuts + 1) n
  pivots : pivotsIn run.events ≤ ∑ k ∈ range (remaining + 1), t.passLimit options k
  cuts_le : cutsIn run.events ≤ remaining + 1
  last : cutsIn run.events = remaining + 1 → ∀ solution, run.result = .ok solution →
    solution.outcome = .nonConvergent

/-- A run of one round without a cut. -/
theorem Spends.of_uncut (options : Options α) (remaining cuts : Nat) (t : Tableau α)
    (hcuts : Round.cuts (runRound options cuts t).result = 0) (result : Except Fault (Solution α)) :
    Spends options remaining cuts t
      ⟨result, (runRound options cuts t).tableau, (runRound options cuts t).events⟩ := by
  have hnone : cutsIn (runRound options cuts t).events = 0 := by
    rw [(records_runRound options cuts t).cuts_eq, hcuts]
  refine ⟨⟨1, Nat.le_add_left 1 _, (ofRound_runRound options cuts t).roundsIn_eq⟩, ?_, ?_, fun hlast => ?_⟩
  · exact (pivotsIn_runRound_le options cuts t).trans (passLimit_zero_le_sum t options remaining)
  · exact Nat.le_trans (Nat.le_of_eq hnone) (Nat.zero_le _)
  · exact absurd (hnone.symm.trans hlast) (Nat.succ_ne_zero _).symm

theorem rounds_spends (options : Options α) (flag : StopFlag α) (remaining cuts : Nat)
    (past : List (Event α)) (t : Tableau α) :
    Spends options remaining cuts t (rounds options flag remaining cuts past t) := by
  refine rounds_cap_induction (P := Spends options) (fun remaining cuts past t _ => ?_)
    (fun remaining cuts t fault hround => ?_) (fun remaining cuts t solution hround => ?_)
    (fun cuts t hround => ?_) (fun remaining cuts t rest hround ih => ?_) remaining cuts past t
  · exact ⟨⟨0, Nat.zero_le _, rfl⟩, Nat.zero_le _, Nat.zero_le _, fun hlast => by cases hlast⟩
  · exact .of_uncut options remaining cuts t (by rw [hround]; rfl) _
  · exact .of_uncut options remaining cuts t (by rw [hround]; rfl) _
  · have hround' : OfRound (cuts + 1) ((runRound options cuts t).events ++ [.cutsSpent options.maxCuts]) :=
      (ofRound_runRound options cuts t).append (by simp [Event.IsRound])
    refine ⟨⟨1, Nat.le_refl 1, hround'.roundsIn_eq⟩, ?_, ?_, fun _ solution h => ?_⟩
    · rw [pivotsIn_append]
      exact (pivotsIn_runRound_le options cuts t).trans (passLimit_zero_le_sum t options 0)
    · rw [cutsIn_append, cutsIn_of_cut hround]
      exact Nat.le_refl 1
    · exact Except.ok.inj h ▸ rfl
  · have hrecords := records_runRound options cuts t
    have hcut := cutsIn_of_cut hround
    obtain ⟨n, hn, hnumbers⟩ := ih.passes
    -- After the cut the tableau is a row higher, so the limits of its passes are the next ones.
    have hlimit (k : Nat) : (runRound options cuts t).tableau.passLimit options k =
        t.passLimit options (k + 1) := by
      rw [← hrecords.leads, hrecords.tells.passLimit_eq, hcut, Nat.add_comm]
    refine ⟨⟨n + 1, Nat.succ_le_succ hn, ?_⟩, ?_, ?_, fun hlast => ?_⟩
    · rw [roundsIn_append, (ofRound_runRound options cuts t).roundsIn_eq, hnumbers]
      rfl
    · have hpass := pivotsIn_runRound_le options cuts t
      have hpivots := ih.pivots
      simp only [hlimit] at hpivots
      rw [pivotsIn_append, Finset.sum_range_succ']
      omega
    · have hcuts := ih.cuts_le
      rw [cutsIn_append, hcut]
      omega
    · rw [cutsIn_append, hcut] at hlast
      exact ih.last (by omega)

/-- Every round begins with a pass over the tableau that the history so far leads to, and its number is by
one more than the cuts so far. -/
def BeginsWithPasses (options : Options α) (cuts : Nat) (t : Tableau α)
    (run : Run α (Except Fault (Solution α))) : Prop :=
  ∀ past c, LooksAt run.events past c → c = cuts + cutsIn past ∧
    past ++ .round (c + 1) :: ((t.replay past).optimize options.epsilon
      (options.pivotLimit (t.replay past))).events <+: run.events

theorem beginsWithPass {events more : List (Event α)} {c : Nat}
    (hevents : events = (runRound options cuts t).events ++ more) (hlook : LooksAt events [] c) :
    c = cuts ∧ .round (c + 1) :: (t.optimize options.epsilon (options.pivotLimit t)).events <+: events := by
  obtain ⟨rest, hround, -⟩ := runRound_events options cuts t
  rw [hevents, hround, List.append_assoc] at hlook ⊢
  obtain ⟨hnumber, -⟩ := List.cons_prefix_cons.1 hlook
  obtain rfl := Nat.succ.inj (Event.round.inj hnumber)
  exact ⟨rfl, List.prefix_append _ _⟩

theorem BeginsWithPasses.of_ofRound {more : List (Event α)}
    (hevents : run.events = (runRound options cuts t).events ++ more) (hmore : ∀ e ∈ more, ¬ e.IsRound) :
    BeginsWithPasses options cuts t run := by
  intro past c hlook
  have hround := (ofRound_runRound options cuts t).append hmore
  rw [← hevents] at hround
  obtain rfl := hround.eq_nil_of_looksAt hlook
  exact beginsWithPass hevents hlook

theorem rounds_beginsWithPasses (options : Options α) (flag : StopFlag α) (remaining cuts : Nat)
    (past : List (Event α)) (t : Tableau α) :
    BeginsWithPasses options cuts t (rounds options flag remaining cuts past t) := by
  refine rounds_induction (P := BeginsWithPasses options) (fun cuts past t _ => ?_)
    (fun cuts t fault _ => ?_) (fun cuts t solution _ => ?_) (fun cuts t _ => ?_)
    (fun cuts t rest hround ih => ?_) remaining cuts past t
  · intro past c hlook
    have hlook' : LooksAt ([.cancelled cuts] ++ []) past c := hlook
    obtain ⟨rest, -, hrest⟩ := looksAt_append_of_not_isRound (by simp [Event.IsRound]) hlook'
    exact absurd hrest not_looksAt_nil
  · exact .of_ofRound (List.append_nil _).symm (List.forall_mem_nil _)
  · exact .of_ofRound (List.append_nil _).symm (List.forall_mem_nil _)
  · exact .of_ofRound rfl (by simp [Event.IsRound])
  · intro past c hlook
    have hrecords := records_runRound options cuts t
    rcases (ofRound_runRound options cuts t).looksAt_append hlook with rfl | ⟨new, rfl, hnew⟩
    · exact beginsWithPass rfl hlook
    · obtain ⟨hcount, hpass⟩ := ih new c hnew
      rw [cutsIn_append, cutsIn_of_cut hround, ← Nat.add_assoc, Tableau.replay_append, hrecords.leads,
        List.append_assoc]
      exact ⟨hcount, (List.prefix_append_right_inj _).2 hpass⟩

end Rounds

/-! ### Whole solves -/

namespace Tableau

/-- The limits that a solve of `t` keeps to. -/
structure WithinLimits (t : Tableau α) (options : Options α)
    (run : Run α (Except Fault (Solution α))) : Prop where
  /-- It ends, with a solution unless it comes to a pivot on zero. -/
  ends : (∃ solution, run.result = .ok solution) ∨ ∃ r s, run.result = .error (.zeroPivot r s)
  /-- The rounds are numbered from one, and there is at most one more than cuts are allowed. -/
  passes : ∃ n ≤ options.maxCuts + 1, roundsIn run.events = List.range' 1 n
  /-- A round is a pass with the budget that the cuts before it leave, and the pass keeps to it. -/
  pivots : ∀ past cuts, LooksAt run.events past cuts → cuts = cutsIn past ∧
    let pass := (t.replay past).optimize options.epsilon (t.passLimit options cuts)
    past ++ .round (cuts + 1) :: pass.events <+: run.events ∧
      pivotsIn pass.events ≤ t.passLimit options cuts
  snapshots : (Event.snapshots run.events).length ≤
    ∑ k ∈ range (options.maxCuts + 1), t.passLimit options k + options.maxCuts + 1
  cuts : ∀ solution, run.result = .ok solution → solution.cuts ≤ options.maxCuts + 1 ∧
    (solution.cuts = options.maxCuts + 1 → solution.outcome = .nonConvergent)

theorem solve_eq_ok_or_zeroPivot (t : Tableau α) (options : Options α) (flag : StopFlag α) :
    (∃ solution, (t.solve options flag).result = .ok solution) ∨
      ∃ r s, (t.solve options flag).result = .error (.zeroPivot r s) := by
  cases hresult : (t.solve options flag).result with
  | ok solution => exact .inl ⟨solution, rfl⟩
  | error fault =>
    have hfault := mem_faultOf.2 hresult
    rw [← t.faultsIn_solve, faultsIn, List.mem_filterMap] at hfault
    obtain ⟨e, -, he⟩ := hfault
    cases e with
    | pivoting r s entering leaving element =>
      obtain ⟨-, hzero⟩ := Option.ite_none_right_eq_some.1 he
      exact .inr ⟨r, s, congrArg Except.error (Option.some.inj hzero).symm⟩
    | _ => cases he

/-- Every solve ends within the limits that its options announce, whatever the entries of the tableau, the
tolerance and the flag are. -/
theorem solve_withinLimits (t : Tableau α) (options : Options α) (flag : StopFlag α) :
    t.WithinLimits options (t.solve options flag) ∧
      (Separates options.epsilon → ∃ solution, (t.solve options flag).result = .ok solution) := by
  have hspends : Spends options options.maxCuts 0 t (t.solve options flag) :=
    rounds_spends options flag options.maxCuts 0 [] t
  have hbegins : BeginsWithPasses options 0 t (t.solve options flag) :=
    rounds_beginsWithPasses options flag options.maxCuts 0 [] t
  have hrecorded := solve_recorded t options flag
  refine ⟨⟨t.solve_eq_ok_or_zeroPivot options flag, hspends.passes, fun past cuts hlook => ?_, ?_,
    fun solution h => ?_⟩, fun hε => exists_solve hε flag t⟩
  · obtain ⟨hcuts, hpass⟩ := hbegins past cuts hlook
    rw [Nat.zero_add] at hcuts
    obtain ⟨more, hmore⟩ := hlook
    have htells := hrecorded.tells
    rw [← hmore, List.append_assoc] at htells
    have hlimit : options.pivotLimit (t.replay past) = t.passLimit options cuts := by
      have hreplay := (tells_append.1 htells).1.passLimit_eq options 0
      rwa [Nat.add_zero, ← hcuts] at hreplay
    rw [hlimit] at hpass
    exact ⟨hcuts, hpass, (t.replay past).pivotsIn_optimize_le options.epsilon _⟩
  · have hpivots := hspends.pivots
    have hcuts := hspends.cuts_le
    rw [Event.length_snapshots]
    omega
  · have hcounts := hrecorded.counts solution h
    rw [Nat.zero_add] at hcounts
    rw [hcounts]
    exact ⟨hspends.cuts_le, fun hlast => hspends.last hlast solution h⟩

-- One pivot and one cut: both are all that these options allow.
example : (Problem.tableau (α := Float) ⟨[7], [[2]], [3]⟩).map (fun t =>
    let run := t.solve ⟨1e-6, 0, some 1⟩ .never
    (run.result.map fun s => (s.outcome, s.cuts), roundsIn run.events, (Event.snapshots run.events).length)) =
      .ok (.ok (.nonConvergent, 1), [1], 2) := by
  decide +kernel

end Tableau
end CuttingPlane

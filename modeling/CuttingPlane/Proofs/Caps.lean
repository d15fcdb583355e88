import CuttingPlane.Proofs.Interruptions

/-!
# Caps on the cuts

The cap on the cuts only decides where a solve is given up. Two solves that differ in their caps go through
the same rounds until the lower cap is passed: either the lower cap is never passed, and then the solves are
the same, or the solve with the lower cap ends right after the cut that passes it.
-/

namespace CuttingPlane

variable {α : Type}

/-- How a run ends that may add `remaining` cuts and is given up at the next one, compared with a run `full`
that may add more: it is the same run, or it is given up at the cut that is one too many. -/
inductive Truncates (cap remaining cuts : Nat) (t : Tableau α) (full : Run α (Except Fault (Solution α))) :
    Run α (Except Fault (Solution α)) → Prop
  | whole (within : cutsIn full.events ≤ remaining) : Truncates cap remaining cuts t full full
  | givenUp {past : List (Event α)} (initial : past <+: full.events) (count : cutsIn past = remaining + 1)
      (ends : EndsInCut (Event.snapshots past)) : Truncates cap remaining cuts t full
        ⟨.ok (.failed .nonConvergent (cuts + remaining + 1)), t.replay past, past ++ [.cutsSpent cap]⟩

variable {cap remaining cuts : Nat} {t u : Tableau α}

/-- A round that adds a cut, before runs that compare like this. -/
theorem Truncates.round {events : List (Event α)} {full run : Run α (Except Fault (Solution α))}
    (hleads : t.replay events = u) (hcut : cutsIn events = 1) (hends : EndsInCut (Event.snapshots events))
    (h : Truncates cap remaining (cuts + 1) u full run) :
    Truncates cap (remaining + 1) cuts t ⟨full.result, full.tableau, events ++ full.events⟩
      ⟨run.result, run.tableau, events ++ run.events⟩ := by
  cases h with
  | whole within =>
    refine .whole ?_
    rw [cutsIn_append, hcut]
    omega
  | @givenUp past initial count ends =>
    have hcount : cutsIn (events ++ past) = remaining + 1 + 1 := by
      rw [cutsIn_append, hcut, count, Nat.add_comm]
    have hsnapshots : EndsInCut (Event.snapshots (events ++ past)) := by
      rw [Event.snapshots_append]
      exact hends.append ends
    have hstops : Truncates cap (remaining + 1) cuts t
        ⟨full.result, full.tableau, events ++ full.events⟩ _ :=
      .givenUp ((List.prefix_append_right_inj events).2 initial) hcount hsnapshots
    rwa [Tableau.replay_append, hleads, List.append_assoc, Nat.add_right_comm cuts (remaining + 1) 1,
      ← Nat.add_assoc (cuts + 1)] at hstops

variable [Scalar α] {ε : α} {pivots : Option Nat} {flag : StopFlag α}

/-- Two options that differ at most in their caps: a round knows nothing of the cap. -/
def SameRounds (options longer : Options α) : Prop :=
  ∀ cuts t, runRound longer cuts t = runRound options cuts t

theorem sameRounds_cap (ε : α) (pivots : Option Nat) (cap cap' : Nat) :
    SameRounds ⟨ε, cap, pivots⟩ ⟨ε, cap', pivots⟩ := fun _ _ => rfl

section Rounds

variable {options longer : Options α} {more : Nat} {past : List (Event α)}

/-- Only where a round adds a cut does it depend on the caps how the runs compare. -/
theorem truncates_of_cut (hsame : SameRounds options longer)
    (cut : ¬ flag.raised past = true → (runRound options cuts t).result = .ok .cut →
      Truncates options.maxCuts remaining cuts t (rounds longer flag more cuts past t)
        (rounds options flag remaining cuts past t)) :
    Truncates options.maxCuts remaining cuts t (rounds longer flag more cuts past t)
      (rounds options flag remaining cuts past t) := by
  have hcuts := (records_runRound options cuts t).cuts_eq
  by_cases hflag : flag.raised past = true
  · rw [rounds_of_raised hflag, rounds_of_raised hflag]
    exact .whole (Nat.zero_le _)
  cases hresult : (runRound options cuts t).result with
  | error fault =>
    have hlonger : (runRound longer cuts t).result = .error fault := by rw [hsame, hresult]
    rw [rounds_of_error hflag hresult, rounds_of_error hflag hlonger, hsame]
    rw [hresult] at hcuts
    exact .whole (Nat.le_trans (Nat.le_of_eq hcuts) (Nat.zero_le _))
  | ok round =>
    cases round with
    | ended solution =>
      have hlonger : (runRound longer cuts t).result = .ok (.ended solution) := by rw [hsame, hresult]
      rw [rounds_of_ended hflag hresult, rounds_of_ended hflag hlonger, hsame]
      rw [hresult] at hcuts
      exact .whole (Nat.le_trans (Nat.le_of_eq hcuts) (Nat.zero_le _))
    | cut => exact cut hflag hresult

theorem rounds_truncates (hsame : SameRounds options longer) (flag : StopFlag α) (extra remaining cuts : Nat)
    (past : List (Event α)) (t : Tableau α) :
    Truncates options.maxCuts remaining cuts t (rounds longer flag (remaining + extra) cuts past t)
      (rounds options flag remaining cuts past t) := by
  -- Along the cuts to go under the lower cap. The next cut gives up its run, and the other one goes on.
  induction remaining generalizing cuts past t with
  | zero =>
    refine truncates_of_cut hsame fun hflag hresult => ?_
    obtain ⟨rest, hrest⟩ := exists_rounds_events longer (0 + extra) cuts t hflag
    have hinitial : (runRound options cuts t).events <+:
        (rounds longer flag (0 + extra) cuts past t).events := by
      rw [hrest, hsame]
      exact List.prefix_append _ _
    rw [rounds_zero_of_cut hflag hresult, ← (records_runRound options cuts t).leads]
    exact .givenUp hinitial (cutsIn_of_cut hresult) (endsInCut_of_cut hresult)
  | succ remaining ih =>
    refine truncates_of_cut hsame fun hflag hresult => ?_
    have hlonger : (runRound longer cuts t).result = .ok .cut := by rw [hsame, hresult]
    rw [Nat.add_right_comm, rounds_succ_of_cut hflag hresult, rounds_succ_of_cut hflag hlonger, hsame]
    exact (ih (cuts + 1) _ _).round (records_runRound options cuts t).leads (cutsIn_of_cut hresult)
      (endsInCut_of_cut hresult)

end Rounds

namespace Tableau

/-- A lower cap on the cuts only truncates a solve, whatever its flag does. If the solve under the higher cap
gets along with the lower one, it is the same solve. If not, the solve under the lower cap fails at the first
cut too many, and leaves the snapshots up to that of this cut. -/
theorem solve_truncated {cap cap' : Nat} (hcap : cap ≤ cap') {full : Solution α}
    (hsolve : (t.solve ⟨ε, cap', pivots⟩ flag).result = .ok full) :
    let long := t.solve ⟨ε, cap', pivots⟩ flag
    let short := t.solve ⟨ε, cap, pivots⟩ flag
    (full.cuts ≤ cap → short = long) ∧
    (cap < full.cuts → short.result = .ok (.failed .nonConvergent (cap + 1)) ∧
      UpToCut (cap + 1) (Event.snapshots long.events) (Event.snapshots short.events)) := by
  obtain ⟨extra, rfl⟩ := Nat.exists_eq_add_of_le hcap
  have htruncates : Truncates cap cap 0 t (t.solve ⟨ε, cap + extra, pivots⟩ flag)
      (t.solve ⟨ε, cap, pivots⟩ flag) :=
    rounds_truncates (sameRounds_cap ε pivots cap (cap + extra)) flag extra cap 0 [] t
  have hcounts := (solve_recorded t ⟨ε, cap + extra, pivots⟩ flag).counts full hsolve
  rw [Nat.zero_add] at hcounts
  dsimp only
  generalize t.solve ⟨ε, cap, pivots⟩ flag = short at htruncates
  cases htruncates with
  | whole within => exact ⟨fun _ => rfl, fun hbeyond => by omega⟩
  | @givenUp past initial count ends =>
    refine ⟨fun hwithin => ?_, fun _ => ?_⟩
    · have hle : cutsIn past ≤ cutsIn (t.solve ⟨ε, cap + extra, pivots⟩ flag).events :=
        initial.sublist.countP_le
      omega
    · have hsnapshots : Event.snapshots (past ++ [.cutsSpent cap]) = Event.snapshots past :=
        List.filterMap_append.trans (List.append_nil _)
      rw [hsnapshots, Nat.zero_add]
      exact ⟨rfl, initial.filterMap _, (Event.countP_snapshots past).trans count, ends, nofun⟩

-- The solve needs two cuts: a cap of two changes nothing, and a cap of one gives it up at the second cut.
theorem solve_truncated_two_cuts : ∃ (t : Tableau Float) (full : Solution Float),
    (⟨[7, 11], [[1, 2], [3, 2]], [3, 4]⟩ : Problem Float).tableau = .ok t ∧
      (t.solve ⟨1e-6, 20, none⟩ .never).result = .ok full ∧ full.cuts = 2 ∧
      t.solve ⟨1e-6, 2, none⟩ .never = t.solve ⟨1e-6, 20, none⟩ .never ∧
      (t.solve ⟨1e-6, 1, none⟩ .never).result = .ok (.failed .nonConvergent 2) ∧
      UpToCut 2 (Event.snapshots (t.solve ⟨1e-6, 20, none⟩ .never).events)
        (Event.snapshots (t.solve ⟨1e-6, 1, none⟩ .never).events) := by
  obtain ⟨t, htableau, hresult⟩ : ∃ t : Tableau Float,
      (⟨[7, 11], [[1, 2], [3, 2]], [3, 4]⟩ : Problem Float).tableau = .ok t ∧
        (t.solve ⟨1e-6, 20, none⟩ .never).result.map (fun s => s.cuts) = .ok 2 := ⟨_, rfl, by decide +kernel⟩
  obtain ⟨full, hsolve, hcuts⟩ := map_eq_ok_iff.1 hresult
  obtain ⟨hwhole, -⟩ := solve_truncated (show 2 ≤ 20 by decide) hsolve
  obtain ⟨-, hgivenUp⟩ := solve_truncated (show 1 ≤ 20 by decide) hsolve
  obtain ⟨hfailed, hsnapshots⟩ := hgivenUp (by omega)
  exact ⟨t, full, htableau, hsolve, hcuts, hwhole (Nat.le_of_eq hcuts), hfailed, hsnapshots⟩

end Tableau
end CuttingPlane

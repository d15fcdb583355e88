import CuttingPlane.Proofs.Snapshots

/-!
# Stopping a solve

A solve looks at its stop flag between rounds. If the flag was not up at any look of the solve that is never
stopped, it changes nothing. If it was, the solve ends at the first such look, and all that it did until then
is what the solve that is never stopped did.
-/

namespace CuttingPlane

variable {α : Type}

/-! ### Looks at the flag -/

def Event.IsRound : Event α → Prop
  | round _ => True
  | _ => False

theorem Event.IsNote.not_isRound {e : Event α} (h : e.IsNote) : ¬ e.IsRound := by
  cases e with
  | round => cases h
  | _ => exact id

/-- A solve with these events, one that is never stopped, looks at its flag after `past`, when `cuts` cuts are
made: the next round begins there. -/
def LooksAt (events past : List (Event α)) (cuts : Nat) : Prop := past ++ [.round (cuts + 1)] <+: events

/-- Events of one round. -/
structure OfRound (number : Nat) (events : List (Event α)) : Prop where
  head : events.head? = some (.round number)
  tail : ∀ e ∈ events.tail, ¬ e.IsRound

theorem not_looksAt_nil {past : List (Event α)} {cuts : Nat} : ¬ LooksAt [] past cuts := fun h =>
  List.append_ne_nil_of_right_ne_nil _ (List.cons_ne_nil _ _) (List.prefix_nil.1 h)

theorem looksAt_append_of_not_isRound {before events past : List (Event α)} {cuts : Nat}
    (hbefore : ∀ e ∈ before, ¬ e.IsRound) (h : LooksAt (before ++ events) past cuts) :
    ∃ rest, past = before ++ rest ∧ LooksAt events rest cuts := by
  induction before generalizing past with
  | nil => exact ⟨past, rfl, h⟩
  | cons e before ih =>
    cases past with
    | nil =>
      obtain ⟨rfl, -⟩ := List.cons_prefix_cons.1 h
      exact absurd trivial (hbefore _ (List.mem_cons_self ..))
    | cons e' past =>
      obtain ⟨rfl, hpast⟩ := List.cons_prefix_cons.1 h
      obtain ⟨rest, rfl, hrest⟩ := ih (fun e he => hbefore e (List.mem_cons_of_mem _ he)) hpast
      exact ⟨rest, rfl, hrest⟩

namespace OfRound

variable {number cuts : Nat} {events more past : List (Event α)}

theorem eq_cons (h : OfRound number events) : events = .round number :: events.tail := by
  have hhead := h.head
  cases events with
  | nil => cases hhead
  | cons e events =>
    obtain rfl := Option.some.inj hhead
    rfl

theorem append (h : OfRound number events) (hmore : ∀ e ∈ more, ¬ e.IsRound) :
    OfRound number (events ++ more) := by
  rw [h.eq_cons, List.cons_append]
  refine ⟨rfl, fun e he => ?_⟩
  rcases List.mem_append.1 he with he | he
  · exact h.tail e he
  · exact hmore e he

theorem looksAt_nil (h : OfRound (cuts + 1) events) (more : List (Event α)) :
    LooksAt (events ++ more) [] cuts := by
  rw [h.eq_cons]
  exact List.cons_prefix_cons.2 ⟨rfl, List.nil_prefix⟩

theorem looksAt_append {c : Nat} (h : OfRound number events) (hlook : LooksAt (events ++ more) past c) :
    past = [] ∨ ∃ rest, past = events ++ rest ∧ LooksAt more rest c := by
  rw [h.eq_cons] at hlook
  cases past with
  | nil => exact .inl rfl
  | cons e past =>
    obtain ⟨rfl, hpast⟩ := List.cons_prefix_cons.1 hlook
    obtain ⟨rest, rfl, hrest⟩ := looksAt_append_of_not_isRound h.tail hpast
    refine .inr ⟨rest, ?_, hrest⟩
    rw [← List.cons_append, ← h.eq_cons]

theorem eq_nil_of_looksAt {c : Nat} (h : OfRound number events) (hlook : LooksAt events past c) : past = [] := by
  rw [← List.append_nil events] at hlook
  rcases h.looksAt_append hlook with hnil | ⟨rest, -, hrest⟩
  · exact hnil
  · exact absurd hrest not_looksAt_nil

end OfRound

/-! ### The first look at a raised flag -/

/-- The solve looks after `past`, the flag is up, and it was not up at any earlier look. -/
structure FirstRaised (raised : List (Event α) → Bool) (events past : List (Event α)) (cuts : Nat) : Prop where
  looks : LooksAt events past cuts
  up : raised past = true
  first : ∀ {other : List (Event α)} {c : Nat}, LooksAt events other c → raised other = true → past <+: other

/-- If there are snapshots, the last one shows a cut. -/
def EndsInCut (snapshots : List (Snapshot α)) : Prop :=
  ∀ last ∈ snapshots.getLast?, last.showsCut = true

theorem EndsInCut.append {before after : List (Snapshot α)} (h : EndsInCut before) (h' : EndsInCut after) :
    EndsInCut (before ++ after) := by
  intro last hlast
  rw [List.getLast?_append] at hlast
  cases hafter : after.getLast? with
  | none =>
    rw [hafter] at hlast
    exact h last hlast
  | some x =>
    rw [hafter] at hlast
    obtain rfl := Option.some.inj hlast
    exact h' _ hafter

theorem EndsInCut.eq_nil {snapshots : List (Snapshot α)} (h : EndsInCut snapshots)
    (hcount : snapshots.countP Snapshot.showsCut = 0) : snapshots = [] := by
  cases hlast : snapshots.getLast? with
  | none => exact List.getLast?_eq_none_iff.1 hlast
  | some last =>
    have hnot := List.countP_eq_zero.1 hcount last (List.mem_of_getLast? hlast)
    exact absurd (h last hlast) hnot

theorem endsInCut_concat {seen : List (Event α)} {e : Event α} (hcut : e.isCut = true) :
    EndsInCut (Event.snapshots (seen ++ [e])) := by
  intro last hlast
  cases hsnapshot : e.snapshot? with
  | none => simp [Event.isCut_of_snapshot?_eq_none hsnapshot] at hcut
  | some s =>
    have hone : Event.snapshots [e] = [s] := by rw [Event.snapshots_cons, hsnapshot]; rfl
    rw [Event.snapshots_append, hone, List.getLast?_concat] at hlast
    obtain rfl := Option.some.inj hlast
    rw [Event.showsCut_of_snapshot? hsnapshot, hcut]

/-- How a run ends that looks at a flag, compared with the run `full` that does not: it is the same run, or it
is cut off at the first look that finds the flag up. -/
inductive Stops (raised : List (Event α) → Bool) (cuts : Nat) (t : Tableau α)
    (full : Run α (Except Fault (Solution α))) : Run α (Except Fault (Solution α)) → Prop
  | never (down : ∀ {past : List (Event α)} {c : Nat}, LooksAt full.events past c → raised past = false) :
      Stops raised cuts t full full
  | after {past : List (Event α)} (first : FirstRaised raised full.events past (cuts + cutsIn past))
      (ends : EndsInCut (Event.snapshots past)) : Stops raised cuts t full
        ⟨.ok (.failed .cancelled (cuts + cutsIn past)), t.replay past, past ++ [.cancelled (cuts + cutsIn past)]⟩

section Stops

variable {raised : List (Event α) → Bool} {cuts : Nat} {t u : Tableau α} {events more : List (Event α)}
  {full rest run : Run α (Except Fault (Solution α))}

theorem Stops.at_once (hfull : full.events = events ++ more) (h : OfRound (cuts + 1) events)
    (hup : raised [] = true) :
    Stops raised cuts t full ⟨.ok (.failed .cancelled cuts), t, [.cancelled cuts]⟩ :=
  .after ⟨hfull ▸ h.looksAt_nil more, hup, fun _ _ => List.nil_prefix⟩ nofun

theorem Stops.of_ofRound {number : Nat} (h : OfRound number full.events) (hdown : raised [] = false) :
    Stops raised cuts t full full :=
  .never fun hlook => h.eq_nil_of_looksAt hlook ▸ hdown

/-- A round that adds a cut, before a run that goes on like this. -/
theorem Stops.round (h : OfRound (cuts + 1) events) (hdown : raised [] = false) (hleads : t.replay events = u)
    (hcut : cutsIn events = 1) (hends : EndsInCut (Event.snapshots events))
    (hrest : Stops (fun past => raised (events ++ past)) (cuts + 1) u rest run) :
    Stops raised cuts t ⟨rest.result, rest.tableau, events ++ rest.events⟩
      ⟨run.result, run.tableau, events ++ run.events⟩ := by
  have hlooks {past : List (Event α)} {c : Nat} (hlook : LooksAt (events ++ rest.events) past c)
      (hraised : raised past = true) : ∃ new, past = events ++ new ∧ LooksAt rest.events new c := by
    rcases h.looksAt_append hlook with rfl | hnew
    · rw [hdown] at hraised
      cases hraised
    · exact hnew
  cases hrest with
  | never down =>
    refine .never fun {past c} hlook => ?_
    by_contra hraised
    obtain ⟨new, rfl, hnew⟩ := hlooks hlook (by simpa using hraised)
    exact hraised (down hnew)
  | @after new first ends =>
    have hcount : cuts + cutsIn (events ++ new) = cuts + 1 + cutsIn new := by
      rw [cutsIn_append, hcut, Nat.add_assoc]
    have hfirst : FirstRaised raised (events ++ rest.events) (events ++ new)
        (cuts + cutsIn (events ++ new)) := by
      refine ⟨?_, first.up, fun {past c} hlook hraised => ?_⟩
      · rw [hcount, LooksAt, List.append_assoc]
        exact (List.prefix_append_right_inj events).2 first.looks
      · obtain ⟨new', rfl, hnew⟩ := hlooks hlook hraised
        exact (List.prefix_append_right_inj events).2 (first.first hnew hraised)
    have hsnapshots : EndsInCut (Event.snapshots (events ++ new)) := by
      rw [Event.snapshots_append]
      exact hends.append ends
    have hstops : Stops raised cuts t ⟨rest.result, rest.tableau, events ++ rest.events⟩ _ :=
      .after hfirst hsnapshots
    rwa [hcount, Tableau.replay_append, hleads, List.append_assoc] at hstops

end Stops

/-! ### Rounds -/

variable [Scalar α]

theorem Rule.Searches.not_isRound_follow {ν : Type} {rule : Rule α ν} {ε : α} (h : rule.Searches ε)
    (budget : Nat) (t : Tableau α) : ∀ e ∈ (rule.follow budget t).events, ¬ e.IsRound := by
  exact h.forall_follow (fun t e he => (h.notes t e he).not_isRound)
    (fun purpose r => (h.spent purpose r).not_isRound) (fun _ => id) (fun _ _ => id) (fun _ _ _ => id)
    (fun _ _ _ => id) budget t

section Rounds

variable {options : Options α} {flag : StopFlag α} {cuts : Nat} {t : Tableau α}

theorem not_isRound_addCut (t : Tableau α) (source : String) (ε : α) :
    ∀ e ∈ (t.addCut source ε).events, ¬ e.IsRound := by
  refine Tableau.addCut_cases (P := fun run => ∀ e ∈ run.events, ¬ e.IsRound)
    (fun _ => ?_) (fun _ _ => ?_) (fun _ _ => ?_) <;> simp [Event.IsRound]

theorem not_isRound_cutRound (ε : α) (cuts : Nat) (t : Tableau α) :
    ∀ e ∈ (cutRound ε cuts t).events, ¬ e.IsRound := by
  have hcut (label : String) := not_isRound_addCut t label ε
  refine cutRound_cases (P := fun run => ∀ e ∈ run.events, ¬ e.IsRound) (fun _ => ?_)
    (fun label part reason _ _ => ?_) (fun label part name _ _ => ?_)
  · simp [Event.IsRound]
  · simpa [Event.IsRound, or_imp, forall_and] using hcut label
  · simpa [Event.IsRound] using hcut label

theorem ofRound_runRound (options : Options α) (cuts : Nat) (t : Tableau α) :
    OfRound (cuts + 1) (runRound options cuts t).events := by
  have hpass : OfRound (cuts + 1) (.round (cuts + 1) ::
      (t.optimize options.epsilon (options.pivotLimit t)).events) :=
    ⟨rfl, (Rule.searchRule_searches _ _).not_isRound_follow _ t⟩
  refine runRound_cases (P := fun run => OfRound (cuts + 1) run.events) rfl (fun _ _ => hpass)
    (fun _ _ => hpass) (fun _ _ => hpass) (fun _ => ?_) (fun _ => ?_)
  · exact hpass.append (by simp [Event.IsRound])
  · exact hpass.append (not_isRound_cutRound _ cuts _)

theorem cutRound_events {ε : α} (h : (cutRound ε cuts t).result = .cut) :
    ∃ seen e, (cutRound ε cuts t).events = seen ++ [e] ∧ e.isCut = true := by
  revert h
  refine cutRound_cases (P := fun run : Run α (Round α) => run.result = .cut →
    ∃ seen e, run.events = seen ++ [e] ∧ e.isCut = true) (fun _ h => ?_) (fun _ _ _ _ _ h => ?_)
    (fun label part name _ hadded _ => ?_)
  · cases h
  · cases h
  · obtain ⟨rfl, i, -, hcut⟩ := Tableau.addCut_eq_of_ok hadded
    rw [hcut]
    exact ⟨[.fractional label part], _, rfl, rfl⟩

/-- A round that adds a cut ends with it. -/
theorem endsInCut_of_cut (h : (runRound options cuts t).result = .ok .cut) :
    EndsInCut (Event.snapshots (runRound options cuts t).events) := by
  revert h
  refine runRound_cases (P := fun run => run.result = .ok .cut → EndsInCut (Event.snapshots run.events)) rfl
    (fun _ _ h => ?_) (fun _ _ h => ?_) (fun _ _ h => ?_) (fun _ h => ?_) (fun _ h => ?_)
  · cases h
  · cases h
  · cases h
  · cases h
  · obtain ⟨seen, e, hevents, hcut⟩ := cutRound_events (Except.ok.inj h)
    dsimp only
    rw [hevents, ← List.append_assoc]
    exact endsInCut_concat hcut

/-! ### Whole solves -/

theorem outcome_of_rounds_never {remaining : Nat} {past : List (Event α)} {solution : Solution α}
    (h : (rounds options .never remaining cuts past t).result = .ok solution) :
    solution.outcome ≠ .cancelled := by
  revert h
  refine rounds_induction (P := fun _ _ run => run.result = .ok solution → solution.outcome ≠ .cancelled)
    (fun cuts past t h => ?_) (fun cuts t fault _ h => ?_) (fun cuts t ended hround h => ?_)
    (fun cuts t _ h => ?_) (fun cuts t rest _ ih => ih) remaining cuts past t
  · cases h
  · cases h
  · obtain rfl := Except.ok.inj h
    exact (solution_of_ended hround).2
  · obtain rfl := Except.ok.inj h
    exact nofun

/-- Only where a round adds a cut does it depend on the rounds after it how a run stops. -/
theorem stops_of_cut {remaining : Nat} {past seen : List (Event α)}
    (cut : ¬ flag.raised past = true → (runRound options cuts t).result = .ok .cut →
      Stops (fun new => flag.raised (past ++ new)) cuts t (rounds options .never remaining cuts seen t)
        (rounds options flag remaining cuts past t)) :
    Stops (fun new => flag.raised (past ++ new)) cuts t (rounds options .never remaining cuts seen t)
      (rounds options flag remaining cuts past t) := by
  have hnever : ¬ StopFlag.never.raised seen = true := Bool.false_ne_true
  by_cases hflag : flag.raised past = true
  · rw [rounds_of_raised hflag]
    obtain ⟨more, hmore⟩ := exists_rounds_events options remaining cuts t hnever
    exact .at_once hmore (ofRound_runRound options cuts t) (by simpa using hflag)
  have hdown : flag.raised (past ++ []) = false := by simpa using hflag
  cases hresult : (runRound options cuts t).result with
  | error fault =>
    rw [rounds_of_error hflag hresult, rounds_of_error hnever hresult]
    exact .of_ofRound (ofRound_runRound options cuts t) hdown
  | ok round =>
    cases round with
    | ended solution =>
      rw [rounds_of_ended hflag hresult, rounds_of_ended hnever hresult]
      exact .of_ofRound (ofRound_runRound options cuts t) hdown
    | cut => exact cut hflag hresult

theorem rounds_stops (options : Options α) (flag : StopFlag α) (remaining cuts : Nat)
    (past seen : List (Event α)) (t : Tableau α) :
    Stops (fun new => flag.raised (past ++ new)) cuts t (rounds options .never remaining cuts seen t)
      (rounds options flag remaining cuts past t) := by
  -- Along the cuts to go. The flag is asked about the whole history, so both pasts are general.
  induction remaining generalizing cuts past seen t with
  | zero =>
    refine stops_of_cut fun hflag hresult => ?_
    rw [rounds_zero_of_cut hflag hresult, rounds_zero_of_cut Bool.false_ne_true hresult]
    exact .of_ofRound ((ofRound_runRound options cuts t).append (by simp [Event.IsRound]))
      (by simpa using hflag)
  | succ remaining ih =>
    refine stops_of_cut fun hflag hresult => ?_
    have hrecords := records_runRound options cuts t
    have hrest := ih (cuts + 1) (past ++ (runRound options cuts t).events)
      (seen ++ (runRound options cuts t).events) (runRound options cuts t).tableau
    simp only [List.append_assoc] at hrest
    rw [rounds_succ_of_cut hflag hresult, rounds_succ_of_cut Bool.false_ne_true hresult]
    exact .round (ofRound_runRound options cuts t) (by simpa using hflag) hrecords.leads
      (cutsIn_of_cut hresult) (endsInCut_of_cut hresult) hrest

theorem looksAt_rounds_nil (options : Options α) (remaining cuts : Nat) (past : List (Event α)) (t : Tableau α) :
    LooksAt (rounds options .never remaining cuts past t).events [] cuts := by
  have hnever : ¬ StopFlag.never.raised past = true := Bool.false_ne_true
  obtain ⟨more, hmore⟩ := exists_rounds_events options remaining cuts t hnever
  rw [hmore]
  exact (ofRound_runRound options cuts t).looksAt_nil more

/-- There is a look after every cut but one past the limit. -/
theorem exists_looksAt {remaining c : Nat} {past : List (Event α)} (hlimit : c ≤ remaining)
    (hmade : c ≤ cutsIn (rounds options .never remaining cuts past t).events) :
    ∃ before, LooksAt (rounds options .never remaining cuts past t).events before (cuts + c) := by
  -- Along the cuts: a round with a cut is followed by the look of the next round.
  induction c generalizing remaining cuts past t with
  | zero => exact ⟨[], looksAt_rounds_nil options remaining cuts past t⟩
  | succ c ih =>
    have hnever : ¬ StopFlag.never.raised past = true := Bool.false_ne_true
    have hcuts := (records_runRound options cuts t).cuts_eq
    obtain ⟨remaining, rfl⟩ := Nat.exists_eq_add_one_of_ne_zero (Nat.ne_zero_of_lt hlimit)
    cases hresult : (runRound options cuts t).result with
    | error fault =>
      rw [rounds_of_error hnever hresult, hcuts, hresult] at hmade
      exact absurd hmade (Nat.not_succ_le_zero c)
    | ok round =>
      cases round with
      | ended solution =>
        rw [rounds_of_ended hnever hresult, hcuts, hresult] at hmade
        exact absurd hmade (Nat.not_succ_le_zero c)
      | cut =>
        rw [rounds_succ_of_cut hnever hresult] at hmade ⊢
        rw [cutsIn_append, cutsIn_of_cut hresult, Nat.add_comm 1] at hmade
        obtain ⟨before, hlook⟩ := ih (Nat.le_of_succ_le_succ hlimit) (Nat.le_of_succ_le_succ hmade)
        refine ⟨(runRound options cuts t).events ++ before, ?_⟩
        rw [LooksAt, List.append_assoc, Nat.add_comm c 1, ← Nat.add_assoc cuts 1 c]
        exact (List.prefix_append_right_inj _).2 hlook

end Rounds

/-! ### What becomes of a solve -/

/-- The part of the snapshots up to the one of the last of this many cuts, and none without a cut. -/
structure UpToCut (cuts : Nat) (all part : List (Snapshot α)) : Prop where
  initial : part <+: all
  count : part.countP Snapshot.showsCut = cuts
  ends : EndsInCut part
  empty : cuts = 0 → part = []

namespace Tableau

variable (t : Tableau α) (options : Options α) (flag : StopFlag α)

/-- The flag was not up at any look, and the solve is the one that is never stopped. -/
structure Undisturbed : Prop where
  down : ∀ {past : List (Event α)} {cuts : Nat}, LooksAt (t.solve options .never).events past cuts →
    flag.raised past = false
  run : t.solve options flag = t.solve options .never
  into : ∀ sink, t.solveInto options sink flag = t.solveInto options sink .never
  joined : t.solveInBackground options flag = (t.solveInto options .keep .never).result
  outcome : ∀ {solution : Solution α}, (t.solve options flag).result = .ok solution →
    solution.outcome ≠ .cancelled

/-- The flag was up at the look after `past`, the first at which it was, and there the solve ends. -/
structure StoppedAfter (past : List (Event α)) (cuts : Nat) : Prop where
  first : FirstRaised flag.raised (t.solve options .never).events past cuts
  run : t.solve options flag = ⟨.ok (.failed .cancelled cuts), t.replay past, past ++ [.cancelled cuts]⟩
  into : ∀ sink, (t.solveInto options sink flag).result =
    .ok { Solution.failed .cancelled cuts with trace := sink.received past }
  joined : t.solveInBackground options flag =
    .ok { Solution.failed .cancelled cuts with trace := Event.snapshots past }
  snapshots : UpToCut cuts (Event.snapshots (t.solve options .never).events) (Event.snapshots past)

theorem undisturbed_or_stopped : t.Undisturbed options flag ∨ ∃ past cuts, t.StoppedAfter options flag past cuts := by
  have hstops : Stops flag.raised 0 t (t.solve options .never) (t.solve options flag) :=
    rounds_stops options flag options.maxCuts 0 [] [] t
  generalize hrun : t.solve options flag = run at hstops
  cases hstops with
  | never down =>
    refine .inl ⟨down, hrun, fun sink => ?_, ?_, fun hsolution => ?_⟩
    · rw [solveInto, hrun, solveInto]
    · rw [solveInBackground, solveInto, hrun, solveInto]
    · rw [hrun] at hsolution
      exact outcome_of_rounds_never hsolution
  | @after past first ends =>
    rw [Nat.zero_add] at first hrun
    have hinto (sink : Sink) : (t.solveInto options sink flag).result =
        .ok { Solution.failed .cancelled (cutsIn past) with trace := sink.received past } := by
      have hreceived : sink.received (past ++ [.cancelled (cutsIn past)]) = sink.received past := by
        rw [Sink.received_append]
        cases sink <;> exact List.append_nil _
      rw [solveInto, hrun, ← hreceived]
      rfl
    have hpart : Event.snapshots past <+: Event.snapshots (t.solve options .never).events :=
      ((List.prefix_append past _).trans first.looks).filterMap _
    have hcount := Event.countP_snapshots past
    exact .inr ⟨past, cutsIn past, first, hrun, hinto, hinto .keep, hpart, hcount, ends,
      fun hnone => ends.eq_nil (hcount.trans hnone)⟩

theorem StoppedAfter.of_raised_nil {t : Tableau α} {options : Options α} {flag : StopFlag α}
    (h : flag.raised [] = true) : t.StoppedAfter options flag [] 0 := by
  have hlook : LooksAt (t.solve options .never).events [] 0 := looksAt_rounds_nil options _ 0 [] t
  rcases t.undisturbed_or_stopped options flag with hsame | ⟨past, cuts, hstopped⟩
  · rw [hsame.down hlook] at h
    cases h
  · obtain rfl := List.prefix_nil.1 (hstopped.first.first hlook h)
    obtain rfl : cuts = 0 := hstopped.snapshots.count.symm
    exact hstopped

/-- Whenever the flag is raised, a solve is either the one that is never stopped, or it is cut off at the
first look that finds the flag up, with what it had done by then; at once if the flag is up before the solve. It
looks before the first pass and after every cut but one past the limit. -/
theorem solve_stops :
    (t.Undisturbed options flag ∨ ∃ past cuts, t.StoppedAfter options flag past cuts) ∧
      (flag.raised [] = true → t.StoppedAfter options flag [] 0) ∧
      ∀ c ≤ options.maxCuts, c ≤ cutsIn (t.solve options .never).events →
        ∃ past, LooksAt (t.solve options .never).events past c := by
  refine ⟨t.undisturbed_or_stopped options flag, .of_raised_nil, fun c hlimit hmade => ?_⟩
  obtain ⟨past, hlook⟩ := exists_looksAt hlimit hmade
  exact ⟨past, Nat.zero_add c ▸ hlook⟩

-- One flag is raised while the snapshot of the first cut is taken in, one never, and one before the solve.
theorem solve_stops_toy : ∃ t : Tableau Float, Problem.tableau ⟨[7], [[2]], [3]⟩ = .ok t ∧
    (∃ past, t.StoppedAfter .default (.afterSnapshots .keep 2) past 1) ∧ t.Undisturbed .default .never ∧
      t.StoppedAfter .default .atOnce [] 0 := by
  obtain ⟨t, ht⟩ : ∃ t, Problem.tableau (α := Float) ⟨[7], [[2]], [3]⟩ = .ok t :=
    Problem.exists_tableau rfl (by simp [Problem.products])
  have hends : (Problem.tableau (α := Float) ⟨[7], [[2]], [3]⟩).map (fun t =>
      (t.solve .default (.afterSnapshots .keep 2)).result.map fun s => (s.outcome, s.cuts)) =
        .ok (.ok (.cancelled, 1)) := by
    decide +kernel
  rw [ht] at hends
  obtain ⟨s, hresult, hs⟩ := map_eq_ok_iff.1 (Except.ok.inj hends)
  obtain ⟨houtcome, hcuts⟩ := Prod.mk.inj hs
  refine ⟨t, ht, ?_, ?_, (solve_stops t .default .atOnce).2.1 rfl⟩
  · rcases (solve_stops t .default (.afterSnapshots .keep 2)).1 with hsame | ⟨past, cuts, hstopped⟩
    · exact absurd houtcome (hsame.outcome hresult)
    · rw [hstopped.run] at hresult
      obtain rfl := Except.ok.inj hresult
      exact ⟨past, hcuts ▸ hstopped⟩
  · rcases (solve_stops t .default .never).1 with hsame | ⟨past, cuts, hstopped⟩
    · exact hsame
    · cases hstopped.first.up

end Tableau
end CuttingPlane

import CuttingPlane.Proofs.Requests
import CuttingPlane.Proofs.Rounds
import CuttingPlane.Proofs.Snapping

/-!
# Faults

The one step of a solve that can have no meaning is a pivot on zero. Its announcement stands in the history
before the step is refused, so the history tells of a fault exactly if the work ended with one. A tolerance
that is not negative sets the entries that are pivoted on apart from zero; for doubles this takes infinite
tolerances and NaN into account, at which nothing compares as large enough.
-/

namespace CuttingPlane

variable {α : Type} [Scalar α]

/-! ### Announced faults -/

/-- The fault that an event announces, a pivot on zero. -/
def Event.fault? : Event α → Option Fault
  | pivoting r s _ _ element => if element == 0 then some (.zeroPivot r s) else none
  | _ => none

/-- The faults that a history announces. -/
def faultsIn (events : List (Event α)) : List Fault := events.filterMap Event.fault?

theorem faultsIn_append (past more : List (Event α)) :
    faultsIn (past ++ more) = faultsIn past ++ faultsIn more := List.filterMap_append

/-- The fault that work ended with, if it did. -/
def faultOf {β : Type} : Except Fault β → List Fault
  | .ok _ => []
  | .error fault => [fault]

theorem faultOf_map {β γ : Type} (f : β → γ) (x : Except Fault β) : faultOf (x.map f) = faultOf x := by
  cases x <;> rfl

theorem mem_faultOf {β : Type} {x : Except Fault β} {fault : Fault} :
    fault ∈ faultOf x ↔ x = .error fault := by
  cases x with
  | ok b => simp [faultOf]
  | error reason => simp [faultOf, eq_comm]

theorem faultsIn_eq_nil {events : List (Event α)} (h : ∀ e ∈ events, e.fault? = none) :
    faultsIn events = [] := List.filterMap_eq_nil_iff.2 h

theorem Event.IsNote.fault?_eq_none {e : Event α} (h : e.IsNote) : e.fault? = none := by
  cases e with
  | pivoting => cases h
  | _ => rfl

theorem faultsIn_notes {events : List (Event α)} (h : ∀ e ∈ events, e.IsNote) : faultsIn events = [] :=
  faultsIn_eq_nil fun e he => (h e he).fault?_eq_none

/-! ### Passes and solves -/

theorem Rule.Searches.faultsIn_follow {ν : Type} {rule : Rule α ν} {ε : α} (h : rule.Searches ε)
    (budget : Nat) (t : Tableau α) :
    faultsIn (rule.follow budget t).events = faultOf (rule.follow budget t).result := by
  refine h.follow_induction (P := fun _ run => faultsIn run.events = faultOf run.result)
    (fun t verdict left _ => ?_) (fun t purpose r s _ => ?_) (fun t purpose r s _ hzero => ?_)
    (fun t purpose r s rest _ hzero ih => ?_) budget t
  · exact faultsIn_notes (h.notes t)
  · exact faultsIn_notes (h.isNote_spent t purpose r)
  · rw [faultsIn_append, faultsIn_notes (h.isNote_choice t purpose r)]
    simp [faultsIn, Event.fault?, Tableau.announced, hzero, faultOf]
  · rw [faultsIn_append, faultsIn_append, faultsIn_notes (h.isNote_choice t purpose r), ih]
    simp [faultsIn, Event.fault?, Tableau.announced, Tableau.made, hzero]

namespace Tableau

variable {t : Tableau α} {ε : α}

theorem faultsIn_optimize (t : Tableau α) (ε : α) (budget : Nat) :
    faultsIn (t.optimize ε budget).events = faultOf (t.optimize ε budget).result :=
  ((Rule.searchRule_searches ε budget).faultsIn_follow budget t).trans (faultOf_map _ _).symm

theorem faultsIn_addCut (t : Tableau α) (source : String) (ε : α) :
    faultsIn (t.addCut source ε).events = [] :=
  addCut_cases (P := fun run => faultsIn run.events = []) (fun _ => rfl) (fun _ _ => rfl) fun _ _ => rfl

end Tableau

theorem faultsIn_cutRound (ε : α) (cuts : Nat) (t : Tableau α) :
    faultsIn (cutRound ε cuts t).events = [] := by
  have hcut (label : String) (part : α) :
      faultsIn (.fractional label part :: (t.addCut label ε).events) = [] := t.faultsIn_addCut label ε
  refine cutRound_cases (P := fun run => faultsIn run.events = []) (fun _ => rfl)
    (fun label part reason _ _ => ?_) (fun label part name _ _ => hcut label part)
  rw [faultsIn_append, hcut]
  rfl

theorem faultsIn_runRound (options : Options α) (cuts : Nat) (t : Tableau α) :
    faultsIn (runRound options cuts t).events = faultOf (runRound options cuts t).result := by
  have hpass : faultsIn (.round (cuts + 1) ::
      (t.optimize options.epsilon (options.pivotLimit t)).events) =
        faultOf (t.optimize options.epsilon (options.pivotLimit t)).result :=
    t.faultsIn_optimize options.epsilon (options.pivotLimit t)
  refine runRound_cases (P := fun run => faultsIn run.events = faultOf run.result) rfl
    (fun fault hresult => ?_) (fun s hresult => ?_) (fun r hresult => ?_) (fun hresult => ?_)
    (fun hresult => ?_)
  · rw [hpass, hresult]
    rfl
  · rw [hpass, hresult]
    rfl
  · rw [hpass, hresult]
    rfl
  · rw [faultsIn_append, hpass, hresult]
    rfl
  · rw [faultsIn_append, hpass, hresult, faultsIn_cutRound]
    rfl

theorem faultsIn_rounds (options : Options α) (flag : StopFlag α) (remaining cuts : Nat)
    (past : List (Event α)) (t : Tableau α) :
    faultsIn (rounds options flag remaining cuts past t).events =
      faultOf (rounds options flag remaining cuts past t).result := by
  refine rounds_induction (P := fun _ _ run => faultsIn run.events = faultOf run.result)
    (fun cuts past t _ => rfl) (fun cuts t fault hround => ?_) (fun cuts t solution hround => ?_)
    (fun cuts t hround => ?_) (fun cuts t rest hround ih => ?_) remaining cuts past t
  · rw [faultsIn_runRound, hround]
    rfl
  · rw [faultsIn_runRound, hround]
    rfl
  · rw [faultsIn_append, faultsIn_runRound, hround]
    rfl
  · rw [faultsIn_append, faultsIn_runRound, hround, ih]
    rfl

theorem Tableau.faultsIn_solve (t : Tableau α) (options : Options α) (flag : StopFlag α) :
    faultsIn (t.solve options flag).events = faultOf (t.solve options flag).result :=
  faultsIn_rounds options flag options.maxCuts 0 [] t

/-! ### Tolerances -/

namespace Binary64

open Float.Model

variable {x y ε : Float}

theorem lt_eq (x y : Float) : x < y ↔ x.toModel.unpack.compare y.toModel.unpack = some .lt := by
  have hlt : x < y ↔ x.toModel.unpack.lt y.toModel.unpack = true := decide_eq_true_iff
  rw [hlt, UnpackedFloat.lt, beq_iff_eq]

/-- A double that compares is a number. -/
theorem isNaN_left_of_lt (h : x < y) : x.isNaN = false := by
  have hcompare := (lt_eq x y).1 h
  have hnan : x.isNaN = x.toModel.unpack.isNaN := rfl
  rw [hnan]
  cases hx : x.toModel.unpack with
  | notANumber =>
    rw [hx] at hcompare
    cases hcompare
  | _ => rfl

theorem isNaN_right_of_lt (h : x < y) : y.isNaN = false := by
  have hcompare := (lt_eq x y).1 h
  have hnan : y.isNaN = y.toModel.unpack.isNaN := rfl
  rw [hnan]
  cases hy : y.toModel.unpack with
  | notANumber =>
    rw [hy] at hcompare
    cases hx : x.toModel.unpack <;> rw [hx] at hcompare <;> cases hcompare
  | _ => rfl

theorem unpack_zero : (0 : Float).toModel.unpack = .zero .positive := by
  have hbits : (0 : Float).toModel.toBits = 0 := rfl
  unfold Float.Model.unpack
  rw [hbits]
  rfl

theorem unpack_of_beq_zero (h : (x == 0) = true) : ∃ s, x.toModel.unpack = .zero s := by
  have hbeq : (x == 0) = (x.toModel.unpack.compare (0 : Float).toModel.unpack == some .eq) := rfl
  rw [hbeq, unpack_zero, beq_iff_eq] at h
  cases hx : x.toModel.unpack with
  | zero s => exact ⟨s, rfl⟩
  | notANumber =>
    rw [hx] at h
    cases h
  | infinity s =>
    rw [hx] at h
    cases s <;> cases h
  | finite s m e hm =>
    rw [hx] at h
    cases s <;> cases h

theorem unpack_neg_infinity {s : UnpackedFloat.Sign} (h : x.toModel.unpack = .infinity s) :
    (-x).toModel.unpack = .infinity (-s) := by
  change (Float.ofModel (.pack x.toModel.unpack.neg)).toModel.unpack = _
  rw [h]
  cases s <;> rfl

theorem unpack_neg_notANumber (h : x.toModel.unpack = .notANumber) :
    (-x).toModel.unpack = .notANumber := by
  change (Float.ofModel (.pack x.toModel.unpack.neg)).toModel.unpack = _
  rw [h]
  rfl

/-- Whatever compares as negative or as positive at a tolerance that is not negative is not zero. -/
theorem separates_of_not_neg (hε : ¬ ε < 0) : Separates ε := by
  intro x hx
  by_contra hzero
  obtain ⟨s, hunpack⟩ := unpack_of_beq_zero (Bool.not_eq_false _ ▸ hzero)
  have hvalue : value? x = some 0 := by simp [value?, parts, hunpack, Parts.value?, signed_zero]
  cases hb : value? ε with
  | some b =>
    rw [lt_iff hb value?_zero] at hε
    rw [lt_iff hvalue (value?_neg hb), lt_iff hb hvalue] at hx
    rcases hx with hx | hx
    · exact hε (neg_pos.1 hx)
    · exact hε hx
  | none =>
    -- A tolerance without a value is a NaN, with which nothing compares, or infinite.
    rw [lt_eq, unpack_zero] at hε
    rw [lt_eq, lt_eq, hunpack] at hx
    cases htolerance : ε.toModel.unpack with
    | notANumber =>
      rw [unpack_neg_notANumber htolerance, htolerance] at hx
      rcases hx with hx | hx <;> cases hx
    | infinity s' =>
      rw [unpack_neg_infinity htolerance, htolerance] at hx
      rw [htolerance] at hε
      cases s' with
      | positive => rcases hx with hx | hx <;> cases hx
      | negative => exact hε rfl
    | _ => simp [value?, parts, htolerance, Parts.value?] at hb

end Binary64

/-! ### Plans -/

namespace Plan

open Binary64

variable {p : Problem α} {request : PlanRequest α} {flag : StopFlag α}

/-- The events of the solve that a planning went through. -/
def solving (events : List (PlanEvent α)) : List (Event α) :=
  events.filterMap fun
    | .solving e => some e
    | _ => none

omit [Scalar α] in
theorem solving_append (past more : List (PlanEvent α)) :
    solving (past ++ more) = solving past ++ solving more := List.filterMap_append

omit [Scalar α] in
theorem solving_map (events : List (Event α)) : solving (events.map .solving) = events := by
  induction events with
  | nil => rfl
  | cons e events ih => exact congrArg (e :: ·) ih

theorem faultsIn_solveProblem (p : Problem α) (options : Options α) (flag : StopFlag α) :
    faultsIn (solving (solveProblem p options flag).events) =
      faultOf (solveProblem p options flag).result := by
  rw [solveProblem_eq]
  cases htableau : p.tableau with
  | error reason => rfl
  | ok t =>
    have hsolve : faultsIn (t.solveInto options .keep flag).events =
        faultOf (t.solveInto options .keep flag).result :=
      (t.faultsIn_solve options flag).trans (faultOf_map _ _).symm
    dsimp only
    cases hresult : (t.solveInto options .keep flag).result with
    | error fault =>
      rw [hresult] at hsolve
      rw [solving_map]
      exact hsolve
    | ok solution =>
      rw [hresult] at hsolve
      rw [solving_append, solving_map, faultsIn_append, hsolve]
      rfl

theorem faultsIn_compute (request : PlanRequest α) (flag : StopFlag α) :
    faultsIn (solving (compute request flag).events) = faultOf (compute request flag).result := by
  unfold compute
  split
  · rfl
  · split
    · dsimp only
      rw [solving_append, faultsIn_append]
      exact faultsIn_solveProblem request.problem request.options flag
    · rfl

theorem mem_faultsIn_solving {events : List (PlanEvent α)} {fault : Fault} :
    fault ∈ faultsIn (solving events) ↔ ∃ r s entering leaving element, fault = .zeroPivot r s ∧
      (element == 0) = true ∧ .solving (.pivoting r s entering leaving element) ∈ events := by
  simp only [faultsIn, solving, List.mem_filterMap]
  constructor
  · intro h
    obtain ⟨e, ⟨event, hevent, he⟩, hfault⟩ := h
    cases event with
    | solving e' =>
      obtain rfl := Option.some.inj he
      cases e' with
      | pivoting r s entering leaving element =>
        obtain ⟨hzero, hcause⟩ := Option.ite_none_right_eq_some.1 hfault
        exact ⟨r, s, entering, leaving, element, (Option.some.inj hcause).symm, hzero, hevent⟩
      | _ => cases hfault
    | _ => cases he
  · intro h
    obtain ⟨r, s, entering, leaving, element, rfl, hzero, hevent⟩ := h
    exact ⟨_, ⟨_, hevent, rfl⟩, if_pos hzero⟩

theorem exists_compute (hε : Separates request.options.epsilon) (flag : StopFlag α) :
    ∃ answer, (compute request flag).result = .ok answer := by
  unfold compute
  split
  · exact ⟨_, rfl⟩
  · split
    · dsimp only
      rw [solveProblem_eq]
      split
      · exact ⟨_, rfl⟩
      · rename_i t _
        obtain ⟨solution, hsolve⟩ := exists_solve hε flag t
        have hinto : (t.solveInto request.options .keep flag).result = .ok _ :=
          Tableau.solveInto_eq_ok.2 ⟨solution, hsolve, rfl⟩
        rw [hinto]
        exact ⟨_, rfl⟩
    · exact ⟨_, rfl⟩

end Plan
end CuttingPlane

import CuttingPlane.CommandLine.Answer
import CuttingPlane.Proofs.Faults
import CuttingPlane.Proofs.Reads

/-!
# Breakdowns

Planning ends without an answer if its solve comes to a pivot on zero, or if the log has to hold a drawing that is
too wide. Nothing else ends it: a notice without a drawing always has a wording, and no read is outside of the
problem or of a tableau.
-/

namespace CuttingPlane

/-! ### Logs that break off -/

/-- A log goes on to the end exactly if it can be written at every event. -/
theorem Log.isWhole_write {ε : Type} {notice : ε → Notice} {least : Severity} {history : List ε} :
    (Log.write notice least history).isWhole = true ↔ ∀ e ∈ history, (notice e).isWritable least = true := by
  simp only [Log.write, beq_iff_eq]
  induction history with
  | nil => simp
  | cons e history ih =>
    cases he : (notice e).isWritable least with
    | false => simp [he]
    | true => simpa [he] using ih

/-! ### Drawings that are too wide -/

/-- The drawing of a grid would need more blanks between its corners than a text can be filled up with. -/
def Grid.TooWide (g : Grid Float) : Prop :=
  0 < g.height ∧ 0 < g.width ∧ fillLimit < (g.widest + 1) * g.width - 1

instance (g : Grid Float) : Decidable g.TooWide :=
  inferInstanceAs (Decidable (0 < g.height ∧ 0 < g.width ∧ fillLimit < (g.widest + 1) * g.width - 1))

theorem Grid.bracketed?_eq_none {g : Grid Float} : g.bracketed? = none ↔ g.TooWide := by
  unfold bracketed? TooWide inside
  by_cases hempty : g.height = 0 ∨ g.width = 0
  · rw [if_pos hempty]
    refine iff_of_false nofun fun h => ?_
    rcases hempty with hheight | hwidth
    · exact h.1.ne' hheight
    · exact h.2.1.ne' hwidth
  · rw [if_neg hempty]
    rw [not_or] at hempty
    have hheight := Nat.pos_of_ne_zero hempty.1
    have hwidth := Nat.pos_of_ne_zero hempty.2
    by_cases hinside : fillLimit < (g.widest + 1) * g.width - 1
    · rw [if_pos hinside]
      exact iff_of_true rfl ⟨hheight, hwidth, hinside⟩
    · rw [if_neg hinside]
      exact iff_of_false nofun fun h => hinside h.2.2

namespace Problem

/-- The drawings of a printed problem. -/
def drawings (p : Problem Float) : List (Grid Float) := [p.supplyGrid, p.consumptionGrid, p.profitGrid]

theorem text?_eq_none {p : Problem Float} : p.text? = none ↔ ∃ g ∈ p.drawings, g.TooWide := by
  simp only [drawings, List.mem_cons, List.not_mem_nil, or_false, exists_eq_or_imp, exists_eq_left,
    ← Grid.bracketed?_eq_none]
  unfold text?
  cases p.supplyGrid.bracketed? with
  | none => simp
  | some supply =>
    cases p.consumptionGrid.bracketed? with
    | none => simp
    | some consumption => cases p.profitGrid.bracketed? <;> simp

/-- Drawing the consumptions reads only rows that there are. -/
theorem checked_consumptionGrid (p : Problem Float) :
    Reading.checked.consumptionGrid p = .ok p.consumptionGrid := by
  have htotal : p.consumptionGrid = Grid.tabulate p.consumption.length (p.consumption.headD []).length
      fun i j => (p.consumption.getD i []).getD j 0 :=
    Grid.tabulateM_eq_pure (m := Id) (f := fun i j =>
      return (← Reading.total.get [] p.consumption[i]?).getD j 0) fun _ _ _ _ => rfl
  rw [htotal]
  refine Grid.tabulateM_eq_pure (m := Except Fault) fun i j hi _ => ?_
  rw [Reading.checked_getElem? [] hi]
  rfl

end Problem

theorem Notice.isWritable_iff {n : Notice} {least : Severity} :
    n.isWritable least = true ↔ ¬ (n.severity.rank ≤ least.rank ∧ n.text? = none) := by
  cases htext : n.text? <;> simp [isWritable, isWanted, htext]

namespace Plan

/-- A log from `least` up wants the notice of this event, and a drawing in it is too wide. -/
inductive Overfills (least : Severity) : PlanEvent Float → Prop
  | problem {p : Problem Float} {g : Grid Float} (wanted : Severity.info.rank ≤ least.rank)
      (drawn : g ∈ p.drawings) (wide : g.TooWide) : Overfills least (.posed p)
  | cut {source label : String} {row : List Float} {after : Tableau Float}
      (wanted : Severity.debug.rank ≤ least.rank) (wide : (Grid.ofRows row 1 row.length).TooWide) :
      Overfills least (.solving (.cut source label row after))

theorem Overfills.info_le {least : Severity} {e : PlanEvent Float} (h : Overfills least e) :
    Severity.info.rank ≤ least.rank := by
  cases h with
  | problem wanted => exact wanted
  | cut wanted => exact (by decide : Severity.info.rank ≤ Severity.debug.rank).trans wanted

theorem isWritable_notice_iff {e : PlanEvent Float} {least : Severity} :
    e.notice.isWritable least = true ↔ ¬ Overfills least e := by
  rw [Notice.isWritable_iff, not_iff_not]
  cases e with
  | posed p =>
    refine (and_congr_right' Problem.text?_eq_none).trans ⟨?_, ?_⟩
    · rintro ⟨wanted, g, drawn, wide⟩
      exact .problem wanted drawn wide
    · rintro ⟨wanted, drawn, wide⟩
      exact ⟨wanted, _, drawn, wide⟩
  | solving event =>
    cases event with
    | cut source label row after =>
      refine (and_congr_right' (Option.map_eq_none_iff.trans Grid.bracketed?_eq_none)).trans ⟨?_, ?_⟩
      · rintro ⟨wanted, wide⟩
        exact .cut wanted wide
      · intro h
        cases h with
        | cut wanted wide => exact ⟨wanted, wide⟩
    | _ => exact iff_of_false (fun h => by cases h.2) nofun
  | _ => exact iff_of_false (fun h => by cases h.2) nofun

/-! ### Endings -/

theorem posed_mem_compute {α : Type} [Scalar α] {request : PlanRequest α} {flag : StopFlag α} {p : Problem α} :
    .posed p ∈ (compute request flag).events ↔
      request.shapeError? = none ∧ request.inadmissible = [] ∧ p = request.problem := by
  have hsolving : .posed p ∉ (solveProblem request.problem request.options flag).events := by
    rw [solveProblem_eq]
    cases request.problem.tableau with
    | error reason => simp
    | ok t => cases h : (t.solveInto request.options .keep flag).result <;> simp [h]
  unfold compute
  cases request.shapeError? with
  | some error => simp
  | none =>
    cases request.inadmissible with
    | cons field fields => simp
    | nil => simp [hsolving]

/-- How planning can end with a log from `least?` up, or without one. -/
structure Endings (request : PlanRequest Float) (flag : StopFlag Float) (least? : Option Severity) : Prop where
  /-- The log breaks off at a drawing that it would have to hold. -/
  unwritable : (compute request flag).ending least? = .error .unwritable ↔
    ∃ least ∈ least?, ∃ e ∈ (compute request flag).events, Overfills least e
  /-- The solve comes to a pivot on zero, which it has announced. -/
  fault : ∀ fault, (compute request flag).ending least? = .error (.fault fault) ↔
    (∀ least ∈ least?, ∀ e ∈ (compute request flag).events, ¬ Overfills least e) ∧
      ∃ r s entering leaving element, fault = .zeroPivot r s ∧ (element == 0) = true ∧
        .solving (.pivoting r s entering leaving element) ∈ (compute request flag).events
  answered : ¬ request.options.epsilon < 0 →
    (∀ least ∈ least?, ∀ e ∈ (compute request flag).events, ¬ Overfills least e) →
      ∃ answer, (compute request flag).ending least? = .ok answer
  /-- A log that asks only for warnings and errors holds no drawings. -/
  quiet : ¬ request.options.epsilon < 0 → (∀ least ∈ least?, least.rank < Severity.info.rank) →
    ∃ answer, (compute request flag).ending least? = .ok answer
  posed : ∀ p, .posed p ∈ (compute request flag).events ↔
    request.shapeError? = none ∧ request.inadmissible = [] ∧ p = request.problem
  /-- No lookup by a position fails when the tableau is made, nor when the problem is drawn or solved. -/
  tableau : Reading.checked.startingTableau request.problem = .ok request.problem.tableau
  drawing : Reading.checked.consumptionGrid request.problem = .ok request.problem.consumptionGrid
  solving : ∀ t : Tableau Float, t.ReadsInside request.options.epsilon

section Ending

variable {report : Report Float} {least? : Option Severity}

theorem overfilled_iff : (least?.any fun least => !(report.log least).isWhole) = true ↔
    ∃ least ∈ least?, ∃ e ∈ report.events, Overfills least e := by
  cases least? with
  | none => simp
  | some least =>
    have hwhole : (report.log least).isWhole = true ↔ ∀ e ∈ report.events, ¬ Overfills least e :=
      Log.isWhole_write.trans (forall₂_congr fun _ _ => isWritable_notice_iff)
    rw [Option.any_some, Bool.not_eq_true', ← Bool.not_eq_true, hwhole]
    simp

theorem ending_of_overfilled (h : ∃ least ∈ least?, ∃ e ∈ report.events, Overfills least e) :
    report.ending least? = .error .unwritable := if_pos (overfilled_iff.2 h)

theorem ending_of_not_overfilled (h : ∀ least ∈ least?, ∀ e ∈ report.events, ¬ Overfills least e) :
    report.ending least? = report.result.mapError .fault :=
  if_neg fun hfull => by
    obtain ⟨least, hleast, e, he, hwide⟩ := overfilled_iff.1 hfull
    exact h least hleast e he hwide

theorem ending_eq_unwritable : report.ending least? = .error .unwritable ↔
    ∃ least ∈ least?, ∃ e ∈ report.events, Overfills least e := by
  refine ⟨fun h => ?_, ending_of_overfilled⟩
  by_contra hno
  rw [ending_of_not_overfilled fun least hleast e he hwide => hno ⟨least, hleast, e, he, hwide⟩] at h
  cases hresult : report.result <;> rw [hresult] at h <;> cases h

theorem ending_eq_fault {fault : Fault} : report.ending least? = .error (.fault fault) ↔
    (∀ least ∈ least?, ∀ e ∈ report.events, ¬ Overfills least e) ∧ report.result = .error fault := by
  constructor
  · intro h
    have hwritable : ∀ least ∈ least?, ∀ e ∈ report.events, ¬ Overfills least e := by
      intro least hleast e he hwide
      rw [ending_of_overfilled ⟨least, hleast, e, he, hwide⟩] at h
      cases h
    rw [ending_of_not_overfilled hwritable] at h
    refine ⟨hwritable, ?_⟩
    cases hresult : report.result with
    | ok answer =>
      rw [hresult] at h
      cases h
    | error reason =>
      rw [hresult] at h
      cases h
      rfl
  · rintro ⟨hwritable, hresult⟩
    rw [ending_of_not_overfilled hwritable, hresult]
    rfl

end Ending

end Plan

/-- The drawing of a row is too wide already if it has enough places for its numbers to be as long as one of
them is. -/
theorem Grid.tooWide_of_mem {xs : List Float} {x : Float} (hx : x ∈ xs)
    (hwide : fillLimit < ((Decimal.plainText x).length + 1) * xs.length - 1) :
    (Grid.ofRows xs 1 xs.length).TooWide := by
  obtain ⟨j, hj, rfl⟩ := List.mem_iff_getElem.1 hx
  have hget : (Grid.ofRows xs 1 xs.length).get 0 j = xs[j] := by
    refine (Grid.get_tabulate _ Nat.zero_lt_one hj).trans ?_
    simp [hj]
  have hmem : Decimal.plainText xs[j] ∈ (Grid.ofRows xs 1 xs.length).entryTexts.flatten := by
    rw [← hget]
    refine List.mem_flatten.2 ⟨((Grid.ofRows xs 1 xs.length).row 0).map Decimal.plainText, ?_, ?_⟩
    · exact List.mem_map_of_mem (List.mem_map_of_mem (List.mem_range.2 Nat.zero_lt_one))
    · exact List.mem_map_of_mem (List.mem_map_of_mem (List.mem_range.2 hj))
  have hwidest : (Decimal.plainText xs[j]).length ≤ (Grid.ofRows xs 1 xs.length).widest :=
    List.le_max?_getD_of_mem (List.mem_map_of_mem hmem)
  refine ⟨Nat.zero_lt_one, Nat.zero_lt_of_lt hj, hwide.trans_le ?_⟩
  exact Nat.sub_le_sub_right (Nat.mul_le_mul_right _ (Nat.succ_le_succ hwidest)) 1

namespace Plan

/-- A request whose profits are written with 309 digits each. -/
def wideRequest : PlanRequest Float := ⟨[1], [.replicate 212 0], .replicate 212 1e308, .default⟩

theorem tooWide_profitGrid : wideRequest.problem.profitGrid.TooWide := by
  have hdigits : (Decimal.plainText 1e308).length = 309 := by
    rw [Decimal.plainText, String.length_ofList]
    decide +kernel
  have hproducts : wideRequest.problem.profit.length = 212 := List.length_replicate
  refine Grid.tooWide_of_mem (x := 1e308) (List.mem_replicate.2 ⟨by decide, rfl⟩) ?_
  rw [hdigits, hproducts]
  decide

theorem posed_wideRequest (flag : StopFlag Float) :
    .posed wideRequest.problem ∈ (compute wideRequest flag).events := by
  refine posed_mem_compute.2 ⟨?_, PlanRequest.inadmissible_eq_nil.2 fun x hx => ?_, rfl⟩
  · refine PlanRequest.shapeError?_eq_none.2 ⟨rfl, fun row hrow => ?_, ?_⟩
    · rw [List.mem_singleton.1 hrow, wideRequest, List.length_replicate, List.length_replicate]
    · simp [wideRequest]
  · rcases hx with hx | ⟨row, hrow, hx⟩ | hx
    · rw [List.mem_singleton.1 hx]
      decide +kernel
    · rw [List.mem_singleton.1 hrow] at hx
      rw [(List.mem_replicate.1 hx).2]
      decide +kernel
    · rw [(List.mem_replicate.1 hx).2]
      decide +kernel

/-- Planning ends with an answer, a plan or an error, unless its solve pivots on zero or its log cannot hold a
drawing. The first only happens at a negative tolerance, the second only to a log that asks for more than
warnings, and at no tolerance does a lookup by a position fail on the way. -/
theorem compute_ends (request : PlanRequest Float) (flag : StopFlag Float) (least? : Option Severity) :
    Endings request flag least? := by
  have hanswered (hε : ¬ request.options.epsilon < 0)
      (hwritable : ∀ least ∈ least?, ∀ e ∈ (compute request flag).events, ¬ Overfills least e) :
      ∃ answer, (compute request flag).ending least? = .ok answer := by
    obtain ⟨answer, hanswer⟩ := exists_compute (Binary64.separates_of_not_neg hε) flag
    rw [ending_of_not_overfilled hwritable, hanswer]
    exact ⟨answer, rfl⟩
  refine ⟨ending_eq_unwritable, fun fault => ?_, hanswered, fun hε hquiet => hanswered hε ?_,
    fun _ => posed_mem_compute, request.problem.checked_startingTableau,
    request.problem.checked_consumptionGrid, fun t => t.readsInside _⟩
  · rw [ending_eq_fault, ← mem_faultsIn_solving, faultsIn_compute, mem_faultOf]
  · exact fun least hleast e _ hover => absurd hover.info_le (hquiet least hleast).not_ge

-- The log of the first request has a drawing of every number, that of the second one would be too wide.
theorem compute_ends_toys_wide :
    (∃ answer, (compute CommandLine.toyExample .never).ending (some .info) = .ok answer) ∧
      (compute wideRequest .never).ending (some .info) = .error .unwritable := by
  have htoys := compute_ends CommandLine.toyExample .never (some .info)
  have hwide := compute_ends wideRequest .never (some .info)
  have hε : ¬ Options.default.epsilon < 0 := by decide +kernel
  have hdrawn : ∀ g ∈ CommandLine.toyExample.problem.drawings, ¬ g.TooWide := by decide +kernel
  refine ⟨htoys.answered hε fun least hleast e he hover => ?_, hwide.unwritable.2 ⟨.info, rfl, _,
    posed_wideRequest .never, .problem le_rfl (List.mem_of_mem_tail (List.mem_of_mem_tail
      (List.mem_singleton.2 rfl))) tooWide_profitGrid⟩⟩
  obtain rfl := Option.some.inj hleast
  cases hover with
  | problem wanted drawn wide =>
    obtain ⟨-, -, rfl⟩ := (htoys.posed _).1 he
    exact hdrawn _ drawn wide
  | cut wanted wide => exact absurd wanted (by decide)

-- At tolerance minus one every whole number counts as fractional, and its cut has only zeros to pivot on.
theorem compute_fault_of_negative :
    (compute (α := Float) ⟨[4], [[1]], [1], ⟨-1, 20, none⟩⟩ .never).ending none =
      .error (.fault (.zeroPivot 1 1)) := by
  decide +kernel

end Plan
end CuttingPlane

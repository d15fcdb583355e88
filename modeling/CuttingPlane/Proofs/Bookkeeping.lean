import CuttingPlane.Proofs.Histories
import CuttingPlane.Proofs.Start

/-!
# Bookkeeping of labels

The labels of a tableau are a ledger of the variables of the problem. A pivot moves two of them, a cut
enters one, and nothing else touches the ledger: at every point of a solve it holds the names of the
products, of the slack variables and of the cuts so far, each once, besides the names of the objective and
of the right-hand sides, which never leave their places. None of this depends on the arithmetic.
-/

namespace CuttingPlane

namespace Tableau

variable {α : Type} {t : Tableau α} {label : String}

/-- The label stands at one place only: at a row above the objective, or at a column after the right-hand
sides. -/
def StandsOnce (t : Tableau α) (label : String) : Prop :=
  (∃ r < t.objectiveRow, (∀ i < t.height, t.rowLabel i = label ↔ i = r) ∧ label ∉ t.nonbasic) ∨
    ∃ s, 1 ≤ s ∧ s < t.width ∧ (∀ j < t.width, t.columnLabel j = label ↔ j = s) ∧ label ∉ t.basic

theorem Restricted.standsOnce (hd : t.labels.Nodup) (h : t.Restricted label) : t.StandsOnce label := by
  have hdisjoint : ∀ name ∈ t.basic, name ∉ t.nonbasic := fun name hrow hcolumn =>
    (List.nodup_append.1 hd).2.2 name hrow name hcolumn rfl
  have hlast := t.objectiveRow_lt
  rcases h.cases with ⟨r, hr, rfl⟩ | ⟨s, h1, hs, rfl⟩
  · have hrow : r < t.height := by omega
    refine .inl ⟨r, hr, fun i hi => ⟨fun hlabel => rowLabel_injective hd hi hrow hlabel, ?_⟩, ?_⟩
    · rintro rfl
      rfl
    · exact hdisjoint _ (rowLabel_mem hrow)
  · refine .inr ⟨s, h1, hs, fun j hj => ⟨fun hlabel => columnLabel_injective hd hj hs hlabel, ?_⟩, ?_⟩
    · rintro rfl
      rfl
    · exact fun hbasic => hdisjoint _ hbasic (columnLabel_mem hs)

end Tableau

open Tableau

namespace Problem

variable {α : Type} {p : Problem α} {t : Tableau α} {cuts : ℕ}

/-! ### The ledger -/

/-- The tableau has a row per resource and per cut and a column per product, besides the objective and the
right-hand sides, and its labels are the names in use. -/
structure Books (p : Problem α) (cuts : ℕ) (t : Tableau α) : Prop where
  height : t.height = p.resources + 1 + cuts
  width : t.width = p.products + 1
  objective : t.rowLabel t.objectiveRow = objectiveLabel
  rhs : t.columnLabel 0 = rhsLabel
  names : t.labels.Perm (p.namesAfter cuts)
  decision : t.decision = (List.range p.products).map fun j => variableName (j + 1)

theorem Books.distinct (h : p.Books cuts t) : t.labels.Nodup :=
  h.names.nodup_iff.2 (p.nodup_namesAfter cuts)

theorem Books.standsOnce (h : p.Books cuts t) {label : String} (hlabel : label ∈ t.decision) :
    t.StandsOnce label := by
  rw [h.decision] at hlabel
  obtain ⟨j, hj, rfl⟩ := List.mem_map.1 hlabel
  have hproduct := List.mem_range.1 hj
  refine Restricted.standsOnce h.distinct ⟨h.names.mem_iff.2 ?_, ?_, ?_⟩
  · have hmem : variableName (j + 1) ∈
        (List.range (p.products + p.resources)).map fun j => variableName (j + 1) :=
      List.mem_map.2 ⟨j, List.mem_range.2 (by omega), rfl⟩
    exact List.mem_cons_of_mem _ (List.mem_cons_of_mem _ (List.mem_append_left _ hmem))
  · rw [h.objective]
    exact (objectiveLabel_ne_variableName _).symm
  · rw [h.rhs]
    exact (rhsLabel_ne_variableName _).symm

variable [Scalar α] {ε : α} {r s : ℕ}

theorem books_of_tableau (h : p.tableau = .ok t) : p.Books 0 t := by
  have hposes := poses_of_tableau h
  obtain ⟨-, hbasic, hnonbasic, -⟩ := create_eq_ok (create_of_tableau h)
  refine ⟨hposes.height, hposes.width, hposes.objective, ?_, ?_, hposes.decision⟩
  · rw [columnLabel_eq, hnonbasic]
    rfl
  · rw [Tableau.labels, hbasic, hnonbasic]
    exact p.startingNames_perm

theorem Books.pivot (h : p.Books cuts t) (hr : r < t.objectiveRow) (h1 : 1 ≤ s) (hs : s < t.width) :
    p.Books cuts (t.pivot r s) where
  height := h.height
  width := h.width
  objective := (rowLabel_objectiveRow_pivot hr).trans h.objective
  rhs := (columnLabel_zero_pivot h1 hs).trans h.rhs
  names := by
    have hlast := t.objectiveRow_lt
    exact (labels_pivot_perm (by omega) hs).trans h.names
  decision := h.decision

theorem Books.addCut (h : p.Books cuts t) (row : List α) :
    p.Books (cuts + 1) (t.addRow t.cutLabel row) where
  height := by rw [height_addRow, h.height, Nat.add_assoc]
  width := h.width
  objective := (rowLabel_objectiveRow_addRow row).trans h.objective
  rhs := h.rhs
  names := by
    have hname : t.cutLabel = cutName (p.products + p.resources + 2 + cuts) := by
      rw [show p.products + p.resources + 2 + cuts = t.height + t.width by
        rw [h.height, h.width]
        omega]
      rfl
    rw [namesAfter_succ, ← hname]
    have hentered : (t.cutLabel :: t.labels).Perm (t.cutLabel :: p.namesAfter cuts) := h.names.cons _
    exact (labels_addRow_perm row).trans (hentered.trans (List.perm_append_singleton _ _).symm)
  decision := h.decision

theorem Books.replay {events : List (Event α)} (h : p.Books cuts t) (he : Tells ε t events) :
    p.Books (cuts + cutsIn events) (t.replay events) :=
  he.replay_induction (fun _ _ _ _ hr h1 hs hbooks => hbooks.pivot hr h1 hs)
    (fun _ _ _ hbooks => hbooks.addCut _) cuts h

/-! ### Whole solves -/

/-- At every point of a solve the books are in order: a label per row and per column, the names of the
variables and of the cuts so far each once, the objective and the right-hand sides in their places, and
every variable decided on at one place. The points of a solve are the tableaus that the beginnings of its
history lead to, the last of them where it ends. -/
theorem solve_keeps_books (htableau : p.tableau = .ok t) (options : Options α) (flag : StopFlag α) :
    let run := t.solve options flag
    (∀ past, past <+: run.events →
      let u := t.replay past
      p.Books (cutsIn past) u ∧ u.basic.length = u.height ∧ u.nonbasic.length = u.width ∧
        u.labels.Nodup ∧ ∀ label ∈ u.decision, u.StandsOnce label) ∧
    Tells options.epsilon t run.events ∧ t.replay run.events = run.tableau ∧
    ∀ solution, run.result = .ok solution → solution.cuts = cutsIn run.events := by
  have hrecorded := solve_recorded t options flag
  refine ⟨?_, hrecorded.tells, hrecorded.leads, fun solution hsolve => ?_⟩
  · rintro past ⟨rest, hevents⟩
    have htells : Tells options.epsilon t (past ++ rest) := hevents ▸ hrecorded.tells
    have hbooks := (books_of_tableau htableau).replay (tells_append.1 htells).1
    rw [Nat.zero_add] at hbooks
    exact ⟨hbooks, length_basic _, length_nonbasic _, hbooks.distinct, fun label => hbooks.standsOnce⟩
  · rw [hrecorded.counts solution hsolve, Nat.zero_add]

-- Two cuts in doubles: the names of the cuts go on counting, and the products keep one place each.
theorem solve_keeps_books_two_cuts : ∃ t : Tableau Float,
    (⟨[7, 11], [[1, 2], [3, 2]], [3, 4]⟩ : Problem Float).tableau = .ok t ∧
      cutsIn (t.solve .default .never).events = 2 ∧
      (t.solve .default .never).tableau.basic = ["x2", "x1", "x4", "cut6", "F"] ∧
      ∀ label ∈ (t.solve .default .never).tableau.decision,
        (t.solve .default .never).tableau.StandsOnce label := by
  obtain ⟨t, htableau, hcuts, hbasic⟩ : ∃ t : Tableau Float,
      (⟨[7, 11], [[1, 2], [3, 2]], [3, 4]⟩ : Problem Float).tableau = .ok t ∧
        cutsIn (t.solve .default .never).events = 2 ∧
        (t.solve .default .never).tableau.basic = ["x2", "x1", "x4", "cut6", "F"] :=
    ⟨_, rfl, by decide +kernel, by decide +kernel⟩
  obtain ⟨hbooks, -, hlast, -⟩ := solve_keeps_books htableau .default .never
  obtain ⟨-, -, -, -, hdecision⟩ := hbooks _ (List.prefix_refl _)
  rw [hlast] at hdecision
  exact ⟨t, htableau, hcuts, hbasic, hdecision⟩

end Problem
end CuttingPlane

import CuttingPlane.Proofs.Optimality
import CuttingPlane.Proofs.Relaxations

/-!
# Whole optima of the first pass

A solve at tolerance zero ends with its first pass if every right-hand side is whole then, those of the slack
variables among them. They are whole exactly if the vertex leaves a whole amount of every resource. Over
whole supplies and consumptions an optimum that produces whole amounts does so, but over others it may be
cut.
-/

namespace CuttingPlane

open Tableau

namespace Tableau

section Rounds

variable {α : Type} [Scalar α] {t u : Tableau α} {options : Options α} {flag : StopFlag α} {ε : α}

theorem solve_of_whole_round (hflag : ¬ flag.raised [] = true)
    (hround : (runRound options 0 t).result = .ok (cutRound ε 0 u).result)
    (hwhole : u.mostFractional? ε = none) : (t.solve options flag).result = .ok (u.wholeSolution ε 0) := by
  rw [cutRound_of_whole hwhole] at hround
  rw [solve, rounds_of_ended hflag hround]

theorem cuts_pos_of_added (hflag : ¬ flag.raised [] = true)
    (hround : (runRound options 0 t).result = .ok (cutRound ε 0 u).result) {label name : String} {part : α}
    (hchosen : u.mostFractional? ε = some (label, part)) (hadded : (u.addCut label ε).result = .ok name)
    {solution : Solution α} (hsolve : (t.solve options flag).result = .ok solution) : 0 < solution.cuts := by
  rw [cutRound_of_added hchosen hadded] at hround
  exact lt_cuts_of_cut hflag hround hsolve

end Rounds

theorem wholeSolution_zero (u : Tableau ℚ) (cuts : ℕ) :
    u.wholeSolution 0 cuts = ⟨.optimal, u.solution, some u.objective, cuts, []⟩ := by
  have hvalues : u.solution.map (fun x => snap x 0) = u.solution := by
    simp only [Valuation.map, snap_zero, List.map_id']
  rw [wholeSolution, hvalues, snap_zero]

end Tableau

namespace Problem

variable {p : Problem ℚ} {t u : Tableau ℚ} {options : Options ℚ} {flag : StopFlag ℚ}

/-- After a pass no row is fractional exactly where the vertex produces and leaves whole amounts. -/
theorem Poses.mostFractional?_eq_none_iff (h : p.Poses t) (hu : Exchanges t u) :
    u.mostFractional? 0 = none ↔ (∀ i < p.resources, ∃ n : ℤ, p.left i (amounts u.value) = n) ∧
      ∀ j < p.products, ∃ n : ℤ, amounts u.value j = n := by
  have hd : u.labels.Nodup := hu.labels_perm.nodup_iff.2 h.labelled.distinct
  have hleft := (h.solves_iff.1 (hu.solves_iff.1 (solves_value hd))).1
  rw [mostFractional?_zero_eq_none_iff_value hd]
  simp only [hu.restricted_iff, h.restricted_iff]
  constructor
  · intro hwhole
    refine ⟨fun i hi => ?_, fun j hj => hwhole _ (.inr ⟨j, hj, rfl⟩)⟩
    rw [← hleft i hi]
    exact hwhole _ (.inl ⟨i, hi, rfl⟩)
  · rintro ⟨hresources, hproducts⟩ label (⟨i, hi, rfl⟩ | ⟨j, hj, rfl⟩)
    · rw [hleft i hi]
      exact hresources i hi
    · exact hproducts j hj

/-- Let the first pass of a solve at tolerance zero end with an optimum that produces whole amounts. If it
leaves a whole amount of every resource, as it does over whole supplies and consumptions, the solve ends
there, with exactly its values and no cut. If not, the solve goes on with a cut. -/
theorem solve_of_whole_vertex (htableau : p.tableau = .ok t) (hε : options.epsilon = 0)
    (hflag : flag.raised [] = false)
    (hpass : (t.optimize 0 (options.pivotLimit t)).result = .ok .optimal)
    (hwhole : ∀ name ∈ (t.optimize 0 (options.pivotLimit t)).tableau.decision,
      ∃ n : ℤ, (t.optimize 0 (options.pivotLimit t)).tableau.value name = n) :
    let u := (t.optimize 0 (options.pivotLimit t)).tableau
    ((t.solve options flag).result = .ok ⟨.optimal, u.solution, some u.objective, 0, []⟩ ↔
      ∀ i < p.resources, ∃ n : ℤ, p.left i (amounts u.value) = n) ∧
    ((∃ i < p.resources, ∀ n : ℤ, p.left i (amounts u.value) ≠ n) →
      ∃ solution, (t.solve options flag).result = .ok solution ∧ 0 < solution.cuts) ∧
    ((∀ x ∈ p.supply, ∃ n : ℤ, x = n) → (∀ row ∈ p.consumption, ∀ x ∈ row, ∃ n : ℤ, x = n) →
      (t.solve options flag).result = .ok ⟨.optimal, u.solution, some u.objective, 0, []⟩) := by
  have hposes := poses_of_tableau htableau
  have hexchanges := optimize_exchanges t 0 (options.pivotLimit t)
  have hreaches := optimize_reaches t 0 (options.pivotLimit t)
  have hround : (runRound options 0 t).result =
      .ok (cutRound 0 0 (t.optimize 0 (options.pivotLimit t)).tableau).result := by
    rw [runRound_of_optimal (by rw [hε]; exact hpass), hε]
  generalize (t.optimize 0 (options.pivotLimit t)).tableau = u at hwhole hexchanges hreaches hround ⊢
  have hdown : ¬ flag.raised [] = true := by rw [hflag]; exact Bool.false_ne_true
  have hproducts : ∀ j < p.products, ∃ n : ℤ, amounts u.value j = n :=
    fun j hj => hwhole _ (hposes.mem_decision hreaches hj)
  have hiff := hposes.mostFractional?_eq_none_iff hexchanges
  have hends (hleft : ∀ i < p.resources, ∃ n : ℤ, p.left i (amounts u.value) = n) :
      (t.solve options flag).result = .ok ⟨.optimal, u.solution, some u.objective, 0, []⟩ := by
    rw [← wholeSolution_zero]
    exact solve_of_whole_round hdown hround (hiff.2 ⟨hleft, hproducts⟩)
  have hcut (hleft : ∃ i < p.resources, ∀ n : ℤ, p.left i (amounts u.value) ≠ n) :
      ∃ solution, (t.solve options flag).result = .ok solution ∧ 0 < solution.cuts := by
    obtain ⟨i, hi, hne⟩ := hleft
    obtain ⟨solution, hsolve⟩ := solve_result hε.ge flag t
    refine ⟨solution, hsolve, ?_⟩
    cases hchosen : u.mostFractional? 0 with
    | none =>
      obtain ⟨n, hn⟩ := (hiff.1 hchosen).1 i hi
      exact absurd hn (hne n)
    | some pair =>
      obtain ⟨name, hadded⟩ := addCut_zero (hreaches.wellLabelled hposes.labelled).distinct hchosen
      exact cuts_pos_of_added hdown hround hchosen hadded hsolve
  refine ⟨⟨fun hsolve => ?_, hends⟩, hcut, fun hsupply hconsumption => hends fun i _ =>
    exists_left_eq_of_whole hsupply hconsumption hproducts i⟩
  by_contra hleft
  push Not at hleft
  obtain ⟨solution, hsolve', hcuts⟩ := hcut hleft
  rw [hsolve] at hsolve'
  obtain rfl := Except.ok.inj hsolve'
  exact Nat.lt_irrefl 0 hcuts

theorem solve_of_whole_vertex_identity : ∃ t : Tableau ℚ,
    (⟨[4, 6], [[1, 0], [0, 1]], [3, 2]⟩ : Problem ℚ).tableau = .ok t ∧
      (t.optimize 0 2).result = .ok .optimal ∧
      (t.solve ⟨0, 20, some 2⟩ .never).result = .ok
        ⟨.optimal, (t.optimize 0 2).tableau.solution, some (t.optimize 0 2).tableau.objective, 0, []⟩ := by
  obtain ⟨t, htableau, hpass, hwhole, hleft⟩ : ∃ t : Tableau ℚ,
      (⟨[4, 6], [[1, 0], [0, 1]], [3, 2]⟩ : Problem ℚ).tableau = .ok t ∧
        (t.optimize 0 2).result = .ok .optimal ∧
        (∀ name ∈ (t.optimize 0 2).tableau.decision,
          (t.optimize 0 2).tableau.value name = ((t.optimize 0 2).tableau.value name).num) ∧
        ∀ i < 2, (⟨[4, 6], [[1, 0], [0, 1]], [3, 2]⟩ : Problem ℚ).left i
          (amounts (t.optimize 0 2).tableau.value) = 0 := ⟨_, rfl, by decide +kernel⟩
  have hε : (⟨0, 20, some 2⟩ : Options ℚ).epsilon = 0 := rfl
  have hflag : (StopFlag.never : StopFlag ℚ).raised [] = false := rfl
  have hends := solve_of_whole_vertex htableau hε hflag hpass fun name hname => ⟨_, hwhole name hname⟩
  exact ⟨t, htableau, hpass, hends.1.2 fun i hi => ⟨0, hleft i hi⟩⟩

-- One piece uses up the first resource and leaves a half of the second. The cut of that half leaves nothing
-- feasible, although the piece is a best plan.
theorem cut_of_whole_vertex : ∃ (t : Tableau ℚ) (options : Options ℚ), options = ⟨0, 20, none⟩ ∧
    (⟨[1, 3 / 2], [[1], [1]], [1]⟩ : Problem ℚ).tableau = .ok t ∧
      (t.optimize 0 (options.pivotLimit t)).result = .ok .optimal ∧
      (∀ name ∈ (t.optimize 0 (options.pivotLimit t)).tableau.decision,
        ∃ n : ℤ, (t.optimize 0 (options.pivotLimit t)).tableau.value name = n) ∧
      ∃ solution, (t.solve options .never).result = .ok solution ∧
        solution.outcome = .infeasible ∧ solution.cuts = 1 := by
  obtain ⟨t, htableau, hpass, hwhole, hresult⟩ : ∃ t : Tableau ℚ,
      (⟨[1, 3 / 2], [[1], [1]], [1]⟩ : Problem ℚ).tableau = .ok t ∧
        (t.optimize 0 ((⟨0, 20, none⟩ : Options ℚ).pivotLimit t)).result = .ok .optimal ∧
        (∀ name ∈ (t.optimize 0 ((⟨0, 20, none⟩ : Options ℚ).pivotLimit t)).tableau.decision,
          (t.optimize 0 ((⟨0, 20, none⟩ : Options ℚ).pivotLimit t)).tableau.value name = (1 : ℤ)) ∧
        (t.solve ⟨0, 20, none⟩ .never).result.map (fun s => (s.outcome, s.cuts)) = .ok (.infeasible, 1) :=
    ⟨_, rfl, by decide +kernel⟩
  obtain ⟨solution, hsolve, hpair⟩ := map_eq_ok_iff.1 hresult
  obtain ⟨houtcome, hcuts⟩ := Prod.mk.inj hpair
  exact ⟨t, _, rfl, htableau, hpass, fun name hname => ⟨1, hwhole name hname⟩, solution, hsolve, houtcome,
    hcuts⟩

end Problem
end CuttingPlane

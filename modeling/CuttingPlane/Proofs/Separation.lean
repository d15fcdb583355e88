import CuttingPlane.Proofs.Equations
import CuttingPlane.Proofs.Exact
import CuttingPlane.Proofs.Rounds

/-!
# What a cut excludes

The row of a cut has minus the fractional parts of the row that it comes from. Where that row gives an
integer at natural numbers for the nonbasic variables, the fractional parts differ from the row by whole
numbers only, and more than minus one is left of them: the slack of the cut is a natural number. At the
vertex nothing but the part of the right-hand side is left, so a cut whose row is fractional excludes it.

The values are given by columns here, so no label needs to be the only one of its name.
-/

namespace CuttingPlane.Tableau

open Finset

variable {t : Tableau ℚ} {i : ℕ} {y z : ℕ → ℚ} {ε : ℚ}

/-- The value of the variable of row `i`, by its equation, where the nonbasic variables have these values. -/
def rowValue (t : Tableau ℚ) (i : ℕ) (z : ℕ → ℚ) : ℚ :=
  t.entry i 0 - ∑ j ∈ Ico 1 t.width, t.entry i j * z j

/-- The value that the slack of the cut of row `i` has there. -/
def cutValue (t : Tableau ℚ) (i : ℕ) (z : ℕ → ℚ) : ℚ :=
  -Int.fract (t.rhs i) + ∑ j ∈ Ico 1 t.width, Int.fract (t.entry i j) * z j

theorem rowValue_congr (h : ∀ j ∈ Ico 1 t.width, y j = z j) (i : ℕ) : t.rowValue i y = t.rowValue i z := by
  rw [rowValue, rowValue]
  congr 1
  exact sum_congr rfl fun j hj => by rw [h j hj]

theorem cutValue_congr (h : ∀ j ∈ Ico 1 t.width, y j = z j) (i : ℕ) : t.cutValue i y = t.cutValue i z := by
  rw [cutValue, cutValue]
  congr 1
  exact sum_congr rfl fun j hj => by rw [h j hj]

theorem cutRow_getD (i : ℕ) {j : ℕ} (hj : j < t.width) :
    (t.cutRow i).getD j 0 = -Int.fract (t.entry i j) := getD_cutRow i hj

theorem sub_sum_cutRow (t : Tableau ℚ) (i : ℕ) (z : ℕ → ℚ) :
    (t.cutRow i).getD 0 0 - ∑ j ∈ Ico 1 t.width, (t.cutRow i).getD j 0 * z j = t.cutValue i z := by
  have hsum : ∑ j ∈ Ico 1 t.width, (t.cutRow i).getD j 0 * z j =
      -∑ j ∈ Ico 1 t.width, Int.fract (t.entry i j) * z j := by
    rw [← sum_neg_distrib]
    exact sum_congr rfl fun j hj => by rw [cutRow_getD i (mem_Ico.1 hj).2, neg_mul]
  rw [cutRow_getD i t.zero_lt_width, hsum, sub_neg_eq_add, cutValue, rhs]

theorem rowValue_addRow_cutRow (name : String) (i : ℕ) (z : ℕ → ℚ) :
    (t.addRow name (t.cutRow i)).rowValue t.objectiveRow z = t.cutValue i z := by
  have hlt := t.objectiveRow_lt
  have hentry : ∀ j < t.width,
      (t.addRow name (t.cutRow i)).entry t.objectiveRow j = (t.cutRow i).getD j 0 := by
    intro j hj
    rw [entry_addRow t name _ (by omega) hj, if_neg (by omega), if_pos rfl]
  rw [rowValue, width_addRow, hentry 0 t.zero_lt_width, ← sub_sum_cutRow]
  congr 1
  exact sum_congr rfl fun j hj => by rw [hentry j (mem_Ico.1 hj).2]

/-! ### Whole values -/

theorem neg_one_lt_cutValue (hz : ∀ j ∈ Ico 1 t.width, 0 ≤ z j) (i : ℕ) : -1 < t.cutValue i z := by
  have hsum : 0 ≤ ∑ j ∈ Ico 1 t.width, Int.fract (t.entry i j) * z j :=
    sum_nonneg fun j hj => mul_nonneg (Int.fract_nonneg _) (hz j hj)
  have hpart := Int.fract_lt_one (t.rhs i)
  rw [cutValue]
  linarith

-- Less the value of its row, the slack is a combination of the whole parts.
theorem cutValue_eq_floor (t : Tableau ℚ) (i : ℕ) (z : ℕ → ℚ) : t.cutValue i z =
    ⌊t.rhs i⌋ - ∑ j ∈ Ico 1 t.width, ⌊t.entry i j⌋ * z j - t.rowValue i z := by
  have hsplit : ∑ j ∈ Ico 1 t.width, Int.fract (t.entry i j) * z j =
      ∑ j ∈ Ico 1 t.width, t.entry i j * z j - ∑ j ∈ Ico 1 t.width, ⌊t.entry i j⌋ * z j := by
    rw [← sum_sub_distrib]
    exact sum_congr rfl fun j _ => by rw [Int.fract, sub_mul]
  rw [cutValue, rowValue, hsplit, Int.fract, rhs]
  ring

/-- Where the nonbasic variables are natural and their row gives an integer, the slack is natural. -/
theorem exists_cutValue_eq (t : Tableau ℚ) (i : ℕ) (z : ℕ → ℕ) {b : ℤ}
    (h : t.rowValue i (fun j => z j) = b) : ∃ n : ℕ, t.cutValue i (fun j => z j) = n := by
  refine exists_natCast_eq (neg_one_lt_cutValue (fun j _ => Nat.cast_nonneg _) i)
    ⟨⌊t.rhs i⌋ - ∑ j ∈ Ico 1 t.width, ⌊t.entry i j⌋ * (z j : ℤ) - b, ?_⟩
  rw [cutValue_eq_floor, h]
  push_cast
  rfl

/-! ### The vertex -/

theorem cutValue_zero (t : Tableau ℚ) (i : ℕ) : t.cutValue i (fun _ => 0) = -Int.fract (t.rhs i) := by
  simp [cutValue]

/-- A cut that is added excludes no natural values of the nonbasic variables at which the variable of its
row is an integer. Made for the most fractional row of a tableau with distinct labels, it excludes the
vertex, by more than the tolerance. -/
theorem addCut_separates {source name : String} (h : (t.addCut source ε).result = .ok name) :
    ∃ i < t.height, t.rowOf? source = some i ∧
      let u := (t.addCut source ε).tableau
      u.rowLabel t.objectiveRow = name ∧
      (∀ (z : ℕ → ℕ) (b : ℤ), t.rowValue i (fun j => z j) = b →
        ∃ n : ℕ, u.rowValue t.objectiveRow (fun j => z j) = n) ∧
      (t.labels.Nodup → ∀ part, t.mostFractional? ε = some (source, part) →
        part = Int.fract (t.rhs i) ∧ u.rowValue t.objectiveRow (fun _ => 0) = -part ∧ -part < -ε) := by
  have hlt := t.objectiveRow_lt
  obtain ⟨rfl, i, hrow, hcut⟩ := addCut_eq_of_ok h
  have hi : i < t.height := by
    rw [← length_basic]
    exact (List.findIdx?_eq_some_iff_getElem.1 hrow).1
  refine ⟨i, hi, hrow, ?_⟩
  rw [hcut]
  refine ⟨?_, fun z b hb => ?_, fun hd part hpart => ?_⟩
  · rw [rowLabel_addRow _ (by omega), if_neg (by omega), if_pos rfl]
  · rw [rowValue_addRow_cutRow]
    exact t.exists_cutValue_eq i z hb
  · obtain ⟨k, hk, rfl, rfl, hlarge, -⟩ := mostFractional?_row hpart
    rw [rowOf?_rowLabel hd (by omega)] at hrow
    obtain rfl := Option.some.inj hrow
    rw [rowValue_addRow_cutRow, cutValue_zero]
    exact ⟨rfl, rfl, neg_lt_neg hlarge⟩

-- The row gives three and a half less half of its column: three at one, which the cut keeps.
theorem addCut_separates_half : ∃ t : Tableau ℚ,
    (⟨[7], [[2]], [3]⟩ : Problem ℚ).tableau.map (fun t => t.pivot 0 1) = .ok t ∧
      t.mostFractional? 0 = some ("x1", 1 / 2) ∧ (t.addCut "x1" 0).result = .ok "cut4" ∧
      t.rowValue 0 (fun _ => 1) = 3 ∧
      (∃ n : ℕ, (t.addCut "x1" 0).tableau.rowValue 1 (fun _ => 1) = n) ∧
      (t.addCut "x1" 0).tableau.rowValue 1 (fun _ => 0) = -(1 / 2) := by
  obtain ⟨t, htableau, hobjective, hd, hchosen, hadded, hrow, hvalue⟩ : ∃ t : Tableau ℚ,
      (⟨[7], [[2]], [3]⟩ : Problem ℚ).tableau.map (fun t => t.pivot 0 1) = .ok t ∧
        t.objectiveRow = 1 ∧ t.labels.Nodup ∧ t.mostFractional? 0 = some ("x1", 1 / 2) ∧
        (t.addCut "x1" 0).result = .ok "cut4" ∧ t.rowOf? "x1" = some 0 ∧
        t.rowValue 0 (fun _ => 1) = 3 := by
    refine ⟨_, rfl, ?_⟩
    unfold rowValue
    decide +kernel
  obtain ⟨i, -, hi, -, hkeeps, hvertex⟩ := addCut_separates hadded
  rw [hrow] at hi
  obtain rfl := Option.some.inj hi
  rw [hobjective] at hkeeps hvertex
  refine ⟨t, htableau, hchosen, hadded, hvalue, ?_, (hvertex hd _ hchosen).2.1⟩
  simpa using hkeeps (fun _ => 1) 3 (by simpa using hvalue)

end CuttingPlane.Tableau

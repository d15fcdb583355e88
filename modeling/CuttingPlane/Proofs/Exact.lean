import CuttingPlane.Solve
import Mathlib.Algebra.Order.Floor.Ring
import Mathlib.Data.Rat.Floor
import Mathlib.Tactic.Linarith

/-!
# Exact arithmetic

At rational numbers the operations of a scalar are the usual ones. What a solve reports of a value is at
most the tolerance away from it, and whole where a whole number is as close.
-/

namespace CuttingPlane

theorem fract_rat (x : ℚ) : Scalar.fract x = Int.fract x := rfl

theorem abs_rat (x : ℚ) : Scalar.abs x = |x| := by
  unfold Scalar.abs
  split
  · rename_i h
    exact (abs_of_neg (show x < 0 from h)).symm
  · rename_i h
    exact (abs_of_nonneg (not_lt.1 (show ¬ x < 0 from h))).symm

/-- An integer above minus one is a natural number. -/
theorem exists_natCast_eq {x : ℚ} (hx : -1 < x) (h : ∃ n : ℤ, x = n) : ∃ n : ℕ, x = n := by
  obtain ⟨k, rfl⟩ := h
  have hbound : (-1 : ℤ) < k := by exact_mod_cast hx
  obtain ⟨n, rfl⟩ := Int.eq_ofNat_of_zero_le (show 0 ≤ k by omega)
  exact ⟨n, Int.cast_natCast n⟩

theorem round_of_neg {x : ℚ} (h : x < 0) : Scalar.round x = -((⌊-x + 1 / 2⌋ : ℤ) : ℚ) := if_pos h

theorem round_of_nonneg {x : ℚ} (h : 0 ≤ x) : Scalar.round x = (⌊x + 1 / 2⌋ : ℤ) := if_neg (not_lt.2 h)

theorem snap_eq {α : Type} [Scalar α] (x ε : α) :
    snap x ε = if Scalar.abs (x - Scalar.round x) ≤ ε then Scalar.round x else x := rfl

theorem abs_snap_sub_le (x : ℚ) {ε : ℚ} (hε : 0 ≤ ε) : |snap x ε - x| ≤ ε := by
  rw [snap_eq]
  split
  · rename_i h
    rw [abs_rat] at h
    rw [abs_sub_comm]
    exact h
  · simpa using hε

theorem snap_of_neg {x ε : ℚ} (hx : x < 0) (hε : ε < 1 / 2) (h : -ε ≤ x) : snap x ε = 0 := by
  have hnearest : ⌊-x + 1 / 2⌋ = 0 := by
    rw [Int.floor_eq_iff]
    constructor <;> norm_num <;> linarith
  rw [snap_eq, round_of_neg hx, hnearest, Int.cast_zero, neg_zero, sub_zero, abs_rat, abs_of_neg hx,
    if_pos (show -x ≤ ε by linarith)]

theorem snap_of_fract_le {x ε : ℚ} (hx : 0 ≤ x) (hε : ε < 1 / 2) (h : Int.fract x ≤ ε) :
    snap x ε = (⌊x⌋ : ℤ) := by
  have hnonneg := Int.fract_nonneg x
  have hsplit := Int.floor_add_fract x
  have hnearest : ⌊x + 1 / 2⌋ = ⌊x⌋ := by
    rw [Int.floor_eq_iff]
    constructor <;> linarith
  have hdistance : x - (⌊x⌋ : ℤ) = Int.fract x := rfl
  rw [snap_eq, round_of_nonneg hx, hnearest, abs_rat, hdistance, abs_of_nonneg hnonneg, if_pos h]

theorem snap_of_le_fract {x ε : ℚ} (hx : 0 ≤ x) (hε : ε < 1 / 2) (h : 1 - ε ≤ Int.fract x) :
    snap x ε = (⌊x⌋ : ℤ) + 1 := by
  have hlt := Int.fract_lt_one x
  have hsplit := Int.floor_add_fract x
  have hnearest : ⌊x + 1 / 2⌋ = ⌊x⌋ + 1 := by
    rw [Int.floor_eq_iff]
    push_cast
    constructor <;> linarith
  have hdistance : x - ((⌊x⌋ + 1 : ℤ) : ℚ) = -(1 - Int.fract x) := by
    push_cast
    linarith
  rw [snap_eq, round_of_nonneg hx, hnearest, abs_rat, hdistance, abs_neg,
    abs_of_nonneg (by linarith), if_pos (show 1 - Int.fract x ≤ ε by linarith)]
  push_cast
  rfl

theorem snap_zero (x : ℚ) : snap x 0 = x := by
  have h := abs_snap_sub_le x (le_refl 0)
  exact sub_eq_zero.1 (abs_eq_zero.1 (le_antisymm h (abs_nonneg _)))

end CuttingPlane

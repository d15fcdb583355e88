import CuttingPlane.Decimal.Fixed
import CuttingPlane.Proofs.Doubles

/-!
# Rounding to the nearest

A quotient that is no whole number is rounded to the nearest one, and halves to the even neighbour. The
places of a decimal are rounded so, and the result of every operation on doubles: what lies between two
doubles goes to the nearest multiple of the spacing that doubles have at its size.
-/

namespace CuttingPlane

/-! ### To a whole number -/

/-- The whole number nearest to `q`; a half goes to the even neighbour. -/
def roundHalfEven (q : ℚ) : ℤ :=
  if Int.fract q < 1 / 2 then ⌊q⌋ else if 1 / 2 < Int.fract q then ⌊q⌋ + 1 else ⌊q⌋ + ⌊q⌋ % 2

/-- What makes a whole number the one that `q` is rounded to. -/
structure IsNearestEven (q : ℚ) (n : ℤ) : Prop where
  near : |q - n| ≤ 1 / 2
  even : |q - n| = 1 / 2 → Even n

theorem isNearestEven_roundHalfEven (q : ℚ) : IsNearestEven q (roundHalfEven q) := by
  have hsplit := Int.floor_add_fract q
  have hlow := Int.fract_nonneg q
  have hhigh := Int.fract_lt_one q
  unfold roundHalfEven
  split_ifs with hbelow habove
  · have habs : |q - ⌊q⌋| = Int.fract q := by rw [Int.self_sub_floor, abs_of_nonneg hlow]
    exact ⟨habs ▸ hbelow.le, fun h => absurd (habs ▸ h) hbelow.ne⟩
  · have habs : |q - (⌊q⌋ + 1 : ℤ)| = 1 - Int.fract q := by
      rw [abs_of_nonpos] <;> push_cast <;> linarith
    exact ⟨by linarith, fun h => by linarith⟩
  · have hhalf : Int.fract q = 1 / 2 := by linarith
    rcases Int.emod_two_eq_zero_or_one ⌊q⌋ with h | h
    · have habs : |q - (⌊q⌋ + 0 : ℤ)| = 1 / 2 := by
        rw [abs_of_nonneg] <;> push_cast <;> linarith
      exact ⟨h ▸ habs.le, fun _ => Int.even_iff.2 (by omega)⟩
    · have habs : |q - (⌊q⌋ + 1 : ℤ)| = 1 / 2 := by
        rw [abs_of_nonpos] <;> push_cast <;> linarith
      exact ⟨h ▸ habs.le, fun _ => Int.even_iff.2 (by omega)⟩

theorem IsNearestEven.unique {q : ℚ} {m n : ℤ} (hm : IsNearestEven q m) (hn : IsNearestEven q n) : m = n := by
  wlog hlt : m < n generalizing m n
  · rcases lt_or_eq_of_le (not_lt.1 hlt) with h | h
    · exact (this hn hm h).symm
    · exact h.symm
  have hm' := abs_le.1 hm.near
  have hn' := abs_le.1 hn.near
  have hstep : (m : ℚ) + 1 ≤ n := by exact_mod_cast hlt
  -- Two neighbours are both nearest only at the half between them, and one of them is odd.
  have hnext : n = m + 1 := by
    have hle : (n : ℚ) ≤ m + 1 := by linarith
    have hcast : n ≤ m + 1 := by exact_mod_cast hle
    omega
  have hhalf : q = m + 1 / 2 := by linarith
  have heven := hm.even (by rw [hhalf, add_sub_cancel_left, abs_of_pos (by norm_num)])
  have heven' := hn.even (by rw [hhalf, hnext]; push_cast; rw [abs_of_nonpos] <;> linarith)
  rw [Int.even_iff] at heven heven'
  omega

theorem roundHalfEven_eq_iff {q : ℚ} {n : ℤ} : roundHalfEven q = n ↔ IsNearestEven q n := by
  constructor
  · rintro rfl
    exact isNearestEven_roundHalfEven q
  · exact (isNearestEven_roundHalfEven q).unique

@[simp] theorem roundHalfEven_intCast (n : ℤ) : roundHalfEven n = n :=
  roundHalfEven_eq_iff.2 ⟨by simp, by simp⟩

@[simp] theorem roundHalfEven_zero : roundHalfEven 0 = 0 := by simpa using roundHalfEven_intCast 0

theorem roundHalfEven_neg (q : ℚ) : roundHalfEven (-q) = -roundHalfEven q := by
  obtain ⟨hnear, heven⟩ := isNearestEven_roundHalfEven q
  have habs : |(-q) - (-roundHalfEven q : ℤ)| = |q - roundHalfEven q| := by
    rw [← abs_neg]
    push_cast
    ring_nf
  exact roundHalfEven_eq_iff.2 ⟨habs ▸ hnear, fun h => (heven (habs ▸ h)).neg⟩

theorem roundHalfEven_mono {p q : ℚ} (h : p ≤ q) : roundHalfEven p ≤ roundHalfEven q := by
  by_contra! hlt
  have hp := abs_le.1 (isNearestEven_roundHalfEven p).near
  have hq := abs_le.1 (isNearestEven_roundHalfEven q).near
  have hstep : (roundHalfEven q : ℚ) + 1 ≤ roundHalfEven p := by exact_mod_cast hlt
  obtain rfl : p = q := by linarith
  exact lt_irrefl _ hlt

theorem roundHalfEven_le {q : ℚ} {n : ℤ} (h : q ≤ n) : roundHalfEven q ≤ n := by
  simpa using roundHalfEven_mono h

theorem le_roundHalfEven {q : ℚ} {n : ℤ} (h : n ≤ q) : n ≤ roundHalfEven q := by
  simpa using roundHalfEven_mono h

/-- Quotients of natural numbers are rounded so. -/
theorem Decimal.roundQuotient_eq (n : ℕ) {d : ℕ} (hd : 0 < d) :
    (Decimal.roundQuotient n d : ℤ) = roundHalfEven (n / d) := by
  have hpos : (0 : ℚ) < d := by exact_mod_cast hd
  have hfract : Int.fract ((n : ℚ) / d) = (n % d : ℕ) / d := Int.fract_div_natCast_eq_div_natCast_mod
  have hbelow : (n % d : ℕ) / (d : ℚ) < 1 / 2 ↔ 2 * (n % d) < d := by
    rw [div_lt_div_iff₀ hpos two_pos, one_mul, mul_comm]
    exact_mod_cast Iff.rfl
  have habove : 1 / 2 < (n % d : ℕ) / (d : ℚ) ↔ d < 2 * (n % d) := by
    rw [div_lt_div_iff₀ two_pos hpos, one_mul, mul_comm]
    exact_mod_cast Iff.rfl
  simp only [roundHalfEven, hfract, Binary64.floor_div, hbelow, habove, roundQuotient]
  rcases lt_trichotomy (2 * (n % d)) d with h | h | h
  · rw [compare_lt_iff_lt.2 h, if_pos h]
  · rw [compare_eq_iff_eq.2 h, if_neg (by omega), if_neg (by omega)]
    push_cast
    rfl
  · rw [compare_gt_iff_gt.2 h, if_neg (by omega), if_pos h]
    push_cast
    rfl

namespace Binary64

open Float.Model Float.Model.UnpackedFloat

/-! ### What the residual bits say -/

/-- A mantissa with its residual bits, as what is left of `q` below the units. -/
def Represents (em : ExtendedMantissa) (q : ℚ) : Prop :=
  match em.accuracy with
  | .exact => q = em.mantissa
  | .inexact .lt => (em.mantissa : ℚ) < q ∧ q < em.mantissa + 1 / 2
  | .inexact .eq => q = em.mantissa + 1 / 2
  | .inexact .gt => (em.mantissa : ℚ) + 1 / 2 < q ∧ q < em.mantissa + 1

theorem Represents.shiftRightOne {em : ExtendedMantissa} {q : ℚ} (h : Represents em q) :
    Represents em.shiftRightOne (q / 2) := by
  obtain ⟨m, r, s⟩ := em
  have hsplit : ((m % 2 : ℕ) : ℚ) + 2 * (m / 2 : ℕ) = m := by exact_mod_cast Nat.mod_add_div m 2
  -- The bit that leaves the mantissa takes the place of the round bit, which joins the sticky bit.
  rcases Nat.mod_two_eq_zero_or_one m with hm | hm <;> rw [hm] at hsplit <;> push_cast at hsplit <;>
    cases r <;> cases s <;>
    simp [Represents, ExtendedMantissa.accuracy, ExtendedMantissa.shiftRightOne, hm] at h ⊢ <;>
    first | linarith | exact ⟨by linarith, by linarith⟩

theorem Represents.shiftRight {em : ExtendedMantissa} {q : ℚ} (h : Represents em q) (k : ℕ) :
    Represents (em >>> k) (q / 2 ^ k) := by
  induction k with
  | zero =>
    rw [pow_zero, div_one]
    exact h
  | succ k ih =>
    rw [pow_succ, ← div_div]
    exact ih.shiftRightOne

theorem Represents.roundedMantissa {em : ExtendedMantissa} {q : ℚ} (h : Represents em q) :
    (em.roundedMantissa : ℤ) = roundHalfEven q := by
  obtain ⟨m, r, s⟩ := em
  symm
  rw [roundHalfEven_eq_iff]
  cases r <;> cases s <;>
    simp only [Represents, ExtendedMantissa.accuracy, ExtendedMantissa.roundedMantissa,
      Accuracy.roundToNearestEven] at h ⊢
  · rw [h]
    exact ⟨by simp, by simp⟩
  · have habs : |q - (m : ℤ)| = q - m := abs_of_nonneg (by push_cast; linarith)
    exact ⟨by linarith, fun h => by linarith⟩
  -- At a half, the even neighbour is the mantissa itself or the next one.
  · rcases Nat.mod_two_eq_zero_or_one m with hm | hm <;> rw [hm, h]
    · exact ⟨by simp [abs_of_pos], fun _ => Int.even_iff.2 (by omega)⟩
    · have habs : |(m : ℚ) + 1 / 2 - (m + 1 : ℕ)| = 1 / 2 := by
        rw [abs_of_nonpos] <;> push_cast <;> linarith
      exact ⟨habs.le, fun _ => Int.even_iff.2 (by omega)⟩
  · have habs : |q - (m + 1 : ℕ)| = m + 1 - q := by
      rw [abs_of_nonpos] <;> push_cast <;> linarith
    exact ⟨by push_cast at habs ⊢; linarith, fun h => by push_cast at habs h; linarith⟩

/-! ### To a double -/

/-- The exponent of the spacing that doubles have at the size of `q`. -/
def grid (q : ℚ) : ℤ := max (Int.log 2 |q| - 52) (-1074)

/-- The multiple of the spacing that is nearest to `q`. Short of the largest double it is the double that is
nearest to `q`. -/
def nearest (q : ℚ) : ℚ := roundHalfEven (q / 2 ^ grid q) * 2 ^ grid q

theorem nearest_zero : nearest 0 = 0 := by simp [nearest]

theorem grid_neg (q : ℚ) : grid (-q) = grid q := by rw [grid, grid, abs_neg]

theorem nearest_neg (q : ℚ) : nearest (-q) = -nearest q := by
  rw [nearest, nearest, grid_neg, neg_div, roundHalfEven_neg]
  push_cast
  ring

theorem nearest_signed (negative : Bool) (q : ℚ) : nearest (signed negative q) = signed negative (nearest q) := by
  cases negative
  · rfl
  · exact nearest_neg q

theorem grid_signed (negative : Bool) (q : ℚ) : grid (signed negative q) = grid q := by
  rw [grid, grid, abs_signed]

/-- What is well below the largest double is rounded to one. -/
theorem grid_le_of_lt {q : ℚ} (h : |q| < 2 ^ (1023 : ℤ)) : grid q ≤ 970 := by
  rcases (abs_nonneg q).eq_or_lt with hzero | hpos
  · rw [grid, ← hzero, Int.log_zero_right]
    norm_num
  · have hlog : Int.log 2 |q| < 1023 := (Int.lt_zpow_iff_log_lt (by norm_num) hpos).1 h
    rw [grid]
    omega

theorem log_mul_two_zpow {n : ℕ} (hn : 0 < n) (e : ℤ) : Int.log 2 ((n : ℚ) * 2 ^ e) = n.log2 + e := by
  have hpos : (0 : ℚ) < n * 2 ^ e := by positivity
  have hlow : ((2 : ℕ) : ℚ) ^ n.log2 ≤ n := by exact_mod_cast Nat.log2_self_le hn.ne'
  have hhigh : (n : ℚ) < (2 : ℕ) ^ (n.log2 + 1) := by exact_mod_cast Nat.lt_log2_self
  apply le_antisymm
  · rw [← Int.lt_add_one_iff, ← Int.lt_zpow_iff_log_lt (by norm_num) hpos, add_right_comm,
      zpow_add₀ (by norm_num)]
    exact mul_lt_mul_of_pos_right (by exact_mod_cast hhigh) (by positivity)
  · rw [← Int.zpow_le_iff_le_log (by norm_num) hpos, zpow_add₀ (by norm_num), zpow_natCast]
    exact mul_le_mul_of_nonneg_right hlow (by positivity)

/-- The exponent that the result of an operation is given. -/
theorem targetExponent_eq_grid {n : ℕ} (hn : 0 < n) (e : ℤ) :
    Format.binary64.targetExponent (totalExponent n e) = grid (n * 2 ^ e) := by
  have hmin : Format.binary64.minExponent = -1074 := by decide
  have habs : |(n : ℚ) * 2 ^ e| = n * 2 ^ e := abs_of_nonneg (by positivity)
  simp only [Format.targetExponent, totalExponent, mantissaBits_eq, hmin, grid, habs, log_mul_two_zpow hn]
  omega

theorem lt_of_grid {q : ℚ} (hq : 0 < q) : q / 2 ^ grid q < 2 ^ 53 := by
  have hpos : (0 : ℚ) < 2 ^ grid q := by positivity
  rw [div_lt_iff₀ hpos, ← zpow_natCast, ← zpow_add₀ two_ne_zero]
  refine (Int.lt_zpow_succ_log_self (b := 2) (by norm_num) q).trans_le ?_
  refine zpow_le_zpow_right₀ (by norm_num) ?_
  rw [grid, abs_of_pos hq]
  omega

theorem le_of_grid {q : ℚ} (hq : 0 < q) (h : grid q ≠ -1074) : 2 ^ 52 ≤ q / 2 ^ grid q := by
  have hpos : (0 : ℚ) < 2 ^ grid q := by positivity
  have hgrid : grid q + 52 = Int.log 2 q := by
    rw [grid, abs_of_pos hq] at h ⊢
    omega
  rw [le_div_iff₀ hpos, ← zpow_natCast, ← zpow_add₀ two_ne_zero, add_comm, Nat.cast_ofNat, hgrid]
  exact Int.zpow_log_le_self (by norm_num) hq

/-- A rounded mantissa is carried into the next place at most, and then it comes out even. -/
theorem unpacked_carry {r : ℕ} {t : ℤ} (s : Sign) (hr : r ≤ 2 ^ 53) (hleast : -1074 ≤ t) (hmost : t ≤ 970)
    (hfull : 2 ^ 52 ≤ r ∨ t = -1074) : ∃ m e, Canonical m e ∧ (m : ℚ) * 2 ^ e = r * 2 ^ t ∧
      unpacked s (shiftToTargetExponent .binary64 r t .exact).1.mantissa
        (shiftToTargetExponent .binary64 r t .exact).2 = unpacked s m e := by
  rcases Nat.eq_zero_or_pos r with rfl | hpos
  · have hshift : (shiftToTargetExponent .binary64 0 t .exact).1.mantissa = 0 := by
      have hzero := shiftRight_exact 0 (Format.binary64.targetExponent (totalExponent 0 t) - t).toNat
      rw [Nat.zero_mul] at hzero
      exact congrArg ExtendedMantissa.mantissa hzero
    refine ⟨0, -1074, canonical_zero, by simp, ?_⟩
    rw [hshift, unpacked, unpacked, dif_pos rfl, dif_pos rfl]
  rcases hr.lt_or_eq with hlt | rfl
  · have hform : Canonical r t := ⟨hlt, hleast, by omega, hfull⟩
    have hshift := shiftToTargetExponent_exact hform hpos 0
    rw [pow_zero, mul_one, Nat.cast_zero, sub_zero] at hshift
    exact ⟨r, t, hform, rfl, by rw [hshift]⟩
  · have hform : Canonical (2 ^ 52) (t + 1) := ⟨by norm_num, by omega, by omega, .inl le_rfl⟩
    have hshift := shiftToTargetExponent_exact hform (by norm_num) 1
    rw [pow_one, Nat.cast_one, add_sub_cancel_right] at hshift
    refine ⟨2 ^ 52, t + 1, hform, ?_, by rw [show 2 ^ 53 = 2 ^ 52 * 2 by norm_num, hshift]⟩
    rw [zpow_add_one₀ two_ne_zero]
    push_cast
    ring

/-- A mantissa is shifted onto the spacing and rounded there, and shifted once more if that carried it over. -/
theorem roundWithAccuracy_eq {n k : ℕ} {e : ℤ} (s : Sign)
    (htarget : Format.binary64.targetExponent (totalExponent n e) = e + k) {r : ℕ}
    (hr : r = (ExtendedMantissa.ofMantissaAndAccuracy n .exact >>> k).roundedMantissa) :
    roundWithAccuracy .binary64 s n e .exact =
      unpacked s (shiftToTargetExponent .binary64 r (e + k) .exact).1.mantissa
        (shiftToTargetExponent .binary64 r (e + k) .exact).2 := by
  have hshift : (e + k - e : ℤ).toNat = k := by omega
  have hfirst : shiftToTargetExponent .binary64 n e .exact =
      (ExtendedMantissa.ofMantissaAndAccuracy n .exact >>> k, e + k) := by
    simp only [shiftToTargetExponent, htarget, shiftToExponent, hshift]
  rw [hr, roundWithAccuracy, hfirst]
  rfl

theorem roundWithAccuracy_nearest {n : ℕ} {e : ℤ} (s : Sign) (hn : 0 < n)
    (hle : e ≤ grid (n * 2 ^ e)) (hmost : grid (n * 2 ^ e) ≤ 970) :
    value? (.ofModel (.pack (roundWithAccuracy .binary64 s n e .exact))) =
      some (signed (isMinus s) (nearest (n * 2 ^ e))) := by
  have hpos : (0 : ℚ) < n * 2 ^ e := by positivity
  have htarget := targetExponent_eq_grid hn e
  have hleast : -1074 ≤ grid ((n : ℚ) * 2 ^ e) := le_max_right _ _
  have hbelow := (lt_of_grid hpos).le
  have habove := le_of_grid hpos
  rw [nearest]
  generalize grid (n * 2 ^ e) = t at *
  obtain ⟨k, rfl⟩ : ∃ k : ℕ, t = e + k := ⟨(t - e).toNat, by omega⟩
  have hquotient : (n : ℚ) * 2 ^ e / 2 ^ (e + k : ℤ) = n / 2 ^ k := by
    rw [zpow_add₀ two_ne_zero, zpow_natCast, mul_comm (2 ^ e), mul_div_mul_right _ _ (by positivity)]
  rw [hquotient] at hbelow habove ⊢
  obtain ⟨r, hr⟩ : ∃ r : ℕ, r = (ExtendedMantissa.ofMantissaAndAccuracy n .exact >>> k).roundedMantissa := ⟨_, rfl⟩
  have hround : (r : ℤ) = roundHalfEven (n / 2 ^ k) := by
    have hexact : Represents (.ofMantissaAndAccuracy n .exact) n := rfl
    rw [hr, (hexact.shiftRight k).roundedMantissa]
  have hhigh : r ≤ 2 ^ 53 := by
    have hle : roundHalfEven ((n : ℚ) / 2 ^ k) ≤ 2 ^ 53 := roundHalfEven_le (by push_cast; exact hbelow)
    omega
  have hfull : 2 ^ 52 ≤ r ∨ e + k = -1074 := by
    refine or_iff_not_imp_right.2 fun h => ?_
    have hle : 2 ^ 52 ≤ roundHalfEven ((n : ℚ) / 2 ^ k) := le_roundHalfEven (by push_cast; exact habove h)
    omega
  obtain ⟨m, f, hform, hvalue, hcarry⟩ := unpacked_carry s hhigh hleast hmost hfull
  rw [roundWithAccuracy_eq s htarget hr, hcarry, value?_ofModel s hform, hvalue, ← hround]
  rfl

/-- A number is rounded to the nearest double, if that is not above the largest one. -/
theorem value?_round_nearest {n : ℕ} {e : ℤ} (s : Sign) (h : grid (n * 2 ^ e) ≤ 970) :
    value? (.ofModel (.pack (.round .binary64 s n e))) = some (signed (isMinus s) (nearest (n * 2 ^ e))) := by
  rcases Nat.eq_zero_or_pos n with rfl | hn
  · rw [round_zero, value?_ofModel_zero, Nat.cast_zero, zero_mul, nearest_zero, signed_zero]
  -- Written too high, the mantissa is shifted up before it is rounded.
  obtain ⟨k, hk⟩ : ∃ k : ℕ, k = (e - Format.binary64.targetExponent (totalExponent n e)).toNat := ⟨_, rfl⟩
  have hvalue : ((n * 2 ^ k : ℕ) : ℚ) * 2 ^ (e - k : ℤ) = n * 2 ^ e := by
    rw [zpow_sub₀ two_ne_zero, zpow_natCast]
    push_cast
    field_simp
  have hround : UnpackedFloat.round .binary64 s n e =
      roundWithAccuracy .binary64 s (n * 2 ^ k) (e - k) .exact := by
    simp only [UnpackedFloat.round, decreaseExponent, ← hk, Nat.shiftLeft_eq]
  have hle : e - k ≤ grid (n * 2 ^ e) := by
    rw [← targetExponent_eq_grid hn]
    omega
  rw [hround, roundWithAccuracy_nearest s (by positivity) (hvalue ▸ hle) (hvalue ▸ h), hvalue]

theorem value?_normalize_nearest {n e : ℤ} (s : Sign) (h : grid (n * 2 ^ e) ≤ 970) :
    value? (.ofModel (.pack (UnpackedFloat.normalize .binary64 n e s))) = some (nearest (n * 2 ^ e)) := by
  by_cases hn : n = 0
  · rw [hn, normalize_zero, value?_ofModel_zero, Int.cast_zero, zero_mul, nearest_zero]
  · rw [← signed_natAbs n, grid_signed] at h
    rw [normalize_of_ne hn, value?_round_nearest _ h, ← nearest_signed, signed_natAbs]

theorem representable_of_value? {x : Float} {a : ℚ} (hx : value? x = some a) : Representable a := by
  obtain ⟨negative, m, e, hparts, rfl⟩ := parts_of_value? hx
  exact ⟨m, e, canonical_of_parts hparts, by rw [abs_signed, abs_of_nonneg (by positivity)]⟩

/-- The number of a double is not rounded. -/
theorem nearest_of_representable {q : ℚ} (h : Representable q) : nearest q = q := by
  obtain ⟨m, e, hform, habs⟩ := h
  obtain ⟨negative, hq⟩ : ∃ negative, q = signed negative (m * 2 ^ e) := by
    rcases abs_choice q with h | h
    · exact ⟨false, h.symm.trans habs⟩
    · exact ⟨true, by rw [signed_true, ← habs, h, neg_neg]⟩
  rw [hq, nearest_signed]
  rcases Nat.eq_zero_or_pos m with rfl | hm
  · simp [nearest_zero]
  have hgrid : grid (m * 2 ^ e) = e := by rw [← targetExponent_eq_grid hm, targetExponent_eq hform hm]
  have hround := roundHalfEven_intCast m
  rw [nearest, hgrid, mul_div_cancel_right₀ _ (by positivity)]
  push_cast at hround
  rw [hround, Int.cast_natCast]

/-- Finite doubles are subtracted to the double nearest to their difference. -/
theorem value?_sub_nearest {x y : Float} {a b : ℚ} (hx : value? x = some a) (hy : value? y = some b)
    (h : grid (a - b) ≤ 970) : value? (x - y) = some (nearest (a - b)) := by
  by_cases hrepresentable : Representable (a - b)
  · rw [value?_sub hx hy hrepresentable, nearest_of_representable hrepresentable]
  have ha : a ≠ 0 := by
    rintro rfl
    have hb := representable_of_value? (value?_neg hy)
    rw [zero_sub] at hrepresentable
    exact hrepresentable hb
  have hb : b ≠ 0 := by
    rintro rfl
    rw [sub_zero] at hrepresentable
    exact hrepresentable (representable_of_value? hx)
  obtain ⟨s, m, e, hform, hunpack, rfl⟩ := unpack_of_value? hx
  obtain ⟨s', n, f, hform', hunpack', rfl⟩ := unpack_of_value? hy
  have hpos {k : ℕ} {s : Sign} {e : ℤ} (hk : signed (isMinus s) ((k : ℚ) * 2 ^ e) ≠ 0) : 0 < k := by
    by_contra hzero
    obtain rfl : k = 0 := by omega
    simp [signed_zero] at hk
  obtain ⟨d, g, hdifference, hresult⟩ := sub_unpacked (e := e) (f := f) s s' (hpos ha) (hpos hb)
  change value? (.ofModel (.pack (UnpackedFloat.sub .binary64 x.toModel.unpack y.toModel.unpack))) = _
  rw [hunpack, hunpack', hresult, ← hdifference]
  exact value?_normalize_nearest .positive (hdifference ▸ h)

end Binary64

end CuttingPlane

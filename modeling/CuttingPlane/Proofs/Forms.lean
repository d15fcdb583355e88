import CuttingPlane.Binary64
import Mathlib

/-!
# The forms of doubles

The bits of a finite double hold a mantissa and an exponent in one form. What is packed in that form is
unpacked again, and rounding a number that has it, written with whatever mantissa and exponent, finds it.
-/

namespace CuttingPlane.Binary64

open Float.Model Float.Model.UnpackedFloat

/-! ### The form of a double -/

/-- A mantissa and an exponent as doubles have them: a mantissa of fewer than 53 bits only under the least
exponent. -/
structure Canonical (m : ℕ) (e : ℤ) : Prop where
  small : m < 2 ^ 53
  least : -1074 ≤ e
  most : e ≤ 971
  full : 2 ^ 52 ≤ m ∨ e = -1074

theorem canonical_zero : Canonical 0 (-1074) := ⟨by decide, by decide, by decide, .inr rfl⟩

/-- The double with this sign, mantissa and exponent, taken apart. -/
def unpacked (s : Sign) (m : ℕ) (e : ℤ) : UnpackedFloat :=
  if h : m = 0 then .zero s else .finite s m e (Nat.pos_of_ne_zero h)

theorem unpacked_of_pos {s : Sign} {m : ℕ} {e : ℤ} (h : 0 < m) : unpacked s m e = .finite s m e h :=
  dif_neg (by omega)

theorem exponentBias_eq : Format.binary64.exponentBias = 1023 := by decide

theorem mantissaBits_eq : Format.binary64.mantissaBits = 53 := rfl

theorem toNat_leading_append (v : BitVec 52) : (1#1 ++ v).toNat = 2 ^ 52 + v.toNat := by
  rw [BitVec.toNat_append, ← Nat.shiftLeft_add_eq_or_of_lt v.isLt]
  rfl

theorem canonical_of_unpack {b : BitVec Format.binary64.numBits} {s : Sign} {m : ℕ} {e : ℤ} {h : 0 < m}
    (hb : unpack .binary64 b = .finite s m e h) : Canonical m e := by
  have hmantissa : (unpackMantissa b).toNat < 2 ^ 52 := (unpackMantissa b).isLt
  have hexponent : (unpackExponent b).toNat < 2 ^ 11 := (unpackExponent b).isLt
  simp only [UnpackedFloat.unpack, exponentBias_eq] at hb
  split at hb
  · split at hb <;> cases hb
  rename_i htop
  split at hb
  -- The least field is that of zero and the subnormal numbers, every other one has a leading bit.
  · rename_i hzero
    split at hb
    · cases hb
    · obtain ⟨-, rfl, rfl⟩ := UnpackedFloat.finite.inj hb
      rw [hzero]
      refine ⟨by omega, ?_, ?_, .inr ?_⟩ <;> simp
  · rename_i hzero
    obtain ⟨-, rfl, rfl⟩ := UnpackedFloat.finite.inj hb
    have hbottom : (unpackExponent b).toNat ≠ 0 := fun h => hzero (BitVec.eq_of_toNat_eq h)
    have hceiling : (unpackExponent b).toNat ≠ 2047 := fun h => htop (BitVec.eq_of_toNat_eq h)
    rw [toNat_leading_append]
    refine ⟨?_, ?_, ?_, .inl ?_⟩ <;> omega

theorem ofNat_ne {w n : ℕ} {v : BitVec w} (hn : n < 2 ^ w) (h : n ≠ v.toNat) : BitVec.ofNat w n ≠ v := by
  rintro rfl
  rw [BitVec.toNat_ofNat, Nat.mod_eq_of_lt hn] at h
  exact h rfl

/-- Bits that hold neither a zero, a subnormal number nor an exception. -/
theorem unpack_packComponents_normal (s : Sign) {n : ℕ} {v : BitVec 52} (h0 : 0 < n) (hn : n < 2047) :
    unpack .binary64 (packComponents .binary64 s (BitVec.ofNat 11 n) v) =
      .finite s (2 ^ 52 + v.toNat) (n - 1075) (Nat.add_pos_left (Nat.two_pow_pos 52) _) := by
  have hfield : (BitVec.ofNat 11 n).toNat = n := by
    rw [BitVec.toNat_ofNat, Nat.mod_eq_of_lt (by omega)]
  have htop : BitVec.ofNat 11 n ≠ -1#11 := ofNat_ne (by omega) (show n ≠ 2047 by omega)
  have hbottom : BitVec.ofNat 11 n ≠ 0#11 := ofNat_ne (by omega) (show n ≠ 0 by omega)
  simp only [UnpackedFloat.unpack, unpackMantissa_packComponents, unpackExponent_packComponents,
    unpackSign_packComponents, Sign.ofBitVec_toBitVec, exponentBias_eq, hfield, toNat_leading_append]
  rw [if_neg htop, if_neg hbottom]
  congr 1

theorem unpack_packComponents_subnormal (s : Sign) {m : ℕ} (h0 : 0 < m) (hm : m < 2 ^ 52) :
    unpack .binary64 (packComponents .binary64 s 0#11 (BitVec.ofNat 52 m)) =
      .finite s m (-1074) h0 := by
  have hfield : (BitVec.ofNat 52 m).toNat = m := by rw [BitVec.toNat_ofNat, Nat.mod_eq_of_lt hm]
  have hsome : BitVec.ofNat 52 m ≠ 0#52 := ofNat_ne hm (show m ≠ 0 by omega)
  simp only [UnpackedFloat.unpack, unpackMantissa_packComponents, unpackExponent_packComponents,
    unpackSign_packComponents, Sign.ofBitVec_toBitVec, exponentBias_eq, hfield]
  rw [if_neg (by decide), if_true, dif_neg hsome]
  congr 1

/-- What is packed in its form is unpacked again. -/
theorem unpack_pack {m : ℕ} {e : ℤ} (s : Sign) (h : Canonical m e) :
    unpack .binary64 (pack .binary64 (unpacked s m e)) = unpacked s m e := by
  obtain ⟨hsmall, hleast, hmost, hfull⟩ := h
  by_cases hzero : m = 0
  · rw [unpacked, dif_pos hzero]
    exact unpack_packedZero
  have hpos : 0 < m := Nat.pos_of_ne_zero hzero
  obtain ⟨n, rfl⟩ : ∃ n : ℕ, e = n - 1075 := ⟨(e + 1075).toNat, by omega⟩
  have hexponent : ((n : ℤ) - 1075 + (1023 : ℕ) + (52 : ℕ)).toNat = n := by omega
  have hfits : ¬ 2 ^ 11 ≤ n + 1 := by omega
  rw [unpacked_of_pos hpos]
  simp only [UnpackedFloat.pack, exponentBias_eq, mantissaBits_eq]
  rw [hexponent, if_neg hfits]
  by_cases hnormal : 2 ^ 52 ≤ m
  · have hlog : m.log2 + 1 = 53 := by rw [(Nat.log2_eq_iff hzero).2 ⟨hnormal, hsmall⟩]
    rw [if_pos hlog, unpack_packComponents_normal s (by omega) (by omega)]
    congr 1
    rw [BitVec.toNat_ofNat]
    omega
  · have hlog : m.log2 + 1 ≠ 53 := by
      have hlt := (Nat.log2_lt hzero).2 (not_le.1 hnormal)
      omega
    rw [if_neg hlog, unpack_packComponents_subnormal s hpos (not_le.1 hnormal)]
    congr 1
    omega

/-! ### Results that need no rounding -/

theorem log2_mul_two_pow {m : ℕ} (h : 0 < m) (k : ℕ) : (m * 2 ^ k).log2 = m.log2 + k := by
  induction k with
  | zero => simp
  | succ k ih =>
    have hpos : m * 2 ^ k ≠ 0 := by positivity
    rw [pow_succ', Nat.mul_left_comm, Nat.log2_two_mul hpos, ih, Nat.add_assoc]

theorem totalExponent_mul_two_pow {m : ℕ} (h : 0 < m) (e : ℤ) (k : ℕ) :
    totalExponent (m * 2 ^ k) (e - k) = totalExponent m e := by
  rw [totalExponent, totalExponent, log2_mul_two_pow h]
  push_cast
  ring

theorem targetExponent_eq {m : ℕ} {e : ℤ} (h : Canonical m e) (hm : 0 < m) :
    Format.binary64.targetExponent (totalExponent m e) = e := by
  obtain ⟨hsmall, hleast, -, hfull⟩ := h
  have hlt := (Nat.log2_lt hm.ne').2 hsmall
  have hmin : Format.binary64.minExponent = -1074 := by decide
  simp only [Format.targetExponent, totalExponent, mantissaBits_eq, hmin]
  rcases hfull with hfull | rfl
  · have hle := (Nat.le_log2 hm.ne').2 hfull
    omega
  · omega

theorem shiftRight_exact (m k : ℕ) :
    (⟨m * 2 ^ k, false, false⟩ : ExtendedMantissa) >>> k = ⟨m, false, false⟩ := by
  induction k generalizing m with
  | zero =>
    rw [pow_zero, Nat.mul_one]
    rfl
  | succ k ih =>
    change ((⟨m * 2 ^ (k + 1), false, false⟩ : ExtendedMantissa) >>> k).shiftRightOne = _
    rw [pow_succ', ← Nat.mul_assoc, ih]
    simp [ExtendedMantissa.shiftRightOne]

/-- Shifting by the zeros at the end of a mantissa comes out even. -/
theorem shiftToTargetExponent_exact {m : ℕ} {e : ℤ} (h : Canonical m e) (hm : 0 < m) (k : ℕ) :
    shiftToTargetExponent .binary64 (m * 2 ^ k) (e - k) .exact = (⟨m, false, false⟩, e) := by
  have hshift : (e - (e - (k : ℤ))).toNat = k := by omega
  rw [shiftToTargetExponent, totalExponent_mul_two_pow hm, targetExponent_eq h hm]
  simp only [shiftToExponent, hshift, ExtendedMantissa.ofMantissaAndAccuracy, shiftRight_exact]
  congr 1
  omega

theorem roundWithAccuracy_exact {m : ℕ} {e : ℤ} (s : Sign) (h : Canonical m e) (hm : 0 < m) (k : ℕ) :
    roundWithAccuracy .binary64 s (m * 2 ^ k) (e - k) .exact = unpacked s m e := by
  have hfinal := shiftToTargetExponent_exact h hm 0
  simp only [pow_zero, Nat.mul_one, Nat.cast_zero, sub_zero] at hfinal
  simp only [roundWithAccuracy, shiftToTargetExponent_exact h hm k, ExtendedMantissa.roundedMantissa,
    ExtendedMantissa.accuracy, Accuracy.roundToNearestEven, hfinal]
  rfl

/-- A number in the form of a double is rounded to itself, however it is written. -/
theorem round_exact {m n : ℕ} {e f : ℤ} (s : Sign) (h : Canonical m e) (hm : 0 < m)
    (heq : (n : ℚ) * 2 ^ f = m * 2 ^ e) : UnpackedFloat.round .binary64 s n f = unpacked s m e := by
  have htwo : (2 : ℚ) ≠ 0 := two_ne_zero
  -- Written too high, the mantissa is shifted up before it is rounded; written too low, it ends in zeros.
  rcases le_total e f with hle | hle
  · obtain ⟨k, rfl⟩ : ∃ k : ℕ, f = e + k := ⟨(f - e).toNat, by omega⟩
    have hn : (n : ℚ) * 2 ^ k = m := mul_right_cancel₀ (zpow_ne_zero e htwo) (by
      rw [← heq, zpow_add₀ htwo, zpow_natCast]
      ring)
    obtain rfl : n * 2 ^ k = m := by exact_mod_cast hn
    have htotal : totalExponent n (e + k) = totalExponent (n * 2 ^ k) e := by
      rw [← totalExponent_mul_two_pow (Nat.pos_of_mul_pos_right hm) (e + k) k, add_sub_cancel_right]
    have hshift : (e + k - e : ℤ).toNat = k := by omega
    have hround := roundWithAccuracy_exact s h hm 0
    simp only [pow_zero, Nat.mul_one, Nat.cast_zero, sub_zero] at hround
    simp only [UnpackedFloat.round, htotal, targetExponent_eq h hm, decreaseExponent, hshift,
      Nat.shiftLeft_eq, add_sub_cancel_right, hround]
  · obtain ⟨k, rfl⟩ : ∃ k : ℕ, f = e - k := ⟨(e - f).toNat, by omega⟩
    have hn : (n : ℚ) = m * 2 ^ k := mul_right_cancel₀ (zpow_ne_zero (e - k) htwo) (by
      rw [heq, mul_assoc, ← zpow_natCast, ← zpow_add₀ htwo, add_sub_cancel])
    obtain rfl : n = m * 2 ^ k := by exact_mod_cast hn
    have hshift : (e - k - e : ℤ).toNat = 0 := by omega
    simp only [UnpackedFloat.round, totalExponent_mul_two_pow hm, targetExponent_eq h hm, decreaseExponent,
      hshift, Nat.shiftLeft_zero, Nat.cast_zero, sub_zero, roundWithAccuracy_exact s h hm k]

end CuttingPlane.Binary64

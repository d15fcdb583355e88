import CuttingPlane.Proofs.Exact
import CuttingPlane.Proofs.Forms
import Mathlib.Tactic.FieldSimp

/-!
# The numbers of doubles

Every finite double stands for a number. Comparing two doubles compares their numbers, and an operation
whose exact result is the number of a double returns it without rounding. The roundings to whole numbers
always do.
-/

namespace CuttingPlane.Binary64

open Float.Model Float.Model.UnpackedFloat

/-! ### Numbers -/

/-- The number of this size, under its sign. -/
def signed (negative : Bool) (q : ℚ) : ℚ := if negative then -q else q

@[simp] theorem signed_true (q : ℚ) : signed true q = -q := rfl

@[simp] theorem signed_false (q : ℚ) : signed false q = q := rfl

theorem signed_zero (negative : Bool) : signed negative 0 = 0 := by cases negative <;> simp

theorem signed_sub (negative : Bool) (p q : ℚ) :
    signed negative (p - q) = signed negative p - signed negative q := by
  cases negative
  · rfl
  · simp only [signed_true]
    ring

@[simp] theorem abs_signed (negative : Bool) (q : ℚ) : |signed negative q| = |q| := by
  cases negative <;> simp

/-- The number that finite parts stand for. -/
def Parts.value? : Parts → Option ℚ
  | .finite negative m e => some (signed negative (m * 2 ^ e))
  | _ => none

/-- The number that a finite double stands for. -/
def value? (x : Float) : Option ℚ := (parts x).value?

/-- Numbers that a double can stand for. -/
def Representable (q : ℚ) : Prop := ∃ m e, Canonical m e ∧ |q| = m * 2 ^ e

/-- A double is a NaN, an infinity, or finite. -/
theorem unpack_cases (x : Float) : x.toModel.unpack = .notANumber ∨
    (∃ s, x.toModel.unpack = .infinity s) ∨ ∃ a, value? x = some a := by
  cases hx : x.toModel.unpack with
  | notANumber => exact .inl rfl
  | infinity s => exact .inr (.inl ⟨s, rfl⟩)
  | zero s => exact .inr (.inr ⟨signed (isMinus s) 0, by simp [value?, parts, hx, Parts.value?]⟩)
  | finite s m e hm =>
    exact .inr (.inr ⟨signed (isMinus s) (m * 2 ^ e), by simp [value?, parts, hx, Parts.value?]⟩)

theorem parts_ofModel {m : ℕ} {e : ℤ} (s : Sign) (h : Canonical m e) :
    parts (.ofModel (.pack (unpacked s m e))) = .finite (isMinus s) m e := by
  have hunpack : (Float.ofModel (.pack (unpacked s m e))).toModel.unpack = unpacked s m e :=
    unpack_pack s h
  rw [parts, hunpack]
  by_cases hzero : m = 0
  · have he : e = -1074 := h.full.resolve_left (by omega)
    rw [unpacked, dif_pos hzero, hzero, he]
  · rw [unpacked, dif_neg hzero]

theorem canonical_of_parts {x : Float} {negative : Bool} {m : ℕ} {e : ℤ}
    (h : parts x = .finite negative m e) : Canonical m e := by
  unfold parts at h
  split at h
  · cases h
  · cases h
  · cases h
    exact canonical_zero
  · rename_i hunpack
    cases h
    exact canonical_of_unpack hunpack

theorem parts_of_value? {x : Float} {a : ℚ} (h : value? x = some a) :
    ∃ negative m e, parts x = .finite negative m e ∧ a = signed negative (m * 2 ^ e) := by
  unfold value? at h
  cases hparts : parts x with
  | finite negative m e =>
    rw [hparts] at h
    exact ⟨negative, m, e, rfl, (Option.some.inj h).symm⟩
  | _ =>
    rw [hparts] at h
    cases h

theorem form_of_nonneg {x : Float} {a : ℚ} (h : value? x = some a) (ha : 0 ≤ a) :
    ∃ m e, Canonical m e ∧ a = m * 2 ^ e := by
  obtain ⟨negative, m, e, hparts, rfl⟩ := parts_of_value? h
  refine ⟨m, e, canonical_of_parts hparts, ?_⟩
  rw [← abs_of_nonneg ha, abs_signed, abs_of_nonneg (by positivity)]

theorem unpack_of_parts {x : Float} {negative : Bool} {m : ℕ} {e : ℤ} (h : parts x = .finite negative m e) :
    ∃ s, isMinus s = negative ∧ x.toModel.unpack = unpacked s m e := by
  unfold parts at h
  split at h
  · cases h
  · cases h
  · rename_i s hunpack
    cases h
    exact ⟨s, rfl, hunpack⟩
  · rename_i s m e hm hunpack
    cases h
    exact ⟨s, rfl, hunpack.trans (unpacked_of_pos hm).symm⟩

theorem value?_ofModel {m : ℕ} {e : ℤ} (s : Sign) (h : Canonical m e) :
    value? (.ofModel (.pack (unpacked s m e))) = some (signed (isMinus s) (m * 2 ^ e)) := by
  rw [value?, parts_ofModel s h]
  rfl

theorem unpack_of_value? {x : Float} {a : ℚ} (h : value? x = some a) : ∃ s m e, Canonical m e ∧
    x.toModel.unpack = unpacked s m e ∧ a = signed (isMinus s) (m * 2 ^ e) := by
  obtain ⟨negative, m, e, hparts, rfl⟩ := parts_of_value? h
  obtain ⟨s, rfl, hunpack⟩ := unpack_of_parts hparts
  exact ⟨s, m, e, canonical_of_parts hparts, hunpack, rfl⟩

/-! ### Comparisons -/

theorem lt_of_exponent_lt {m n : ℕ} {e f : ℤ} (h : Canonical m e) (h' : Canonical n f) (hlt : e < f) :
    (m : ℚ) * 2 ^ e < n * 2 ^ f := by
  have hleast := h.least
  have hfull : 2 ^ 52 ≤ n := h'.full.resolve_right (by omega)
  have hsmall : (m : ℚ) < 2 ^ 53 := by exact_mod_cast h.small
  have hbig : (2 : ℚ) ^ 52 ≤ n := by exact_mod_cast hfull
  have hpow : (2 : ℚ) ^ (e + 1) ≤ 2 ^ f := zpow_le_zpow_right₀ one_le_two (by omega)
  calc (m : ℚ) * 2 ^ e < 2 ^ 53 * 2 ^ e := mul_lt_mul_of_pos_right hsmall (by positivity)
    _ = 2 ^ 52 * 2 ^ (e + 1) := by
      rw [zpow_add_one₀ two_ne_zero]
      ring
    _ ≤ n * 2 ^ f := mul_le_mul hbig hpow (by positivity) (by positivity)

/-- Forms compare by their exponents first. -/
theorem compare_forms {m n : ℕ} {e f : ℤ} (h : Canonical m e) (h' : Canonical n f) :
    (compare e f).then (compare m n) = compare ((m : ℚ) * 2 ^ e) (n * 2 ^ f) := by
  rcases lt_trichotomy e f with hlt | rfl | hlt
  · rw [compare_lt_iff_lt.2 hlt, compare_lt_iff_lt.2 (lt_of_exponent_lt h h' hlt)]
    rfl
  · have hpos : (0 : ℚ) < 2 ^ e := by positivity
    rw [compare_eq_iff_eq.2 rfl, Ordering.eq_then]
    rcases lt_trichotomy m n with hmn | rfl | hmn
    · have hcast : (m : ℚ) < n := by exact_mod_cast hmn
      rw [compare_lt_iff_lt.2 hmn, compare_lt_iff_lt.2 (mul_lt_mul_of_pos_right hcast hpos)]
    · rw [compare_eq_iff_eq.2 rfl, compare_eq_iff_eq.2 rfl]
    · have hcast : (n : ℚ) < m := by exact_mod_cast hmn
      rw [compare_gt_iff_gt.2 hmn, compare_gt_iff_gt.2 (mul_lt_mul_of_pos_right hcast hpos)]
  · rw [compare_gt_iff_gt.2 hlt, compare_gt_iff_gt.2 (lt_of_exponent_lt h' h hlt)]
    rfl

theorem compare_neg_neg (p q : ℚ) : compare (-p) (-q) = (compare p q).swap := by
  rcases lt_trichotomy p q with hlt | rfl | hlt
  · rw [compare_lt_iff_lt.2 hlt, compare_gt_iff_gt.2 (neg_lt_neg hlt), Ordering.swap_lt]
  · rw [compare_eq_iff_eq.2 rfl, compare_eq_iff_eq.2 rfl, Ordering.swap_eq]
  · rw [compare_gt_iff_gt.2 hlt, compare_lt_iff_lt.2 (neg_lt_neg hlt), Ordering.swap_gt]

theorem compare_unpacked {m n : ℕ} {e f : ℤ} (s s' : Sign) (h : Canonical m e) (h' : Canonical n f) :
    (unpacked s m e).compare (unpacked s' n f) =
      some (compare (signed (isMinus s) (m * 2 ^ e)) (signed (isMinus s') (n * 2 ^ f))) := by
  have hforms := compare_forms h h'
  -- Two doubles of one sign compare by their forms; otherwise zero lies between them.
  rcases Nat.eq_zero_or_pos m with rfl | hm <;> rcases Nat.eq_zero_or_pos n with rfl | hn
  · cases s <;> cases s' <;> simp [unpacked, UnpackedFloat.compare, isMinus]
  · have hpos : (0 : ℚ) < n * 2 ^ f := by positivity
    have hup := compare_lt_iff_lt.2 hpos
    have hdown := compare_gt_iff_gt.2 (neg_neg_of_pos hpos)
    rw [unpacked_of_pos hn]
    cases s <;> cases s' <;> simp [unpacked, UnpackedFloat.compare, isMinus, hup, hdown]
  · have hpos : (0 : ℚ) < m * 2 ^ e := by positivity
    have hup := compare_gt_iff_gt.2 hpos
    have hdown := compare_lt_iff_lt.2 (neg_neg_of_pos hpos)
    rw [unpacked_of_pos hm]
    cases s <;> cases s' <;> simp [unpacked, UnpackedFloat.compare, isMinus, hup, hdown]
  · have hpos : (0 : ℚ) < m * 2 ^ e := by positivity
    have hpos' : (0 : ℚ) < n * 2 ^ f := by positivity
    have hup := compare_gt_iff_gt.2 ((neg_neg_of_pos hpos').trans hpos)
    have hdown := compare_lt_iff_lt.2 ((neg_neg_of_pos hpos).trans hpos')
    rw [unpacked_of_pos hm, unpacked_of_pos hn]
    cases s <;> cases s' <;>
      simp only [UnpackedFloat.compare, hforms, isMinus, signed_false, signed_true, compare_neg_neg, hup, hdown]

section

variable {x y : Float} {a b : ℚ}

theorem compare_eq (hx : value? x = some a) (hy : value? y = some b) :
    x.toModel.unpack.compare y.toModel.unpack = some (compare a b) := by
  obtain ⟨s, m, e, hform, hunpack, rfl⟩ := unpack_of_value? hx
  obtain ⟨s', n, f, hform', hunpack', rfl⟩ := unpack_of_value? hy
  rw [hunpack, hunpack', compare_unpacked s s' hform hform']

theorem lt_iff (hx : value? x = some a) (hy : value? y = some b) : x < y ↔ a < b := by
  have hlt : x < y ↔ x.toModel.unpack.lt y.toModel.unpack = true := decide_eq_true_iff
  rw [hlt, UnpackedFloat.lt, compare_eq hx hy]
  simp [compare_lt_iff_lt]

theorem le_iff (hx : value? x = some a) (hy : value? y = some b) : x ≤ y ↔ a ≤ b := by
  have hle : x ≤ y ↔ x.toModel.unpack.le y.toModel.unpack = true := decide_eq_true_iff
  rw [hle, UnpackedFloat.le, compare_eq hx hy, Option.any_some, Ordering.isLE_iff_ne_gt,
    compare_gt_iff_gt, not_lt]

theorem beq_iff (hx : value? x = some a) (hy : value? y = some b) : (x == y) = true ↔ a = b := by
  have hbeq : (x == y) = x.toModel.unpack.beq y.toModel.unpack := rfl
  rw [hbeq, UnpackedFloat.beq, compare_eq hx hy]
  simp

/-! ### Exact results -/

theorem isMinus_neg (s : Sign) : isMinus (-s) = !isMinus s := by cases s <;> rfl

theorem signed_not (negative : Bool) (q : ℚ) : signed (!negative) q = -signed negative q := by
  cases negative <;> simp

theorem value?_neg (hx : value? x = some a) : value? (-x) = some (-a) := by
  obtain ⟨s, m, e, hform, hunpack, rfl⟩ := unpack_of_value? hx
  have hneg : (unpacked s m e).neg = unpacked (-s) m e := by
    unfold unpacked
    split <;> rfl
  change value? (.ofModel (.pack x.toModel.unpack.neg)) = _
  rw [hunpack, hneg, value?_ofModel _ hform, isMinus_neg, signed_not]

theorem round_zero (s : Sign) (e : ℤ) : UnpackedFloat.round .binary64 s 0 e = .zero s := by
  have hshift (k : ℕ) : (⟨0, false, false⟩ : ExtendedMantissa) >>> k = ⟨0, false, false⟩ := by
    simpa using shiftRight_exact 0 k
  simp only [UnpackedFloat.round, decreaseExponent, Nat.zero_shiftLeft, roundWithAccuracy,
    shiftToTargetExponent, shiftToExponent, ExtendedMantissa.ofMantissaAndAccuracy, hshift,
    ExtendedMantissa.roundedMantissa, ExtendedMantissa.accuracy, Accuracy.roundToNearestEven]
  rfl

theorem value?_ofModel_zero (s : Sign) : value? (.ofModel (.pack (.zero s))) = some 0 := by
  have hparts : parts (.ofModel (.pack (.zero s))) = .finite (isMinus s) 0 (-1074) := by cases s <;> rfl
  rw [value?, hparts]
  simp [Parts.value?, signed_zero]

theorem value?_round {n : ℕ} {e : ℤ} (s : Sign) (h : Representable (n * 2 ^ e)) :
    value? (.ofModel (.pack (.round .binary64 s n e))) = some (signed (isMinus s) (n * 2 ^ e)) := by
  obtain ⟨m, f, hform, heq⟩ := h
  rw [abs_of_nonneg (by positivity)] at heq
  rcases Nat.eq_zero_or_pos n with rfl | hn
  · rw [round_zero, value?_ofModel_zero, Nat.cast_zero, zero_mul, signed_zero]
  · have hm : 0 < m := by
      have hpos : (0 : ℚ) < n * 2 ^ e := by positivity
      by_contra hzero
      obtain rfl : m = 0 := by omega
      simp [heq] at hpos
    rw [round_exact s hform hm heq, value?_ofModel s hform, heq]

/-- The sign of a whole number; zero counts as positive. -/
def signOf (n : ℤ) : Sign := if n < 0 then .negative else .positive

theorem signed_natAbs (n : ℤ) (q : ℚ) : signed (isMinus (signOf n)) (n.natAbs * q) = n * q := by
  rcases lt_or_ge n 0 with h | h
  · rw [signOf, if_pos h, Nat.cast_natAbs, abs_of_neg h]
    simp [isMinus]
  · rw [signOf, if_neg h.not_gt, Nat.cast_natAbs, abs_of_nonneg h]
    rfl

theorem normalize_of_ne {n : ℤ} (hn : n ≠ 0) (e : ℤ) (s : Sign) :
    UnpackedFloat.normalize .binary64 n e s = UnpackedFloat.round .binary64 (signOf n) n.natAbs e := by
  rcases lt_or_gt_of_ne hn with h | h
  · rw [UnpackedFloat.normalize, compare_lt_iff_lt.2 h, signOf, if_pos h, show (-n).toNat = n.natAbs by omega]
  · rw [UnpackedFloat.normalize, compare_gt_iff_gt.2 h, signOf, if_neg h.not_gt,
      show n.toNat = n.natAbs by omega]

theorem normalize_zero (e : ℤ) (s : Sign) : UnpackedFloat.normalize .binary64 0 e s = .zero s := rfl

theorem value?_normalize {n e : ℤ} (s : Sign) (h : Representable ((n : ℚ) * 2 ^ e)) :
    value? (.ofModel (.pack (UnpackedFloat.normalize .binary64 n e s))) = some ((n : ℚ) * 2 ^ e) := by
  by_cases hn : n = 0
  · rw [hn, normalize_zero, value?_ofModel_zero, Int.cast_zero, zero_mul]
  · have hsize : Representable (n.natAbs * 2 ^ e) := by
      rwa [Representable, abs_mul, Nat.abs_cast, Nat.cast_natAbs, Int.cast_abs, ← abs_mul]
    rw [normalize_of_ne hn, value?_round _ hsize, signed_natAbs]

theorem apply_decreaseExponent (s : Sign) (m : ℕ) {e t : ℤ} (h : t ≤ e) :
    ((s.apply (decreaseExponent m e t).1 : ℤ) : ℚ) * 2 ^ t = signed (isMinus s) (m * 2 ^ e) := by
  obtain ⟨k, rfl⟩ : ∃ k : ℕ, e = t + k := ⟨(e - t).toNat, by omega⟩
  rw [zpow_add₀ two_ne_zero, zpow_natCast]
  cases s <;> simp [decreaseExponent, Sign.apply, isMinus, Nat.shiftLeft_eq] <;> ring

/-- The difference of two numbers that are not zero is found exactly and then rounded. -/
theorem sub_unpacked {m n : ℕ} {e f : ℤ} (s s' : Sign) (hm : 0 < m) (hn : 0 < n) : ∃ d g : ℤ,
    (d : ℚ) * 2 ^ g = signed (isMinus s) (m * 2 ^ e) - signed (isMinus s') (n * 2 ^ f) ∧
      UnpackedFloat.sub .binary64 (unpacked s m e) (unpacked s' n f) =
        UnpackedFloat.normalize .binary64 d g .positive := by
  refine ⟨s.apply (decreaseExponent m e (min e f)).1 - s'.apply (decreaseExponent n f (min e f)).1,
    min e f, ?_, ?_⟩
  · rw [Int.cast_sub, sub_mul, apply_decreaseExponent s m (min_le_left e f),
      apply_decreaseExponent s' n (min_le_right e f)]
  · rw [unpacked_of_pos hm, unpacked_of_pos hn]
    rfl

/-- Finite doubles are subtracted without rounding if their difference is a double. -/
theorem value?_sub (hx : value? x = some a) (hy : value? y = some b) (h : Representable (a - b)) :
    value? (x - y) = some (a - b) := by
  obtain ⟨s, m, e, hform, hunpack, rfl⟩ := unpack_of_value? hx
  obtain ⟨s', n, f, hform', hunpack', rfl⟩ := unpack_of_value? hy
  change value? (.ofModel (.pack (UnpackedFloat.sub .binary64 x.toModel.unpack y.toModel.unpack))) = _
  have hsigned (s : Sign) (e : ℤ) : signed (isMinus s) ((0 : ℕ) * 2 ^ e) = 0 := by
    rw [Nat.cast_zero, zero_mul, signed_zero]
  rw [hunpack, hunpack']
  rcases Nat.eq_zero_or_pos m with rfl | hm <;> rcases Nat.eq_zero_or_pos n with rfl | hn
  · simp only [unpacked, UnpackedFloat.sub, hsigned, sub_zero, dif_pos]
    split <;> exact value?_ofModel_zero _
  · have hresult : UnpackedFloat.sub .binary64 (unpacked s 0 e) (unpacked s' n f) = unpacked (-s') n f := by
      rw [unpacked_of_pos hn, unpacked_of_pos hn]
      rfl
    rw [hresult, value?_ofModel _ hform', hsigned, zero_sub, isMinus_neg, signed_not]
  · have hresult : UnpackedFloat.sub .binary64 (unpacked s m e) (unpacked s' 0 f) = unpacked s m e := by
      rw [unpacked_of_pos hm]
      rfl
    rw [hresult, value?_ofModel _ hform, hsigned, sub_zero]
  · obtain ⟨d, g, hdifference, hresult⟩ := sub_unpacked (e := e) (f := f) s s' hm hn
    rw [hresult, ← hdifference]
    exact value?_normalize .positive (hdifference ▸ h)

theorem representable_zero : Representable 0 := ⟨0, -1074, canonical_zero, by simp⟩

theorem representable_of_abs {q : ℚ} {n : ℕ} {e : ℤ} (hq : |q| = n * 2 ^ e) (hn : n < 2 ^ 53)
    (hleast : -1074 ≤ e) (hmost : e ≤ 971) : Representable q := by
  rcases Nat.eq_zero_or_pos n with rfl | hpos
  · obtain rfl : q = 0 := by simpa using hq
    exact representable_zero
  have hlog := (Nat.log2_lt hpos.ne').2 hn
  -- The mantissa is shifted up as far as its size and the least exponent allow.
  obtain ⟨k, hk⟩ : ∃ k, k = min (52 - n.log2) (e + 1074).toNat := ⟨_, rfl⟩
  have hshifted := log2_mul_two_pow hpos k
  have hne : n * 2 ^ k ≠ 0 := by positivity
  refine ⟨n * 2 ^ k, e - k, ⟨(Nat.log2_lt hne).1 (by omega), by omega, by omega, ?_⟩, ?_⟩
  · rcases le_total (52 - n.log2) (e + 1074).toNat with hle | hle
    · exact .inl ((Nat.le_log2 hne).1 (by omega))
    · exact .inr (by omega)
  · rw [hq, zpow_sub₀ two_ne_zero, zpow_natCast]
    push_cast
    field_simp

theorem value?_ofWhole (negative : Bool) {n : ℕ} (hn : n < 2 ^ 53) :
    value? (ofWhole negative n) = some (signed negative n) := by
  have hrepresentable : Representable ((n : ℚ) * 2 ^ (0 : ℤ)) :=
    representable_of_abs (abs_of_nonneg (by positivity)) hn (by norm_num) (by norm_num)
  cases negative
  · simpa [ofWhole, isMinus] using value?_round .positive hrepresentable
  · simpa [ofWhole, isMinus] using value?_round .negative hrepresentable

/-! ### Roundings to whole numbers -/

theorem floor_div (m unit : ℕ) : ⌊(m : ℚ) / unit⌋ = (m / unit : ℕ) := by
  rw [← Int.cast_natCast m, Rat.floor_intCast_div_natCast, Int.natCast_div]

theorem floor_neg_div (m : ℕ) {unit : ℕ} (h : 0 < unit) :
    ⌊-((m : ℚ) / unit)⌋ = -(((m + unit - 1) / unit : ℕ) : ℤ) := by
  have hunit : (0 : ℚ) < unit := by exact_mod_cast h
  have hsplit := Nat.div_add_mod (m + unit - 1) unit
  have hmod := Nat.mod_lt (m + unit - 1) h
  generalize (m + unit - 1) / unit = q at hsplit ⊢
  have hupper : (m : ℚ) ≤ q * unit := by
    rw [Nat.mul_comm] at hsplit
    exact_mod_cast (show m ≤ q * unit by omega)
  have hlower : (q : ℚ) * unit < m + unit := by
    rw [Nat.mul_comm] at hsplit
    exact_mod_cast (show q * unit < m + unit by omega)
  rw [Int.floor_eq_iff]
  push_cast
  constructor
  · rw [neg_le_neg_iff, div_le_iff₀ hunit]
    exact hupper
  · rw [neg_lt, neg_add', neg_neg, lt_div_iff₀ hunit, sub_one_mul]
    linarith

theorem floor_div_add_half (m : ℕ) {unit : ℕ} (h : 0 < unit) :
    ⌊(m : ℚ) / unit + 1 / 2⌋ = ((2 * m + unit) / (2 * unit) : ℕ) := by
  have hunit : (unit : ℚ) ≠ 0 := by exact_mod_cast h.ne'
  rw [← floor_div]
  congr 1
  push_cast
  field_simp

theorem floor_add_half (n : ℤ) : ⌊(n : ℚ) + 1 / 2⌋ = n := by
  rw [Int.floor_intCast_add]
  norm_num

theorem round_signed (negative : Bool) {q : ℚ} (hq : 0 ≤ q) :
    Scalar.round (signed negative q) = signed negative (⌊q + 1 / 2⌋ : ℤ) := by
  cases negative with
  | false => exact round_of_nonneg hq
  | true =>
    rcases hq.eq_or_lt with rfl | hpos
    · rw [signed_true, neg_zero, round_of_nonneg le_rfl]
      norm_num
    · rw [signed_true, signed_true, round_of_neg (neg_neg_of_pos hpos), neg_neg]

/-- What a double stands for is whole or a fraction over a power of two, by its exponent. -/
theorem whole_or_fraction (m : ℕ) (e : ℤ) : (0 ≤ e ∧ ∃ n : ℤ, (m : ℚ) * 2 ^ e = n) ∨
    ∃ k : ℕ, 0 < k ∧ e = -k ∧ (m : ℚ) * 2 ^ e = m / (2 ^ k : ℕ) := by
  rcases le_or_gt 0 e with he | he
  · obtain ⟨k, rfl⟩ := Int.eq_ofNat_of_zero_le he
    refine .inl ⟨he, m * 2 ^ k, ?_⟩
    push_cast
    rw [zpow_natCast]
  · obtain ⟨k, rfl⟩ : ∃ k : ℕ, e = -k := ⟨(-e).toNat, by omega⟩
    refine .inr ⟨k, by omega, rfl, ?_⟩
    rw [zpow_neg, zpow_natCast, div_eq_mul_inv]
    push_cast
    rfl

theorem value?_floor (hx : value? x = some a) : value? (floor x) = some (⌊a⌋ : ℚ) := by
  obtain ⟨negative, m, e, hparts, rfl⟩ := parts_of_value? hx
  have hsmall := (canonical_of_parts hparts).small
  rcases whole_or_fraction m e with ⟨he, n, hn⟩ | ⟨k, hk, rfl, hfraction⟩
  · have hfloor : floor x = x := by simp [floor, hparts, he]
    obtain ⟨z, hz⟩ : ∃ z : ℤ, signed negative n = z := by
      cases negative
      · exact ⟨n, rfl⟩
      · exact ⟨-n, by simp⟩
    rw [hfloor, hx, hn, hz, Int.floor_intCast]
  · have hneg : ¬ (0 : ℤ) ≤ -k := by omega
    have hunit : 0 < 2 ^ k := by positivity
    simp only [floor, hparts, if_neg hneg, neg_neg, Int.toNat_natCast, Nat.pow_eq, hfraction]
    cases negative with
    | false =>
      have hlt : m / 2 ^ k < 2 ^ 53 := (Nat.div_le_self _ _).trans_lt hsmall
      simp only [Bool.false_eq_true, if_false, signed_false, floor_div]
      exact value?_ofWhole false hlt
    | true =>
      have hlt : (m + 2 ^ k - 1) / 2 ^ k < m + 1 := by
        have hle := Nat.le_mul_of_pos_right m hunit
        rw [Nat.div_lt_iff_lt_mul hunit, Nat.add_one_mul m]
        omega
      simp only [if_true, signed_true, floor_neg_div m hunit, Int.cast_neg, Int.cast_natCast]
      exact value?_ofWhole true (by omega)

theorem value?_nearest (hx : value? x = some a) : value? (round x) = some (Scalar.round a) := by
  obtain ⟨negative, m, e, hparts, rfl⟩ := parts_of_value? hx
  have hsmall := (canonical_of_parts hparts).small
  rw [round_signed negative (by positivity)]
  rcases whole_or_fraction m e with ⟨he, n, hn⟩ | ⟨k, hk, rfl, hfraction⟩
  · have hround : round x = x := by simp [round, hparts, he]
    rw [hround, hx, hn, floor_add_half]
  · have hneg : ¬ (0 : ℤ) ≤ -k := by omega
    have hunit : 0 < 2 ^ k := by positivity
    have hlt : (2 * m + 2 ^ k) / (2 * 2 ^ k) < m + 1 := by
      have hle := Nat.le_mul_of_pos_right (2 * m) hunit
      have hexpand : (m + 1) * (2 * 2 ^ k) = 2 * m * 2 ^ k + 2 * 2 ^ k := by ring
      rw [Nat.div_lt_iff_lt_mul (by positivity), hexpand]
      omega
    simp only [round, hparts, if_neg hneg, neg_neg, Int.toNat_natCast, Nat.pow_eq, hfraction,
      floor_div_add_half m hunit, Int.cast_natCast]
    exact value?_ofWhole negative (by omega)

end

end CuttingPlane.Binary64

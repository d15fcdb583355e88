import CuttingPlane.Proofs.Doubles

/-!
# Snapped doubles

Snapping a finite double makes no rounding error: it is what snapping its number comes to. The test for a
fractional part is rounded, though, and at the usual tolerance it lets one number pass that is not snapped,
the double just below one minus the tolerance. Infinity and NaN pass as well and stay as they are.
-/

namespace CuttingPlane.Binary64

open Float.Model

variable {x ε : Float} {a b : ℚ}

/-! ### Snapping is exact -/

theorem value?_zero : value? (0 : Float) = some 0 := by
  have hparts : parts 0 = .finite false 0 (-1074) := rfl
  rw [value?, hparts]
  simp [Parts.value?]

theorem value?_abs (hx : value? x = some a) : value? (Scalar.abs x) = some |a| := by
  have hlt : x < 0 ↔ a < 0 := lt_iff hx value?_zero
  rw [← abs_rat]
  unfold Scalar.abs
  by_cases h : x < 0
  · rw [if_pos (show x < 0 from h), if_pos (show a < 0 from hlt.1 h)]
    exact value?_neg hx
  · rw [if_neg (show ¬ x < 0 from h), if_neg (show ¬ a < 0 from fun ha => h (hlt.2 ha))]
    exact hx

theorem exists_scaled (hx : value? x = some a) :
    ∃ z e : ℤ, z.natAbs < 2 ^ 53 ∧ -1074 ≤ e ∧ e ≤ 971 ∧ a = z * 2 ^ e := by
  obtain ⟨negative, m, e, hparts, rfl⟩ := parts_of_value? hx
  obtain ⟨hsmall, hleast, hmost, -⟩ := canonical_of_parts hparts
  cases negative
  · exact ⟨m, e, by omega, hleast, hmost, by simp⟩
  · exact ⟨-m, e, by omega, hleast, hmost, by simp⟩

/-- What a double is above the whole number below it is a double too, unless it lies between minus one and
zero. -/
theorem representable_fract (hx : value? x = some a) (h : a ≤ -1 ∨ 0 ≤ a) : Representable (Int.fract a) := by
  obtain ⟨z, e, hsmall, hleast, hmost, rfl⟩ := exists_scaled hx
  rcases le_or_gt 0 e with he | he
  · obtain ⟨k, rfl⟩ := Int.eq_ofNat_of_zero_le he
    have hwhole : (z : ℚ) * 2 ^ (k : ℤ) = (z * 2 ^ k : ℤ) := by
      rw [zpow_natCast]
      push_cast
      rfl
    rw [hwhole, Int.fract_intCast]
    exact representable_zero
  · obtain ⟨k, rfl⟩ : ∃ k : ℕ, e = -k := ⟨(-e).toNat, by omega⟩
    have hunit : (0 : ℚ) < (2 ^ k : ℕ) := by positivity
    have hpos : (0 : ℤ) < (2 ^ k : ℕ) := by positivity
    have hquotient : (z : ℚ) * 2 ^ (-k : ℤ) = z / (2 ^ k : ℕ) := by
      rw [zpow_neg, zpow_natCast, div_eq_mul_inv, Nat.cast_pow, Nat.cast_ofNat]
    have hrest := Int.emod_nonneg z hpos.ne'
    -- The numerator of the part is below the unit, and not above that of the double.
    have hle : z % (2 ^ k : ℕ) ≤ z.natAbs := by
      rw [hquotient, div_le_iff₀ hunit, neg_one_mul, le_div_iff₀ hunit, zero_mul] at h
      rcases h with h | h
      · have hlow : z ≤ -(2 ^ k : ℕ) := by exact_mod_cast h
        have hbelow := Int.emod_lt_of_pos z hpos
        omega
      · have hnonneg : 0 ≤ z := by exact_mod_cast h
        have hsplit := Int.emod_add_mul_ediv z (2 ^ k : ℕ)
        have hwhole := mul_nonneg hpos.le (Int.ediv_nonneg hnonneg hpos.le)
        omega
    have hcast : ((z % (2 ^ k : ℕ)).toNat : ℚ) = (z % (2 ^ k : ℕ) : ℤ) := by
      rw [← Int.cast_natCast (z % (2 ^ k : ℕ)).toNat, Int.toNat_of_nonneg hrest]
    refine representable_of_abs (n := (z % (2 ^ k : ℕ)).toNat) ?_ (by omega) hleast hmost
    rw [abs_of_nonneg (Int.fract_nonneg _), hquotient, Int.fract_div_intCast_eq_div_intCast_mod, hcast,
      zpow_neg, zpow_natCast, div_eq_mul_inv]
    push_cast
    rfl

theorem value?_fract (hx : value? x = some a) (ha : 0 ≤ a) :
    value? (Scalar.fract x) = some (Int.fract a) :=
  value?_sub hx (value?_floor hx) (representable_fract hx (.inr ha))

-- The nearest multiple of `u` to `m` is not farther from it than zero is.
theorem natAbs_sub_nearest_le (m : ℕ) {u : ℕ} (h : 0 < u) :
    ((m : ℤ) - ((2 * m + u) / (2 * u) : ℕ) * u).natAbs ≤ m := by
  have hsplit := Nat.div_add_mod (2 * m + u) (2 * u)
  have hrest := Nat.mod_lt (2 * m + u) (show 0 < 2 * u by omega)
  generalize (2 * m + u) / (2 * u) = r at hsplit ⊢
  obtain ⟨p, hp⟩ : ∃ p, p = r * u := ⟨_, rfl⟩
  have hdouble : 2 * u * r = 2 * p := by
    rw [hp]
    ring
  rcases Nat.eq_zero_or_pos r with rfl | hr
  · simp
  · have hle : u ≤ p := hp ▸ Nat.le_mul_of_pos_left u hr
    rw [← Nat.cast_mul, ← hp]
    omega

/-- How far a finite double is from the nearest whole number is a double too. -/
theorem representable_sub_round (hx : value? x = some a) : Representable (a - Scalar.round a) := by
  obtain ⟨negative, m, e, hparts, rfl⟩ := parts_of_value? hx
  obtain ⟨hsmall, hleast, hmost, -⟩ := canonical_of_parts hparts
  rw [round_signed negative (by positivity), ← signed_sub]
  rcases whole_or_fraction m e with ⟨-, n, hn⟩ | ⟨k, -, rfl, hfraction⟩
  · rw [hn, floor_add_half, sub_self, signed_zero]
    exact representable_zero
  · have hunit : 0 < 2 ^ k := by positivity
    have hle := natAbs_sub_nearest_le m hunit
    rw [hfraction, floor_div_add_half m hunit]
    generalize (2 * m + 2 ^ k) / (2 * 2 ^ k) = r at hle ⊢
    have hdistance : |signed negative ((m : ℚ) / (2 ^ k : ℕ) - (r : ℤ))| =
        ((m : ℤ) - r * (2 ^ k : ℕ)).natAbs * 2 ^ (-k : ℤ) := by
      have hpos : (0 : ℚ) < (2 ^ k : ℕ) := by positivity
      rw [abs_signed, div_sub' hpos.ne', abs_div, abs_of_pos hpos, zpow_neg, zpow_natCast,
        Nat.cast_natAbs, div_eq_mul_inv]
      push_cast
      rw [mul_comm (r : ℚ)]
    exact representable_of_abs hdistance (by omega) hleast hmost

/-- Snapping a double is snapping its number. -/
theorem value?_snap (hx : value? x = some a) (hε : value? ε = some b) :
    value? (snap x ε) = some (snap a b) := by
  have hnearest : value? (Scalar.round x) = some (Scalar.round a) := value?_nearest hx
  have hdistance := value?_abs (value?_sub hx hnearest (representable_sub_round hx))
  have hle : Scalar.abs (x - Scalar.round x) ≤ ε ↔ Scalar.abs (a - Scalar.round a) ≤ b := by
    rw [abs_rat]
    exact le_iff hdistance hε
  rw [snap_eq, snap_eq]
  by_cases h : Scalar.abs (a - Scalar.round a) ≤ b
  · rw [if_pos h, if_pos (hle.2 h), hnearest]
  · rw [if_neg h, if_neg fun hx => h (hle.1 hx), hx]

theorem snap_of_value?_eq_none (hx : value? x = none) (ε : Float) : snap x ε = x := by
  have hround : round x = x := by
    unfold value? at hx
    unfold round
    cases hparts : parts x with
    | finite => rw [hparts] at hx; cases hx
    | _ => rfl
  rw [snap_eq, show Scalar.round x = x from hround, ite_self]

/-! ### The usual tolerance -/

/-- The double is a whole number and not negative. -/
def IsNatural (x : Float) : Prop := ∃ n : ℕ, value? x = some (n : ℚ)

/-- The number of the usual tolerance. -/
def tolerance : ℚ := 4722366482869645 / 2 ^ 72

/-- One minus the usual tolerance, rounded to a double. It is rounded down. -/
def edge : ℚ := 9007190247541737 / 2 ^ 53

theorem value?_defaultEpsilon : value? Options.defaultEpsilon = some tolerance := by
  have hparts : parts Options.defaultEpsilon = .finite false 4722366482869645 (-72) := rfl
  rw [value?, hparts]
  norm_num [Parts.value?, tolerance]

theorem value?_edge : value? (1 - Options.defaultEpsilon) = some edge := by
  have hparts : parts (1 - Options.defaultEpsilon) = .finite false 9007190247541737 (-53) := rfl
  rw [value?, hparts]
  norm_num [Parts.value?, edge]

-- The numerator of the edge is odd, so over fewer than 53 places a fraction passes over it.
theorem edge_succ_le {m k : ℕ} (hm : m < 2 ^ 53) (hne : k = 53 → m ≠ 9007190247541737)
    (h : 9007190247541737 * 2 ^ k ≤ m % 2 ^ k * 2 ^ 53) :
    ∃ d, 53 = k + d ∧ 9007190247541738 ≤ m % 2 ^ k * 2 ^ d := by
  have hrest : m % 2 ^ k ≤ m := Nat.mod_le _ _
  have hplaces : k ≤ 53 := by
    by_contra hk
    have hpow : 2 ^ 54 ≤ 2 ^ k := Nat.pow_le_pow_right (by norm_num) (by omega)
    omega
  obtain ⟨d, hd⟩ : ∃ d, 53 = k + d := ⟨53 - k, by omega⟩
  refine ⟨d, hd, ?_⟩
  have hscaled : 9007190247541737 ≤ m % 2 ^ k * 2 ^ d := by
    rw [hd, pow_add, Nat.mul_comm (2 ^ k), ← Nat.mul_assoc] at h
    exact Nat.le_of_mul_le_mul_right h (by positivity)
  cases d with
  | zero =>
    obtain rfl : k = 53 := by omega
    have hother := hne rfl
    omega
  | succ d =>
    rw [pow_succ, ← Nat.mul_assoc] at hscaled ⊢
    omega

/-- A fractional part from the edge on is at most the tolerance below one, unless the number is the edge. -/
theorem le_fract_of_edge (hx : value? x = some a) (ha : 0 ≤ a) (hne : a ≠ edge)
    (h : edge ≤ Int.fract a) : 1 - tolerance ≤ Int.fract a := by
  obtain ⟨m, e, hform, rfl⟩ := form_of_nonneg hx ha
  rcases whole_or_fraction m e with ⟨-, n, hn⟩ | ⟨k, -, rfl, hfraction⟩
  · rw [hn, Int.fract_intCast] at h
    norm_num [edge] at h
  rw [hfraction] at hne h ⊢
  rw [Int.fract_div_natCast_eq_div_natCast_mod] at h ⊢
  have hunit : (0 : ℚ) < (2 ^ k : ℕ) := by positivity
  have habove : 9007190247541737 * 2 ^ k ≤ m % 2 ^ k * 2 ^ 53 := by
    rw [edge, div_le_div_iff₀ (by positivity) hunit] at h
    exact_mod_cast h
  obtain ⟨d, hd, hnext⟩ := edge_succ_le hform.small (by rintro rfl rfl; norm_num [edge] at hne) habove
  have hcast : (9007190247541738 : ℚ) ≤ (m % 2 ^ k : ℕ) * 2 ^ d := by exact_mod_cast hnext
  calc 1 - tolerance ≤ 9007190247541738 / 2 ^ 53 := by norm_num [tolerance]
    _ ≤ (m % 2 ^ k : ℕ) * 2 ^ d / 2 ^ 53 := by gcongr
    _ = (m % 2 ^ k : ℕ) / (2 ^ k : ℕ) := by
      rw [hd, pow_add, mul_div_mul_right _ _ (by positivity), Nat.cast_pow, Nat.cast_ofNat]

theorem snap_edge : snap edge tolerance = edge := by decide +kernel

theorem edge_ne_natCast (n : ℕ) : edge ≠ n := by
  intro h
  have hpos : (0 : ℚ) < n := h ▸ (by norm_num [edge])
  have hlt : (n : ℚ) < 1 := h ▸ (by norm_num [edge])
  norm_cast at hpos hlt
  omega

/-- A double that passes the test for a fractional part, and is not below zero by more than the tolerance,
is snapped to a natural number unless it is the edge. -/
theorem isNatural_snap (hx : value? x = some a) (hlow : ¬ x < -Options.defaultEpsilon)
    (hpart : ¬ (Options.defaultEpsilon < Scalar.fract x ∧ Scalar.fract x < 1 - Options.defaultEpsilon)) :
    IsNatural (snap x Options.defaultEpsilon) ↔ a ≠ edge := by
  have hε := value?_defaultEpsilon
  have hhalf : tolerance < 1 / 2 := by norm_num [tolerance]
  rw [lt_iff hx (value?_neg hε), not_lt] at hlow
  rw [IsNatural, value?_snap hx hε]
  simp only [Option.some.injEq]
  constructor
  · rintro ⟨n, hn⟩ rfl
    rw [snap_edge] at hn
    exact edge_ne_natCast n hn
  intro hne
  rcases lt_or_ge a 0 with hneg | ha
  · exact ⟨0, by rw [snap_of_neg hneg hhalf hlow, Nat.cast_zero]⟩
  obtain ⟨n, hn⟩ := Int.eq_ofNat_of_zero_le (Int.floor_nonneg.2 ha)
  have hfract := value?_fract hx ha
  rw [lt_iff hε hfract, lt_iff hfract value?_edge, not_and_or, not_lt, not_lt] at hpart
  rcases hpart with hlow | hhigh
  · exact ⟨n, by rw [snap_of_fract_le ha hhalf hlow, hn, Int.cast_natCast]⟩
  · refine ⟨n + 1, ?_⟩
    rw [snap_of_le_fract ha hhalf (le_fract_of_edge hx ha hne hhigh), hn]
    push_cast
    rfl

theorem isFinite_iff : Scalar.isFinite x = true ↔ ∃ a, value? x = some a := by
  have hfinite : Scalar.isFinite x = x.toModel.unpack.isFinite := rfl
  rw [hfinite, value?, parts]
  cases x.toModel.unpack <;> simp [UnpackedFloat.isFinite, Parts.value?]

/-- The double is finite, and it is not the edge. -/
def snaps (x : Float) : Bool := Scalar.isFinite x && !(x == 1 - Options.defaultEpsilon)

/-- Whatever passes the test for a fractional part is snapped to a natural number if it is finite and not
the edge, and only then. -/
theorem isNatural_snap_iff (hlow : ¬ x < -Options.defaultEpsilon)
    (hpart : ¬ (Options.defaultEpsilon < Scalar.fract x ∧ Scalar.fract x < 1 - Options.defaultEpsilon)) :
    IsNatural (snap x Options.defaultEpsilon) ↔ snaps x = true := by
  rw [snaps, Bool.and_eq_true, isFinite_iff, Bool.not_eq_true', Bool.eq_false_iff]
  cases hx : value? x with
  | none =>
    rw [IsNatural, snap_of_value?_eq_none hx, hx]
    simp
  | some a =>
    rw [isNatural_snap hx hlow hpart, ne_eq (x == _), beq_iff hx value?_edge]
    simp

end CuttingPlane.Binary64

import CuttingPlane.Proofs.Faults
import CuttingPlane.Proofs.Reads

/-!
# The first of the best

The ratio test and the search for a fractional part keep a row until a better one comes, so they choose the
first of the best rows. In doubles that takes an order: numbers and infinities are ordered as usual, and a
quotient of finite doubles with a divisor other than zero is never a NaN.
-/

namespace CuttingPlane

/-! ### The order of doubles -/

namespace Binary64

open Float.Model Float.Model.UnpackedFloat

variable {x y z : Float} {a b : ℚ}

/-- The number that parts stand for, an infinity included; nothing for a NaN. -/
def Parts.extended? : Parts → Option (WithBot (WithTop ℚ))
  | .notANumber => none
  | .infinite true => some ⊥
  | .infinite false => some ⊤
  | .finite negative m e => some ((signed negative (m * 2 ^ e) : ℚ) : WithTop ℚ)

/-- The number that a double stands for, an infinity included. -/
def extended? (x : Float) : Option (WithBot (WithTop ℚ)) := (parts x).extended?

theorem extended?_of_notANumber (h : x.toModel.unpack = .notANumber) : extended? x = none := by
  rw [extended?, parts, h]
  rfl

theorem extended?_of_infinity {s : Sign} (h : x.toModel.unpack = .infinity s) :
    extended? x = some (if isMinus s then ⊥ else ⊤) := by
  rw [extended?, parts, h]
  cases s <;> rfl

theorem extended?_of_value? (h : value? x = some a) : extended? x = some ((a : WithTop ℚ) : WithBot (WithTop ℚ)) := by
  obtain ⟨negative, m, e, hparts, rfl⟩ := parts_of_value? h
  rw [extended?, hparts]
  rfl

theorem exists_extended? (h : x.toModel.unpack ≠ .notANumber) : ∃ p, extended? x = some p := by
  rcases unpack_cases x with hx | ⟨s, hx⟩ | ⟨a, hx⟩
  · exact absurd hx h
  · exact ⟨_, extended?_of_infinity hx⟩
  · exact ⟨_, extended?_of_value? hx⟩

theorem compare_infinity {s : Sign} (hx : x.toModel.unpack = .infinity s) (hy : value? y = some a) :
    x.toModel.unpack.compare y.toModel.unpack = some (if isMinus s then .lt else .gt) ∧
      y.toModel.unpack.compare x.toModel.unpack = some (if isMinus s then .gt else .lt) := by
  obtain ⟨s', m, e, -, hunpack, -⟩ := unpack_of_value? hy
  rw [hx, hunpack, unpacked]
  cases s <;> split <;> cases s' <;> exact ⟨rfl, rfl⟩

theorem compare_coe (a b : ℚ) :
    compare ((a : WithTop ℚ) : WithBot (WithTop ℚ)) ((b : WithTop ℚ) : WithBot (WithTop ℚ)) = compare a b := by
  rcases lt_trichotomy a b with h | rfl | h
  · rw [compare_lt_iff_lt.2 h, compare_lt_iff_lt]
    exact_mod_cast h
  · rw [compare_eq_iff_eq.2 rfl, compare_eq_iff_eq.2 rfl]
  · rw [compare_gt_iff_gt.2 h, compare_gt_iff_gt]
    exact_mod_cast h

/-- Doubles compare as the numbers they stand for, with the infinities at the ends. -/
theorem compare_extended (x y : Float) : x.toModel.unpack.compare y.toModel.unpack =
    (extended? x).bind fun p => (extended? y).map fun q => compare p q := by
  have hlow (q : ℚ) : compare (⊥ : WithBot (WithTop ℚ)) (q : WithTop ℚ) = .lt :=
    compare_lt_iff_lt.2 (WithBot.bot_lt_coe _)
  have hlow' (q : ℚ) : compare ((q : WithTop ℚ) : WithBot (WithTop ℚ)) ⊥ = .gt :=
    compare_gt_iff_gt.2 (WithBot.bot_lt_coe _)
  have hhigh (q : ℚ) : compare (⊤ : WithBot (WithTop ℚ)) (q : WithTop ℚ) = .gt :=
    compare_gt_iff_gt.2 (WithBot.coe_lt_coe.2 (WithTop.coe_lt_top q))
  have hhigh' (q : ℚ) : compare ((q : WithTop ℚ) : WithBot (WithTop ℚ)) ⊤ = .lt :=
    compare_lt_iff_lt.2 (WithBot.coe_lt_coe.2 (WithTop.coe_lt_top q))
  rcases unpack_cases x with hx | ⟨s, hx⟩ | ⟨a, hx⟩ <;>
    rcases unpack_cases y with hy | ⟨s', hy⟩ | ⟨b, hy⟩
  · rw [extended?_of_notANumber hx, hx]
    rfl
  · rw [extended?_of_notANumber hx, hx]
    rfl
  · rw [extended?_of_notANumber hx, hx]
    rfl
  · rw [extended?_of_notANumber hy, hx, hy]
    cases extended? x <;> rfl
  · rw [extended?_of_infinity hx, extended?_of_infinity hy, hx, hy]
    cases s <;> cases s' <;> decide
  · rw [extended?_of_infinity hx, extended?_of_value? hy, (compare_infinity hx hy).1]
    cases s <;> simp [isMinus, hlow, hhigh]
  · obtain ⟨s, m, e, -, hunpack, -⟩ := unpack_of_value? hx
    rw [extended?_of_notANumber hy, hy, hunpack, unpacked]
    split <;> simp [UnpackedFloat.compare]
  · rw [extended?_of_infinity hy, extended?_of_value? hx, (compare_infinity hy hx).2]
    cases s' <;> simp [isMinus, hlow', hhigh']
  · rw [extended?_of_value? hx, extended?_of_value? hy, compare_eq hx hy, Option.bind_some, Option.map_some,
      compare_coe]

theorem le_iff_extended : x ≤ y ↔ ∃ p q, extended? x = some p ∧ extended? y = some q ∧ p ≤ q := by
  have hle : x ≤ y ↔ (x.toModel.unpack.compare y.toModel.unpack).any (·.isLE) = true := decide_eq_true_iff
  rw [hle, compare_extended]
  cases extended? x <;> cases extended? y <;> simp [Ordering.isLE_iff_ne_gt, compare_gt_iff_gt]

theorem lt_iff_extended : x < y ↔ ∃ p q, extended? x = some p ∧ extended? y = some q ∧ p < q := by
  rw [lt_eq, compare_extended]
  cases extended? x <;> cases extended? y <;> simp [compare_lt_iff_lt]

theorem le_trans_extended (hxy : x ≤ y) (hyz : y ≤ z) : x ≤ z := by
  obtain ⟨p, q, hp, hq, hpq⟩ := le_iff_extended.1 hxy
  obtain ⟨q', r, hq', hr, hqr⟩ := le_iff_extended.1 hyz
  obtain rfl := Option.some.inj (hq.symm.trans hq')
  exact le_iff_extended.2 ⟨p, r, hp, hr, hpq.trans hqr⟩

theorem le_total_extended (hx : x.toModel.unpack ≠ .notANumber) (hy : y.toModel.unpack ≠ .notANumber) :
    x ≤ y ∨ y ≤ x := by
  obtain ⟨p, hp⟩ := exists_extended? hx
  obtain ⟨q, hq⟩ := exists_extended? hy
  rcases le_total p q with h | h
  · exact .inl (le_iff_extended.2 ⟨p, q, hp, hq, h⟩)
  · exact .inr (le_iff_extended.2 ⟨q, p, hq, hp, h⟩)

theorem not_lt_of_le (h : x ≤ y) : ¬ y < x := by
  obtain ⟨p, q, hp, hq, hpq⟩ := le_iff_extended.1 h
  intro hlt
  obtain ⟨q', p', hq', hp', hqp⟩ := lt_iff_extended.1 hlt
  obtain rfl := Option.some.inj (hp.symm.trans hp')
  obtain rfl := Option.some.inj (hq.symm.trans hq')
  exact hpq.not_gt hqp

theorem ne_notANumber_of_lt (h : x < y) : y.toModel.unpack ≠ .notANumber := by
  intro hy
  obtain ⟨p, q, -, hq, -⟩ := lt_iff_extended.1 h
  rw [extended?_of_notANumber hy] at hq
  cases hq

/-! ### Quotients -/

theorem unpack_packComponents_ne {f : BitVec 11} (hf : f ≠ -1#11) (s : Sign) (v : BitVec 52) :
    unpack .binary64 (packComponents .binary64 s f v) ≠ .notANumber := by
  simp only [UnpackedFloat.unpack, unpackMantissa_packComponents, unpackExponent_packComponents]
  rw [if_neg hf]
  split
  · split <;> nofun
  · nofun

/-- What is packed from a sign, a mantissa and an exponent is finite or an infinity. -/
theorem unpack_pack_finite_ne (s : Sign) (m : ℕ) (e : ℤ) (h : 0 < m) :
    unpack .binary64 (pack .binary64 (.finite s m e h)) ≠ .notANumber := by
  simp only [UnpackedFloat.pack]
  split
  · simp [packedInfinity, UnpackedFloat.unpack]
  rename_i hfits
  split
  · exact unpack_packComponents_ne (ofNat_ne (by omega) (show _ ≠ 2047 by omega)) s _
  · exact unpack_packComponents_ne (by decide) s _

theorem unpack_pack_rounded_ne (s : Sign) (m : ℕ) (e : ℤ) (accuracy : Accuracy) :
    unpack .binary64 (pack .binary64 (roundWithAccuracy .binary64 s m e accuracy)) ≠ .notANumber := by
  unfold roundWithAccuracy
  dsimp only
  split
  · change unpack .binary64 (packedZero .binary64 s) ≠ _
    rw [unpack_packedZero]
    nofun
  · exact unpack_pack_finite_ne s _ _ _

/-- A quotient of finite doubles is a number if the divisor is not zero; it may be infinite. -/
theorem unpack_div_ne (hx : value? x = some a) (hy : value? y = some b) (hb : b ≠ 0) :
    (x / y).toModel.unpack ≠ .notANumber := by
  obtain ⟨s, m, e, -, hunpack, -⟩ := unpack_of_value? hx
  obtain ⟨s', n, f, -, hunpack', rfl⟩ := unpack_of_value? hy
  have hn : 0 < n := by
    by_contra hzero
    obtain rfl : n = 0 := by omega
    rw [Nat.cast_zero, zero_mul, signed_zero] at hb
    exact hb rfl
  change unpack .binary64 (pack .binary64 (UnpackedFloat.div .binary64 x.toModel.unpack y.toModel.unpack)) ≠ _
  rw [hunpack, hunpack', unpacked_of_pos hn]
  rcases Nat.eq_zero_or_pos m with rfl | hm
  · change unpack .binary64 (packedZero .binary64 (s / s')) ≠ _
    rw [unpack_packedZero]
    nofun
  · rw [unpacked_of_pos hm]
    exact unpack_pack_rounded_ne (s / s') _ _ _

end Binary64

/-! ### Choices of a tableau -/

namespace Tableau

open Binary64

variable {t : Tableau Float} {ε : Float} {s : ℕ}

/-- On a tableau of finite doubles the ratio test gives the first of the rows that limit a column most, and
nothing exactly if no row does; a row with the largest fractional part is found in the same way. -/
theorem choices_first (hfinite : ∀ i < t.height, ∀ j < t.width, Scalar.isFinite (t.entry i j) = true)
    (hε : 0 ≤ ε) (hs : s < t.width) :
    (t.leavingRowStep s ε).result = .ok (t.leavingRow? s ε) ∧
    (t.leavingRow? s ε = none ↔ ∀ i < t.objectiveRow, ¬ ε < t.entry i s) ∧
    (∀ r, t.leavingRow? s ε = some r ↔ IsLeast (t.tightestRows s ε) r) ∧
    (t.mostFractional? ε = none ↔ ∀ i < t.objectiveRow, ¬ t.IsFractional ε i) ∧
    ∀ label part, t.mostFractional? ε = some (label, part) ↔
      ∃ r, IsLeast (t.mostFractionalRows ε) r ∧ label = t.rowLabel r ∧ part = Scalar.fract (t.rhs r) := by
  have hlast := t.objectiveRow_lt
  have hratio : ∀ i < t.objectiveRow, ε < t.entry i s →
      (t.rhs i / t.entry i s).toModel.unpack ≠ .notANumber := by
    intro i hi hpos
    obtain ⟨a, ha⟩ := isFinite_iff.1 (hfinite i (by omega) 0 t.width_pos)
    obtain ⟨b, hb⟩ := isFinite_iff.1 (hfinite i (by omega) s hs)
    have hzero := separates_of_not_neg (not_lt_of_le hε) (t.entry i s) (.inr hpos)
    refine unpack_div_ne ha hb fun h => ?_
    rw [(beq_iff hb value?_zero).2 h] at hzero
    cases hzero
  refine ⟨?_, leavingRow?_eq_none, leavingRow?_eq_some_iff le_trans_extended ?_, mostFractional?_eq_none,
    mostFractional?_eq_some_iff le_trans_extended ?_⟩
  · rw [leavingRowStep_eq hs]
  · intro i hi hpos j hj hpos'
    exact le_total_extended (hratio i hi hpos) (hratio j hj hpos')
  · intro i hi hpart j hj hpart'
    exact le_total_extended (ne_notANumber_of_lt hpart'.1) (ne_notANumber_of_lt hpart.1)

-- Two rows with the least ratio, which is two, and the same two have the largest fractional part.
theorem choices_first_tied : ∃ t : Tableau Float,
    Tableau.create (.ofRows [3.25, 1, 1.75, 0.875, 2.75, 1.375, 9.5, -1] 4 2) ["x1", "x2", "x3", "F"]
      ["RHS", "x4"] = .ok t ∧
    (∀ i < t.height, ∀ j < t.width, Scalar.isFinite (t.entry i j) = true) ∧ 0 ≤ Options.defaultEpsilon ∧
    1 < t.width ∧ IsLeast (t.tightestRows 1 Options.defaultEpsilon) 1 ∧
    ∃ r, IsLeast (t.mostFractionalRows Options.defaultEpsilon) r ∧ "x2" = t.rowLabel r ∧
      0.75 = Scalar.fract (t.rhs r) := by
  obtain ⟨t, htableau, hfinite, hε, hs, hrow, hpart⟩ : ∃ t : Tableau Float,
      Tableau.create (.ofRows [3.25, 1, 1.75, 0.875, 2.75, 1.375, 9.5, -1] 4 2) ["x1", "x2", "x3", "F"]
        ["RHS", "x4"] = .ok t ∧
      (∀ i < t.height, ∀ j < t.width, Scalar.isFinite (t.entry i j) = true) ∧ 0 ≤ Options.defaultEpsilon ∧
      1 < t.width ∧ t.leavingRow? 1 Options.defaultEpsilon = some 1 ∧
      t.mostFractional? Options.defaultEpsilon = some ("x2", 0.75) := by
    refine ⟨_, rfl, ?_⟩
    decide +kernel
  obtain ⟨-, -, hleaving, -, hlargest⟩ := choices_first hfinite hε hs
  exact ⟨t, htableau, hfinite, hε, hs, (hleaving 1).1 hrow, (hlargest _ _).1 hpart⟩

end Tableau
end CuttingPlane

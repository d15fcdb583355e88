import CuttingPlane.Proofs.Nearest
import CuttingPlane.Proofs.Rounds
import CuttingPlane.Proofs.Snapping

/-!
# The entries of cuts

The fractional part of a double is rounded: it is the double nearest to that of its number. This is below
one but for what lies just below zero, whose part is one. A cut has minus these parts, so its entries are
above minus one exactly if its row has no entry just below zero.
-/

namespace CuttingPlane

namespace Binary64

variable {x : Float} {a q : ℚ}

/-! ### Numbers below one -/

/-- A number below one is a part of a power of two, which the spacing at its size is one over. -/
theorem exists_grid_eq (h0 : 0 < q) (h1 : q < 1) : ∃ k : ℕ, grid q = -(k : ℤ) ∧ 53 ≤ k ∧ (k ≠ 53 → q < 1 / 2) := by
  have hlog : Int.log 2 q < 0 := by
    rw [← Int.lt_zpow_iff_log_lt (by norm_num) h0, zpow_zero]
    exact h1
  have hgrid : grid q = max (Int.log 2 q - 52) (-1074) := by rw [grid, abs_of_pos h0]
  refine ⟨(-grid q).toNat, by omega, by omega, fun hne => ?_⟩
  have hlow : Int.log 2 q < -1 := by omega
  rw [← Int.lt_zpow_iff_log_lt (by norm_num) h0] at hlow
  norm_num at hlow ⊢
  exact hlow

theorem nearest_nonneg (h : 0 ≤ q) : 0 ≤ nearest q := by
  have hround : 0 ≤ roundHalfEven (q / 2 ^ grid q) := le_roundHalfEven (by push_cast; positivity)
  have hcast : (0 : ℚ) ≤ roundHalfEven (q / 2 ^ grid q) := by exact_mod_cast hround
  rw [nearest]
  positivity

/-- A number below one is rounded to one at most, and to one if it is as near as that to it. -/
theorem nearest_le_one (h0 : 0 ≤ q) (h1 : q < 1) : nearest q ≤ 1 ∧ (nearest q = 1 ↔ 1 - 1 / 2 ^ 54 ≤ q) := by
  rcases h0.eq_or_lt with rfl | hpos
  · rw [nearest_zero]
    norm_num
  obtain ⟨k, hgrid, hk, hhalf⟩ := exists_grid_eq hpos h1
  have hunit : (0 : ℚ) < 2 ^ k := by positivity
  have hscaled : q / 2 ^ (-k : ℤ) = q * 2 ^ k := by rw [zpow_neg, zpow_natCast, div_inv_eq_mul]
  have hvalue : nearest q = roundHalfEven (q * 2 ^ k) / 2 ^ k := by
    rw [nearest, hgrid, hscaled, zpow_neg, zpow_natCast, div_eq_mul_inv]
  have hle : roundHalfEven (q * 2 ^ k) ≤ 2 ^ k := roundHalfEven_le (by push_cast; nlinarith)
  refine ⟨?_, ?_⟩
  · rw [hvalue, div_le_one hunit]
    exact_mod_cast hle
  have hone : nearest q = 1 ↔ roundHalfEven (q * 2 ^ k) = 2 ^ k := by
    rw [hvalue, div_eq_one_iff_eq hunit.ne']
    exact_mod_cast Iff.rfl
  have heven : Even (2 ^ k : ℤ) := (even_two).pow_of_ne_zero (by omega)
  have hdistance : |q * 2 ^ k - (2 ^ k : ℤ)| = (1 - q) * 2 ^ k := by
    rw [abs_of_nonpos] <;> push_cast <;> nlinarith
  have hnear : nearest q = 1 ↔ (1 - q) * 2 ^ k ≤ 1 / 2 := by
    rw [hone, roundHalfEven_eq_iff, ← hdistance]
    exact ⟨IsNearestEven.near, fun h => ⟨h, fun _ => heven⟩⟩
  rw [hnear]
  by_cases hfirst : k = 53
  · rw [hfirst]
    constructor <;> intro h <;> linarith
  -- Below a half, neither side holds.
  · have hbelow := hhalf hfirst
    have hpow : (2 : ℚ) ^ 53 ≤ 2 ^ k := pow_le_pow_right₀ one_le_two hk
    constructor <;> intro h
    · nlinarith
    · linarith

/-! ### Fractional parts -/

/-- The double lies below zero by no more than half of the spacing below one. -/
def JustBelowZero (x : Float) : Prop := ∃ a, value? x = some a ∧ -(1 / 2 ^ 54) ≤ a ∧ a < 0

theorem value?_fract_nearest (hx : value? x = some a) :
    value? (Scalar.fract x) = some (nearest (Int.fract a)) := by
  have hlt : |a - ⌊a⌋| < 2 ^ (1023 : ℤ) := by
    rw [Int.self_sub_floor, abs_of_nonneg (Int.fract_nonneg a)]
    exact (Int.fract_lt_one a).trans_le (one_le_zpow₀ one_le_two (by norm_num))
  exact value?_sub_nearest hx (value?_floor hx) (grid_le_of_lt hlt)

theorem value?_neg_one : value? (-1 : Float) = some (-1) := by
  have hparts : parts (-1) = .finite true (2 ^ 52) (-52) := rfl
  rw [value?, hparts]
  norm_num [Parts.value?]

/-- Doubles below one stop short of it by their spacing. -/
theorem le_of_representable (h : Representable q) (h0 : 0 ≤ q) (h1 : q < 1) : q < 1 - 1 / 2 ^ 54 := by
  have hnot : ¬ nearest q = 1 := by
    rw [nearest_of_representable h]
    exact h1.ne
  rwa [(nearest_le_one h0 h1).2, not_le] at hnot

theorem nearest_fract_eq_one_iff (hx : value? x = some a) :
    nearest (Int.fract a) = 1 ↔ -(1 / 2 ^ 54) ≤ a ∧ a < 0 := by
  rw [(nearest_le_one (Int.fract_nonneg a) (Int.fract_lt_one a)).2]
  by_cases hrange : a ≤ -1 ∨ 0 ≤ a
  · have hbelow := le_of_representable (representable_fract hx hrange) (Int.fract_nonneg a) (Int.fract_lt_one a)
    refine iff_of_false hbelow.not_ge fun h => ?_
    rcases hrange with hrange | hrange <;> linarith
  · rw [not_or, not_le, not_le] at hrange
    have hfloor : ⌊a⌋ = -1 := Int.floor_eq_iff.2 ⟨by push_cast; linarith, by push_cast; linarith⟩
    rw [Int.fract, hfloor]
    push_cast
    constructor
    · exact fun h => ⟨by linarith, hrange.2⟩
    · exact fun h => by linarith

end Binary64

namespace Tableau

open Binary64

variable {t : Tableau Float} {ε : Float} {source name : String}

/-- A cut that is added to a tableau of finite doubles has entries from minus one to zero: minus the rounded
fractional parts of its row. An entry is minus one exactly under one of the row that is just below zero, so
all of them are above minus one exactly if there is none. -/
theorem addCut_entries (hfinite : ∀ i < t.height, ∀ j < t.width, Scalar.isFinite (t.entry i j) = true)
    (h : (t.addCut source ε).result = .ok name) : ∃ i, t.rowOf? source = some i ∧
      let u := (t.addCut source ε).tableau
      u.rowLabel t.objectiveRow = name ∧
      (∀ j < t.width, ∃ a c, value? (t.entry i j) = some a ∧ value? (u.entry t.objectiveRow j) = some c ∧
        c = -nearest (Int.fract a) ∧ -1 ≤ c ∧ c ≤ 0 ∧ (c = -1 ↔ JustBelowZero (t.entry i j))) ∧
      ((∀ j < t.width, -1 < u.entry t.objectiveRow j ∧ u.entry t.objectiveRow j ≤ 0) ↔
        ∀ j < t.width, ¬ JustBelowZero (t.entry i j)) := by
  have hlt := t.objectiveRow_lt
  obtain ⟨rfl, i, hrow, hcut⟩ := addCut_eq_of_ok h
  have hi : i < t.height := by
    rw [← length_basic]
    exact (List.findIdx?_eq_some_iff_getElem.1 hrow).1
  refine ⟨i, hrow, ?_⟩
  rw [hcut]
  have hentry : ∀ j < t.width, ∃ a c, value? (t.entry i j) = some a ∧
      value? ((t.addRow t.cutLabel (t.cutRow i)).entry t.objectiveRow j) = some c ∧
      c = -nearest (Int.fract a) ∧ -1 ≤ c ∧ c ≤ 0 ∧ (c = -1 ↔ JustBelowZero (t.entry i j)) := by
    intro j hj
    obtain ⟨a, ha⟩ := isFinite_iff.1 (hfinite i hi j hj)
    have hle := (nearest_le_one (Int.fract_nonneg a) (Int.fract_lt_one a)).1
    have hnonneg := nearest_nonneg (Int.fract_nonneg a)
    refine ⟨a, -nearest (Int.fract a), ha, ?_, rfl, by linarith, by linarith, ?_⟩
    · rw [entry_addRow t _ _ (by omega) hj, if_neg (by omega), if_pos rfl, getD_cutRow i hj]
      exact value?_neg (value?_fract_nearest ha)
    · rw [neg_inj, nearest_fract_eq_one_iff ha, JustBelowZero, ha]
      simp
  refine ⟨?_, hentry, ?_⟩
  · rw [rowLabel_addRow _ (by omega), if_neg (by omega), if_pos rfl]
  · refine forall₂_congr fun j hj => ?_
    obtain ⟨a, c, -, hc, -, hlow, hhigh, hone⟩ := hentry j hj
    rw [lt_iff value?_neg_one hc, le_iff hc value?_zero, ← hone, and_iff_left hhigh]
    exact ⟨fun h => h.ne', fun h => lt_of_le_of_ne hlow (Ne.symm h)⟩

-- Noise just below a whole number keeps its cut above minus one; the entry under it is all but minus one.
theorem addCut_entries_below_three : ∃ t : Tableau Float,
    create (.ofRows [2.5, 2.9999999999999996, 0, 1] 2 2) ["x1", "F"] ["RHS", "x2"] = .ok t ∧
      (∀ i < t.height, ∀ j < t.width, Scalar.isFinite (t.entry i j) = true) ∧
      (t.addCut "x1" Options.defaultEpsilon).result = .ok "cut4" ∧
      ∀ j < 2, -1 < (t.addCut "x1" Options.defaultEpsilon).tableau.entry 1 j ∧
        (t.addCut "x1" Options.defaultEpsilon).tableau.entry 1 j ≤ 0 := by
  obtain ⟨t, htableau, hobjective, hwidth, hfinite, hadded, hrow, hparts⟩ : ∃ t : Tableau Float,
      create (.ofRows [2.5, 2.9999999999999996, 0, 1] 2 2) ["x1", "F"] ["RHS", "x2"] = .ok t ∧
        t.objectiveRow = 1 ∧ t.width = 2 ∧
        (∀ i < t.height, ∀ j < t.width, Scalar.isFinite (t.entry i j) = true) ∧
        (t.addCut "x1" Options.defaultEpsilon).result = .ok "cut4" ∧ t.rowOf? "x1" = some 0 ∧
        ∀ j < t.width, ¬ t.entry 0 j < 0 := by
    refine ⟨_, rfl, ?_⟩
    decide +kernel
  obtain ⟨i, hi, -, -, hentries⟩ := addCut_entries hfinite hadded
  rw [hrow] at hi
  obtain rfl := Option.some.inj hi
  rw [hobjective, hwidth] at hentries
  rw [hwidth] at hparts
  refine ⟨t, htableau, hfinite, hadded, hentries.2 fun j hj h => hparts j hj ?_⟩
  obtain ⟨a, ha, -, hneg⟩ := h
  exact (lt_iff ha value?_zero).2 hneg

-- An entry that noise leaves just below zero: what rounds to its fractional part is one.
theorem addCut_entry_neg_one : ∃ t : Tableau Float,
    create (.ofRows [2.5, -1e-20, 0, 1] 2 2) ["x1", "F"] ["RHS", "x2"] = .ok t ∧
      (∀ i < t.height, ∀ j < t.width, Scalar.isFinite (t.entry i j) = true) ∧
      (t.addCut "x1" Options.defaultEpsilon).result = .ok "cut4" ∧
      (t.addCut "x1" Options.defaultEpsilon).tableau.rowLabel 1 = "cut4" ∧
      ¬ -1 < (t.addCut "x1" Options.defaultEpsilon).tableau.entry 1 1 :=
  ⟨_, rfl, by decide +kernel⟩

end Tableau

end CuttingPlane

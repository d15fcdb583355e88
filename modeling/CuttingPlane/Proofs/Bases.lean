import CuttingPlane.Proofs.Feasible
import CuttingPlane.Proofs.Verdicts

/-!
# Bases

All the labels of a tableau taken as variables, those of the objective and of the right-hand sides
included, its rows are linear relations between them, and no exchange changes these relations. A tableau
is the relations solved for its basic variables, so its entries follow from which variables are basic,
whatever pivots have led there and however the rows and columns are arranged.
-/

namespace CuttingPlane.Tableau

open Finset

/-! ### Entries by label -/

section Coefficients

variable {α : Type} {t u : Tableau α} {i j r s : ℕ} {b n label : String}

/-- The column of the variable `label`, if it is nonbasic. -/
def columnOf? (t : Tableau α) (label : String) : Option ℕ :=
  t.nonbasic.findIdx? (· == label)

theorem columnOf?_columnLabel (hd : t.labels.Nodup) (hj : j < t.width) :
    t.columnOf? (t.columnLabel j) = some j := by
  have hlt : j < t.nonbasic.length := by simpa using hj
  rw [columnLabel_eq_getElem hlt]
  exact findIdx?_getElem (List.nodup_append.1 hd).2.1 hlt

theorem mem_nonbasic_iff (hd : t.labels.Nodup) : n ∈ t.nonbasic ↔ n ∈ t.labels ∧ n ∉ t.basic := by
  have hdisjoint := (List.nodup_append.1 hd).2.2
  rw [labels, List.mem_append]
  constructor
  · exact fun h => ⟨.inr h, fun hb => hdisjoint n hb n h rfl⟩
  · rintro ⟨hb | hn, hnot⟩
    · exact absurd hb hnot
    · exact hn

variable [Scalar α]

/-- The entry in the row of the variable `b` and the column of the variable `n`. -/
def coefficient? (t : Tableau α) (b n : String) : Option α :=
  (t.rowOf? b).bind fun i => (t.columnOf? n).map fun j => t.entry i j

theorem coefficient?_labels (hd : t.labels.Nodup) (hi : i < t.height) (hj : j < t.width) :
    t.coefficient? (t.rowLabel i) (t.columnLabel j) = some (t.entry i j) := by
  rw [coefficient?, rowOf?_rowLabel hd hi, columnOf?_columnLabel hd hj]
  rfl

/-! ### Sequences of pivots -/

/-- The pivots at the given positions, one after the other. -/
def pivots? (t : Tableau α) : List (ℕ × ℕ) → Except Fault (Tableau α)
  | [] => .ok t
  | (r, s) :: rest =>
    match t.pivot? r s with
    | .error fault => .error fault
    | .ok u => u.pivots? rest

end Coefficients

variable {t u w : Tableau ℚ} {i j r s : ℕ} {v : String → ℚ} {ps qs : List (ℕ × ℕ)}

theorem pivots?_invariant {P : Tableau ℚ → Prop}
    (hstep : ∀ t r s, r < t.height → s < t.width → t.entry r s ≠ 0 → P t → P (t.pivot r s))
    (h : t.pivots? ps = .ok u) (ht : P t) : P u := by
  induction ps generalizing t with
  | nil => exact Except.ok.inj h ▸ ht
  | cons position ps ih =>
    obtain ⟨r, s⟩ := position
    rw [pivots?] at h
    split at h
    · cases h
    · rename_i first hfirst
      obtain ⟨hr, hs, he, rfl⟩ := pivot?_eq_ok_iff_ne.1 hfirst
      exact ih h (hstep t r s hr hs he ht)

theorem pivots?_labels_perm (h : t.pivots? ps = .ok u) : u.labels.Perm t.labels :=
  pivots?_invariant (P := fun u => u.labels.Perm t.labels)
    (fun _ _ _ hr hs _ ih => (labels_pivot_perm hr hs).trans ih) h (.refl _)

/-! ### Relations between all labels -/

/-- The values balance every row, the right-hand side counted like any other column. -/
def Balances (t : Tableau ℚ) (v : String → ℚ) : Prop :=
  ∀ i < t.height, t.residual (fun i => v (t.rowLabel i)) (fun j => v (t.columnLabel j)) i = 0

theorem balances_pivot_iff (hr : r < t.height) (hs : s < t.width) (he : t.entry r s ≠ 0) :
    (t.pivot r s).Balances v ↔ t.Balances v := by
  have hrows : (fun i => v ((t.pivot r s).rowLabel i)) =
      Function.update (fun i => v (t.rowLabel i)) r (v (t.columnLabel s)) := by
    funext i
    by_cases hir : i = r <;> simp [rowLabel_pivot hr, hir]
  have hcolumns : (fun j => v ((t.pivot r s).columnLabel j)) =
      Function.update (fun j => v (t.columnLabel j)) s (v (t.rowLabel r)) := by
    funext j
    by_cases hjs : j = s <;> simp [columnLabel_pivot hs, hjs]
  rw [Balances, Balances, hrows, hcolumns, height_pivot]
  exact residual_pivot_eq_zero_iff hr hs he (fun i => v (t.rowLabel i)) fun j => v (t.columnLabel j)

theorem pivots?_balances_iff (h : t.pivots? ps = .ok u) : u.Balances v ↔ t.Balances v :=
  pivots?_invariant (P := fun u => u.Balances v ↔ t.Balances v)
    (fun _ _ _ hr hs he ih => (balances_pivot_iff hr hs he).trans ih) h Iff.rfl

/-! ### Solved forms -/

/-- The values that balance a tableau where the variable of column `j` is one and every other nonbasic
variable is zero. -/
def columnPoint (t : Tableau ℚ) (j : ℕ) (label : String) : ℚ :=
  match t.rowOf? label with
  | some i => -t.entry i j
  | none => if label = t.columnLabel j then 1 else 0

theorem columnPoint_rowLabel (hd : t.labels.Nodup) (hi : i < t.height) :
    t.columnPoint j (t.rowLabel i) = -t.entry i j := by
  rw [columnPoint, rowOf?_rowLabel hd hi]

theorem columnPoint_columnLabel (hd : t.labels.Nodup) (hj : j < t.width) {k : ℕ} (hk : k < t.width) :
    t.columnPoint j (t.columnLabel k) = if k = j then 1 else 0 := by
  rw [columnPoint, rowOf?_columnLabel hd hk]
  by_cases hkj : k = j
  · simp [hkj]
  · have hne : t.columnLabel k ≠ t.columnLabel j := fun h => hkj (columnLabel_injective hd hk hj h)
    simp [hkj, hne]

/-- Values that are one on the variable of column `j` and zero on the other nonbasic variables balance a
row where its own variable is minus the entry of that column. -/
theorem residual_of_unit (hj : j < t.width) {y z : ℕ → ℚ}
    (hz : ∀ k < t.width, z k = if k = j then 1 else 0) :
    t.residual y z i = y i + t.entry i j := by
  have hterm : ∀ k ∈ range t.width, t.entry i k * z k = if k = j then t.entry i k else 0 := by
    intro k hk
    rw [hz k (mem_range.1 hk), mul_ite, mul_one, mul_zero]
  rw [residual, sum_congr rfl hterm, sum_ite_eq' (range t.width) j, if_pos (mem_range.2 hj)]

theorem balances_columnPoint (hd : t.labels.Nodup) (hj : j < t.width) :
    t.Balances (t.columnPoint j) := by
  intro i hi
  rw [residual_of_unit hj fun k hk => columnPoint_columnLabel hd hj hk, columnPoint_rowLabel hd hi,
    neg_add_cancel]

-- The relations of one tableau, at the point of a column of the other, give the entry of the first.
theorem entry_eq_of_balances (hd : t.labels.Nodup) (hd' : u.labels.Nodup)
    (hrelation : ∀ v, u.Balances v ↔ t.Balances v) (hnonbasic : ∀ n, n ∈ u.nonbasic ↔ n ∈ t.nonbasic)
    {i' j' : ℕ} (hi : i < t.height) (hj : j < t.width) (hi' : i' < u.height) (hj' : j' < u.width)
    (hrow : u.rowLabel i' = t.rowLabel i) (hcolumn : u.columnLabel j' = t.columnLabel j) :
    u.entry i' j' = t.entry i j := by
  have hunit : ∀ k < u.width, t.columnPoint j (u.columnLabel k) = if k = j' then 1 else 0 := by
    intro k hk
    obtain ⟨k₀, hk₀, hlabel⟩ := exists_columnLabel_eq ((hnonbasic _).1 (columnLabel_mem hk))
    have hsame : k₀ = j ↔ k = j' := by
      constructor
      · rintro rfl
        exact columnLabel_injective hd' hk hj' (hlabel.trans hcolumn.symm)
      · rintro rfl
        exact columnLabel_injective hd hk₀ hj (hlabel.symm.trans hcolumn)
    rw [hlabel, columnPoint_columnLabel hd hj hk₀]
    simp only [hsame]
  have hbalance := (hrelation _).2 (balances_columnPoint hd hj) i' hi'
  rw [residual_of_unit hj' hunit, hrow, columnPoint_rowLabel hd hi] at hbalance
  linarith

/-! ### Exchanging back -/

theorem ext_parts {α : Type} {t u : Tableau α} (hbasic : t.basic = u.basic)
    (hnonbasic : t.nonbasic = u.nonbasic) (hdecision : t.decision = u.decision)
    (hmatrix : t.matrix = u.matrix) : t = u := by
  obtain ⟨_, _, _, _, _, _, _, _⟩ := t
  obtain ⟨_, _, _, _, _, _, _, _⟩ := u
  simp only at hbasic hnonbasic hdecision hmatrix
  subst hbasic hnonbasic hdecision hmatrix
  rfl

theorem entry_pivot_pivot (hr : r < t.height) (hs : s < t.width) (he : t.entry r s ≠ 0)
    (hi : i < t.height) (hj : j < t.width) : ((t.pivot r s).pivot r s).entry i j = t.entry i j := by
  rw [entry_pivot (t.pivot r s) r s hi hj, entry_pivot t r s hi hj, entry_pivot t r s hr hs,
    entry_pivot t r s hi hs, entry_pivot t r s hr hj]
  by_cases hir : i = r
  · by_cases hjs : j = s
    · simp [hir, hjs]
    · simp only [hir, hjs, if_true, if_false]
      field_simp
  · by_cases hjs : j = s
    · simp only [hir, hjs, if_true, if_false]
      field_simp
    · simp only [hir, hjs, if_true, if_false]
      field_simp
      ring

theorem pivot_pivot (hr : r < t.height) (hs : s < t.width) (he : t.entry r s ≠ 0) :
    (t.pivot r s).pivot r s = t := by
  have hbasic : r < t.basic.length := by simpa using hr
  have hnonbasic : s < t.nonbasic.length := by simpa using hs
  refine ext_parts ?_ ?_ rfl (Grid.ext_get rfl rfl fun i j hi hj => ?_)
  · show (t.basic.set r (t.columnLabel s)).set r ((t.pivot r s).columnLabel s) = t.basic
    rw [List.set_set, columnLabel_pivot hs, if_pos rfl, rowLabel_eq_getElem hbasic,
      List.set_getElem_self]
  · show (t.nonbasic.set s (t.rowLabel r)).set s ((t.pivot r s).rowLabel r) = t.nonbasic
    rw [List.set_set, rowLabel_pivot hr, if_pos rfl, columnLabel_eq_getElem hnonbasic,
      List.set_getElem_self]
  · exact entry_pivot_pivot hr hs he hi hj

theorem pivot?_pivot? (h : t.pivot? r s = .ok u) : u.pivot? r s = .ok t := by
  obtain ⟨hr, hs, he, rfl⟩ := pivot?_eq_ok_iff_ne.1 h
  refine pivot?_eq_ok_iff_ne.2 ⟨hr, hs, ?_, (pivot_pivot hr hs he).symm⟩
  rw [entry_pivot t r s hr hs, if_pos rfl, if_pos rfl]
  exact one_div_ne_zero he

/-! ### One tableau for every basis -/

/-- Two tableaus that any pivots make of one that was accepted, and that have the same basic variables,
have the same entry for every basic and nonbasic variable. A pivot made twice is undone. -/
theorem coefficient?_eq_of_basic {matrix : Grid ℚ} {basic nonbasic : List String}
    (h : create matrix basic nonbasic = .ok t) (hu : t.pivots? ps = .ok u) (hw : t.pivots? qs = .ok w)
    (hbasis : ∀ b, b ∈ u.basic ↔ b ∈ w.basic) :
    (∀ b ∈ u.basic, ∀ n ∈ u.nonbasic,
      ∃ x, u.coefficient? b n = some x ∧ w.coefficient? b n = some x) ∧
    ∀ r s v, u.pivot? r s = .ok v → v.pivot? r s = .ok u := by
  obtain ⟨-, -, -, -, hdistinct, -⟩ := create_eq_ok h
  have hlabels : w.labels.Perm u.labels := (pivots?_labels_perm hw).trans (pivots?_labels_perm hu).symm
  have hd : u.labels.Nodup := (pivots?_labels_perm hu).nodup_iff.2 hdistinct
  have hd' : w.labels.Nodup := (pivots?_labels_perm hw).nodup_iff.2 hdistinct
  have hnonbasic (n : String) : n ∈ w.nonbasic ↔ n ∈ u.nonbasic := by
    rw [mem_nonbasic_iff hd', mem_nonbasic_iff hd, hlabels.mem_iff, hbasis]
  have hrelation (v : String → ℚ) : w.Balances v ↔ u.Balances v :=
    (pivots?_balances_iff hw).trans (pivots?_balances_iff hu).symm
  refine ⟨fun b hb n hn => ?_, fun r s v hv => pivot?_pivot? hv⟩
  obtain ⟨i, hi, hbi⟩ := exists_rowLabel_eq hb
  obtain ⟨j, hj, hnj⟩ := exists_columnLabel_eq hn
  obtain ⟨i', hi', hbi'⟩ := exists_rowLabel_eq ((hbasis b).1 hb)
  obtain ⟨j', hj', hnj'⟩ := exists_columnLabel_eq ((hnonbasic n).2 hn)
  refine ⟨u.entry i j, ?_, ?_⟩
  · rw [hbi, hnj, coefficient?_labels hd hi hj]
  · rw [hbi', hnj', coefficient?_labels hd' hi' hj', entry_eq_of_balances hd hd' hrelation hnonbasic
      hi hj hi' hj' (hbi'.symm.trans hbi) (hnj'.symm.trans hnj)]

-- Two ways to make the right-hand side and both variables basic, the objective row and column 0 among the
-- pivots; they end with the rows and the columns in different places.
theorem coefficient?_eq_of_basic_rearranged : ∃ t u w : Tableau ℚ,
    create ⟨3, 3, #v[2, 3, 5, 1, 4, 2, 2, 1, -1]⟩ ["a", "b", "F"] ["RHS", "c", "d"] = .ok t ∧
      t.pivots? [(0, 1), (2, 0), (1, 2)] = .ok u ∧ t.pivots? [(2, 2), (1, 1), (0, 0)] = .ok w ∧
      u.basic = ["c", "d", "RHS"] ∧ w.basic = ["RHS", "c", "d"] ∧ (∀ b, b ∈ u.basic ↔ b ∈ w.basic) ∧
      (∃ x, u.coefficient? "c" "F" = some x ∧ w.coefficient? "c" "F" = some x) ∧
      ∃ v, u.pivot? 1 0 = .ok v ∧ v.pivot? 1 0 = .ok u := by
  obtain ⟨t, ht, hleft, hright, hback⟩ : ∃ t : Tableau ℚ,
      create ⟨3, 3, #v[2, 3, 5, 1, 4, 2, 2, 1, -1]⟩ ["a", "b", "F"] ["RHS", "c", "d"] = .ok t ∧
        (t.pivots? [(0, 1), (2, 0), (1, 2)]).map (fun u => (u.basic, u.nonbasic)) =
          .ok (["c", "d", "RHS"], ["F", "a", "b"]) ∧
        (t.pivots? [(2, 2), (1, 1), (0, 0)]).map basic = .ok ["RHS", "c", "d"] ∧
        ((t.pivots? [(0, 1), (2, 0), (1, 2)]).bind fun u => u.pivot? 1 0).map basic =
          .ok ["c", "F", "RHS"] := ⟨_, rfl, by decide +kernel⟩
  obtain ⟨u, hu, hlabels⟩ := map_eq_ok_iff.1 hleft
  obtain ⟨w, hw, hbasic'⟩ := map_eq_ok_iff.1 hright
  obtain ⟨hbasic, hnonbasic⟩ := Prod.mk.inj hlabels
  rw [hu] at hback
  obtain ⟨v, hv, -⟩ := map_eq_ok_iff.1 hback
  have hbasis : ∀ b, b ∈ u.basic ↔ b ∈ w.basic := by
    intro b
    simp only [hbasic, hbasic', List.mem_cons, List.not_mem_nil, or_false]
    tauto
  obtain ⟨hcoefficients, hundone⟩ := coefficient?_eq_of_basic ht hu hw hbasis
  refine ⟨t, u, w, ht, hu, hw, hbasic, hbasic', hbasis, hcoefficients "c" ?_ "F" ?_, v, hv, ?_⟩
  · simp [hbasic]
  · simp [hnonbasic]
  · exact hundone 1 0 v hv

end CuttingPlane.Tableau

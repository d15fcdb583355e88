import CuttingPlane.Cut
import CuttingPlane.Search
import Mathlib.Order.Bounds.Basic

/-!
# What the scans find

A search looks for rows and columns with `find?` and with folds that keep the better of two. The first
kind gives the first position with a property, the second the first of the best positions. From
these the next move of a search is read: where it pivots, and what it has seen when it halts.
-/

namespace CuttingPlane

/-! ### Folds that keep one of two -/

section Keep

variable {β : Type} {keep : Option β → β → Option β}

theorem foldl_keep_some
    (hsome : ∀ b x, keep (some b) x = some b ∨ keep (some b) x = some x) (xs : List β) (b : β) :
    ∃ p, xs.foldl keep (some b) = some p ∧ (p = b ∨ p ∈ xs) := by
  -- Along the list, with the kept element general: it is the first one or one of those seen since.
  induction xs generalizing b with
  | nil => exact ⟨b, rfl, .inl rfl⟩
  | cons x xs ih =>
    rw [List.foldl_cons]
    rcases hsome b x with h | h
    · obtain ⟨p, hp, hmem⟩ := ih b
      refine ⟨p, by rw [h, hp], ?_⟩
      rcases hmem with hb | hx
      · exact .inl hb
      · exact .inr (List.mem_cons_of_mem _ hx)
    · obtain ⟨p, hp, hmem⟩ := ih x
      refine ⟨p, by rw [h, hp], .inr ?_⟩
      rcases hmem with hx | hx
      · exact hx ▸ List.mem_cons_self ..
      · exact List.mem_cons_of_mem _ hx

theorem foldl_keep_eq_none (hnone : ∀ x, keep none x = some x)
    (hsome : ∀ b x, keep (some b) x = some b ∨ keep (some b) x = some x) (xs : List β) :
    xs.foldl keep none = none ↔ xs = [] := by
  cases xs with
  | nil => simp
  | cons x xs =>
    rw [List.foldl_cons, hnone]
    obtain ⟨p, hp, -⟩ := foldl_keep_some hsome xs x
    simp [hp]

theorem mem_of_foldl_keep (hnone : ∀ x, keep none x = some x)
    (hsome : ∀ b x, keep (some b) x = some b ∨ keep (some b) x = some x) {xs : List β} {p : β}
    (h : xs.foldl keep none = some p) : p ∈ xs := by
  cases xs with
  | nil => simp at h
  | cons x xs =>
    rw [List.foldl_cons, hnone] at h
    obtain ⟨q, hq, hmem⟩ := foldl_keep_some hsome xs x
    obtain rfl : q = p := Option.some.inj (hq.symm.trans h)
    rcases hmem with rfl | hx
    · exact List.mem_cons_self ..
    · exact List.mem_cons_of_mem _ hx

variable {R : β → β → Prop} {all : List β}

-- Along the list again, with what was seen split at the element that was kept: it is better than what came
-- before it and no worse than what came after.
theorem foldl_keep_first (hkeep : ∀ b x, R b x → keep (some b) x = some b)
    (hreplace : ∀ b x, ¬ R b x → keep (some b) x = some x)
    (htrans : ∀ {a b c}, R a b → R b c → R a c) (htotal : ∀ x ∈ all, ∀ y ∈ all, R x y ∨ R y x)
    (xs before : List β) (b : β) (after : List β) (hall : all = before ++ b :: after ++ xs)
    (hbefore : ∀ q ∈ before, ¬ R q b) (hafter : ∀ q ∈ after, R b q) :
    ∃ first p last, xs.foldl keep (some b) = some p ∧ all = first ++ p :: last ∧
      (∀ q ∈ first, ¬ R q p) ∧ ∀ q ∈ last, R p q := by
  induction xs generalizing before b after with
  | nil => exact ⟨before, b, after, rfl, by simpa using hall, hbefore, hafter⟩
  | cons x xs ih =>
    rw [List.foldl_cons]
    by_cases hle : R b x
    · rw [hkeep b x hle]
      refine ih before b (after ++ [x]) (by simpa using hall) hbefore ?_
      intro q hq
      rcases List.mem_append.1 hq with hq | hq
      · exact hafter q hq
      · exact List.mem_singleton.1 hq ▸ hle
    · rw [hreplace b x hle]
      have hxb : R x b := (htotal b (by simp [hall]) x (by simp [hall])).resolve_left hle
      refine ih (before ++ b :: after) x [] (by simpa using hall) ?_ (List.forall_mem_nil _)
      intro q hq hqx
      rcases List.mem_append.1 hq with hq | hq
      · exact hbefore q hq (htrans hqx hxb)
      · rcases List.mem_cons.1 hq with rfl | hq
        · exact hle hqx
        · exact hle (htrans (hafter q hq) hqx)

/-- A fold that keeps an element until a better one comes gives the first of the best. -/
theorem exists_append_of_foldl_keep (hnone : ∀ x, keep none x = some x)
    (hkeep : ∀ b x, R b x → keep (some b) x = some b)
    (hreplace : ∀ b x, ¬ R b x → keep (some b) x = some x)
    (htrans : ∀ {a b c}, R a b → R b c → R a c) {xs : List β} {p : β}
    (htotal : ∀ x ∈ xs, ∀ y ∈ xs, R x y ∨ R y x) (h : xs.foldl keep none = some p) :
    ∃ first last, xs = first ++ p :: last ∧ (∀ q ∈ first, ¬ R q p) ∧ ∀ q ∈ last, R p q := by
  cases xs with
  | nil => cases h
  | cons x xs =>
    rw [List.foldl_cons, hnone] at h
    obtain ⟨first, p', last, hfold, hsplit, hfirst, hlast⟩ := foldl_keep_first hkeep hreplace htrans htotal
      xs [] x [] rfl (List.forall_mem_nil _) (List.forall_mem_nil _)
    obtain rfl := Option.some.inj (hfold.symm.trans h)
    exact ⟨first, last, hsplit, hfirst, hlast⟩

end Keep

/-! ### Folds over rows -/

section Rows

variable {β : Type} {keep : Option (ℕ × β) → ℕ × β → Option (ℕ × β)} {R : β → β → Prop}
  {P : ℕ → Prop} [DecidablePred P] {f : ℕ → β} {n : ℕ}

/-- The rows below `n` that qualify, each with its number. -/
def candidates (P : ℕ → Prop) [DecidablePred P] (f : ℕ → β) (n : ℕ) : List (ℕ × β) :=
  (List.range n).filterMap fun i => if P i then some (i, f i) else none

/-- The rows below `n` that qualify and whose number is as good as that of every other such row. -/
def bestRows (P : ℕ → Prop) (R : β → β → Prop) (f : ℕ → β) (n : ℕ) : Set ℕ :=
  {r | r < n ∧ P r ∧ ∀ i < n, P i → R (f r) (f i)}

theorem mem_candidates {p : ℕ × β} : p ∈ candidates P f n ↔ p.1 < n ∧ P p.1 ∧ p.2 = f p.1 := by
  obtain ⟨i, q⟩ := p
  simp only [candidates, List.mem_filterMap, List.mem_range, Option.ite_none_right_eq_some, Option.some.injEq,
    Prod.mk.injEq]
  constructor
  · rintro ⟨k, hk, hP, rfl, rfl⟩
    exact ⟨hk, hP, rfl⟩
  · rintro ⟨hi, hP, rfl⟩
    exact ⟨i, hi, hP, rfl, rfl⟩

theorem candidates_ascend : (candidates P f n).Pairwise fun p q => p.1 < q.1 := by
  rw [candidates, List.pairwise_filterMap]
  refine List.pairwise_lt_range.imp fun {i j} hlt p hp q hq => ?_
  obtain rfl := Option.some.inj (Option.ite_none_right_eq_some.1 hp).2
  obtain rfl := Option.some.inj (Option.ite_none_right_eq_some.1 hq).2
  exact hlt

theorem isLeast_of_foldl_keep (hnone : ∀ x, keep none x = some x)
    (hkeep : ∀ b x, R b.2 x.2 → keep (some b) x = some b)
    (hreplace : ∀ b x, ¬ R b.2 x.2 → keep (some b) x = some x)
    (htrans : ∀ {a b c}, R a b → R b c → R a c)
    (htotal : ∀ i < n, P i → ∀ j < n, P j → R (f i) (f j) ∨ R (f j) (f i)) {p : ℕ × β}
    (h : (candidates P f n).foldl keep none = some p) :
    p.2 = f p.1 ∧ IsLeast (bestRows P R f n) p.1 := by
  have htotal' : ∀ x ∈ candidates P f n, ∀ y ∈ candidates P f n, R x.2 y.2 ∨ R y.2 x.2 := by
    intro x hx y hy
    obtain ⟨hi, hPi, hfi⟩ := mem_candidates.1 hx
    obtain ⟨hj, hPj, hfj⟩ := mem_candidates.1 hy
    rw [hfi, hfj]
    exact htotal _ hi hPi _ hj hPj
  obtain ⟨first, last, hsplit, hfirst, hlast⟩ := exists_append_of_foldl_keep
    (R := fun a b => R a.2 b.2) hnone hkeep hreplace htrans htotal' h
  have hcases : ∀ q ∈ candidates P f n, q ∈ first ∨ q = p ∨ q ∈ last := by simp [hsplit]
  have hmem : p ∈ candidates P f n := by simp [hsplit]
  obtain ⟨hp, hPp, hf⟩ := mem_candidates.1 hmem
  have hbest : ∀ q ∈ candidates P f n, R p.2 q.2 := by
    intro q hq
    rcases hcases q hq with hq' | rfl | hq'
    · exact (htotal' p hmem q hq).resolve_right (hfirst q hq')
    · exact (htotal' q hmem q hmem).elim id id
    · exact hlast q hq'
  refine ⟨hf, ⟨hp, hPp, fun i hi hPi => ?_⟩, ?_⟩
  · rw [← hf]
    exact hbest (i, f i) (mem_candidates.2 ⟨hi, hPi, rfl⟩)
  -- A row before the chosen one is not as good, and a row that was seen after it has a larger index.
  · rintro i ⟨hi, hPi, hle⟩
    have hascend : (first ++ p :: last).Pairwise fun p q => p.1 < q.1 := hsplit ▸ candidates_ascend
    rcases hcases (i, f i) (mem_candidates.2 ⟨hi, hPi, rfl⟩) with hq | rfl | hq
    · refine absurd ?_ (hfirst _ hq)
      rw [hf]
      exact hle p.1 hp hPp
    · exact le_rfl
    · exact ((List.pairwise_cons.1 (List.pairwise_append.1 hascend).2.1).1 _ hq).le

/-- A fold that keeps a row until a better one comes gives the first of the best rows. -/
theorem foldl_keep_eq_some_iff (hnone : ∀ x, keep none x = some x)
    (hkeep : ∀ b x, R b.2 x.2 → keep (some b) x = some b)
    (hreplace : ∀ b x, ¬ R b.2 x.2 → keep (some b) x = some x)
    (htrans : ∀ {a b c}, R a b → R b c → R a c)
    (htotal : ∀ i < n, P i → ∀ j < n, P j → R (f i) (f j) ∨ R (f j) (f i)) (p : ℕ × β) :
    (candidates P f n).foldl keep none = some p ↔ p.2 = f p.1 ∧ IsLeast (bestRows P R f n) p.1 := by
  refine ⟨isLeast_of_foldl_keep hnone hkeep hreplace htrans htotal, ?_⟩
  rintro ⟨hf, hleast⟩
  have hsome : ∀ b x, keep (some b) x = some b ∨ keep (some b) x = some x := fun b x =>
    (em (R b.2 x.2)).imp (hkeep b x) (hreplace b x)
  have hmem : p ∈ candidates P f n := mem_candidates.2 ⟨hleast.1.1, hleast.1.2.1, hf⟩
  cases hfold : (candidates P f n).foldl keep none with
  | none =>
    rw [foldl_keep_eq_none hnone hsome] at hfold
    rw [hfold] at hmem
    cases hmem
  | some q =>
    obtain ⟨hq, hleast'⟩ := isLeast_of_foldl_keep hnone hkeep hreplace htrans htotal hfold
    have hrow : q.1 = p.1 := hleast'.unique hleast
    rw [Prod.ext hrow (by rw [hq, hf, hrow])]

end Rows

namespace Tableau

variable {α : Type} [Scalar α] {t : Tableau α} {ε : α} {i r s : Nat}

theorem keepSmaller_some (b x : Nat × α) :
    keepSmaller (some b) x = some b ∨ keepSmaller (some b) x = some x := by
  simp only [keepSmaller]
  split
  · exact .inl rfl
  · exact .inr rfl

theorem keepLarger_some (b x : Nat × α) :
    keepLarger (some b) x = some b ∨ keepLarger (some b) x = some x := by
  simp only [keepLarger]
  split
  · exact .inl rfl
  · exact .inr rfl

/-! ### First rows and columns -/

theorem infeasibleRow?_eq_some : t.infeasibleRow? ε = some r ↔
    r < t.objectiveRow ∧ t.rhs r < -ε ∧ ∀ i < r, ¬ t.rhs i < -ε := by
  simp only [infeasibleRow?_eq, List.find?_range_eq_some, decide_eq_true_eq, List.mem_range,
    Bool.not_eq_true', decide_eq_false_iff_not]
  exact ⟨fun h => ⟨h.2.1, h.1, h.2.2⟩, fun h => ⟨h.2.1, h.1, h.2.2⟩⟩

theorem infeasibleRow?_eq_none :
    t.infeasibleRow? ε = none ↔ ∀ i < t.objectiveRow, ¬ t.rhs i < -ε := by
  simp [infeasibleRow?_eq]

theorem negativeColumn?_eq_some : t.negativeColumn? i ε = some s ↔
    1 ≤ s ∧ s < t.width ∧ t.entry i s < -ε ∧ ∀ j, 1 ≤ j → j < s → ¬ t.entry i j < -ε := by
  simp only [negativeColumn?_eq, List.find?_range'_eq_some, decide_eq_true_eq, List.mem_range'_1,
    Bool.not_eq_true', decide_eq_false_iff_not]
  have hw : 0 < t.width := t.width_pos
  constructor
  · rintro ⟨hneg, ⟨hs, hlt⟩, hfirst⟩
    exact ⟨hs, by omega, hneg, hfirst⟩
  · rintro ⟨hs, hlt, hneg, hfirst⟩
    exact ⟨hneg, ⟨hs, by omega⟩, hfirst⟩

theorem negativeColumn?_eq_none :
    t.negativeColumn? i ε = none ↔ ∀ j, 1 ≤ j → j < t.width → ¬ t.entry i j < -ε := by
  simp only [negativeColumn?_eq, List.find?_range'_eq_none, Bool.not_eq_true', decide_eq_false_iff_not]
  have hw : 0 < t.width := t.width_pos
  constructor
  · intro h j hj hlt
    exact h j hj (by omega)
  · intro h j hj hlt
    exact h j hj (by omega)

/-! ### The ratio test -/

theorem ratios_eq_candidates : t.ratios s ε =
    candidates (fun i => ε < t.entry i s) (fun i => t.rhs i / t.entry i s) t.objectiveRow :=
  t.ratios_eq ε s

theorem leavingRow?_eq_none :
    t.leavingRow? s ε = none ↔ ∀ i < t.objectiveRow, ¬ ε < t.entry i s := by
  rw [leavingRow?_eq, Option.map_eq_none_iff, foldl_keep_eq_none (fun _ => rfl) keepSmaller_some]
  simp [ratios_eq]

theorem leavingRow?_pos (h : t.leavingRow? s ε = some r) : r < t.objectiveRow ∧ ε < t.entry r s := by
  rw [leavingRow?_eq, ratios_eq_candidates] at h
  obtain ⟨p, hp, rfl⟩ := Option.map_eq_some_iff.1 h
  obtain ⟨hrow, hpos, -⟩ := mem_candidates.1 (mem_of_foldl_keep (fun _ => rfl) keepSmaller_some hp)
  exact ⟨hrow, hpos⟩

/-- The rows that limit the variable of column `s` most. -/
def tightestRows (t : Tableau α) (s : ℕ) (ε : α) : Set ℕ :=
  bestRows (fun i => ε < t.entry i s) (fun p q => p ≤ q) (fun i => t.rhs i / t.entry i s) t.objectiveRow

theorem leavingRow?_eq_some_iff (htrans : ∀ {p q r : α}, p ≤ q → q ≤ r → p ≤ r)
    (htotal : ∀ i < t.objectiveRow, ε < t.entry i s → ∀ j < t.objectiveRow, ε < t.entry j s →
      t.rhs i / t.entry i s ≤ t.rhs j / t.entry j s ∨ t.rhs j / t.entry j s ≤ t.rhs i / t.entry i s) (r : ℕ) :
    t.leavingRow? s ε = some r ↔ IsLeast (t.tightestRows s ε) r := by
  have hfold := foldl_keep_eq_some_iff (show ∀ p : ℕ × α, keepSmaller none p = some p from fun _ => rfl)
    (fun _ _ hle => if_pos hle) (fun _ _ hle => if_neg hle) htrans htotal
  rw [leavingRow?_eq, ratios_eq_candidates, Option.map_eq_some_iff]
  constructor
  · rintro ⟨p, hp, rfl⟩
    exact ((hfold p).1 hp).2
  · intro h
    exact ⟨(r, t.rhs r / t.entry r s), (hfold _).2 ⟨rfl, h⟩, rfl⟩

/-! ### Fractional rows -/

/-- Whether the right-hand side of row `i` is farther than `ε` from a whole number. -/
def IsFractional (t : Tableau α) (ε : α) (i : ℕ) : Prop :=
  ε < Scalar.fract (t.rhs i) ∧ Scalar.fract (t.rhs i) < 1 - ε

instance (t : Tableau α) (ε : α) : DecidablePred (t.IsFractional ε) := fun i =>
  inferInstanceAs (Decidable (ε < Scalar.fract (t.rhs i) ∧ Scalar.fract (t.rhs i) < 1 - ε))

/-- The rows with the largest fractional part. -/
def mostFractionalRows (t : Tableau α) (ε : α) : Set ℕ :=
  bestRows (t.IsFractional ε) (fun p q => q ≤ p) (fun i => Scalar.fract (t.rhs i)) t.objectiveRow

theorem fractionalRows_eq_candidates : t.fractionalRows ε =
    candidates (t.IsFractional ε) (fun i => Scalar.fract (t.rhs i)) t.objectiveRow :=
  t.fractionalRows_eq ε

theorem mem_fractionalRows {p : Nat × α} : p ∈ t.fractionalRows ε ↔
    p.1 < t.objectiveRow ∧ p.2 = Scalar.fract (t.rhs p.1) ∧ ε < p.2 ∧ p.2 < 1 - ε := by
  obtain ⟨i, q⟩ := p
  rw [fractionalRows_eq_candidates, mem_candidates]
  dsimp only
  constructor
  · rintro ⟨hi, hpart, rfl⟩
    exact ⟨hi, rfl, hpart⟩
  · rintro ⟨hi, rfl, hpart⟩
    exact ⟨hi, hpart, rfl⟩

theorem mostFractional?_eq_none : t.mostFractional? ε = none ↔ ∀ i < t.objectiveRow,
    ¬ (ε < Scalar.fract (t.rhs i) ∧ Scalar.fract (t.rhs i) < 1 - ε) := by
  rw [mostFractional?_eq, Option.map_eq_none_iff, foldl_keep_eq_none (fun _ => rfl) keepLarger_some,
    List.eq_nil_iff_forall_not_mem]
  constructor
  · intro h i hi hpart
    exact h (i, Scalar.fract (t.rhs i)) (mem_fractionalRows.2 ⟨hi, rfl, hpart⟩)
  · intro h p hp
    obtain ⟨hi, hq, hpart⟩ := mem_fractionalRows.1 hp
    exact h p.1 hi (hq ▸ hpart)

theorem mostFractional?_row {label : String} {part : α} (h : t.mostFractional? ε = some (label, part)) :
    ∃ i < t.objectiveRow, label = t.rowLabel i ∧ part = Scalar.fract (t.rhs i) ∧
      ε < part ∧ part < 1 - ε := by
  rw [mostFractional?_eq] at h
  obtain ⟨p, hp, heq⟩ := Option.map_eq_some_iff.1 h
  obtain ⟨rfl, rfl⟩ := Prod.mk.inj heq
  obtain ⟨hi, hq, hpart⟩ := mem_fractionalRows.1 (mem_of_foldl_keep (fun _ => rfl) keepLarger_some hp)
  exact ⟨p.1, hi, rfl, hq, hpart⟩

theorem mostFractional?_eq_some_iff (htrans : ∀ {p q r : α}, p ≤ q → q ≤ r → p ≤ r)
    (htotal : ∀ i < t.objectiveRow, t.IsFractional ε i → ∀ j < t.objectiveRow, t.IsFractional ε j →
      Scalar.fract (t.rhs j) ≤ Scalar.fract (t.rhs i) ∨ Scalar.fract (t.rhs i) ≤ Scalar.fract (t.rhs j))
    (label : String) (part : α) : t.mostFractional? ε = some (label, part) ↔
      ∃ r, IsLeast (t.mostFractionalRows ε) r ∧ label = t.rowLabel r ∧ part = Scalar.fract (t.rhs r) := by
  have hfold := foldl_keep_eq_some_iff (R := fun p q => q ≤ p) (P := t.IsFractional ε)
    (f := fun i => Scalar.fract (t.rhs i)) (show ∀ p : ℕ × α, keepLarger none p = some p from fun _ => rfl)
    (fun _ _ hle => if_pos hle) (fun _ _ hle => if_neg hle) (fun hqp hrq => htrans hrq hqp) htotal
  rw [mostFractional?_eq, fractionalRows_eq_candidates, Option.map_eq_some_iff]
  constructor
  · rintro ⟨p, hp, heq⟩
    obtain ⟨rfl, rfl⟩ := Prod.mk.inj heq
    obtain ⟨hpart, hleast⟩ := (hfold p).1 hp
    exact ⟨p.1, hleast, rfl, hpart⟩
  · rintro ⟨r, hleast, rfl, rfl⟩
    exact ⟨(r, Scalar.fract (t.rhs r)), (hfold _).2 ⟨rfl, hleast⟩, rfl⟩

end Tableau
end CuttingPlane

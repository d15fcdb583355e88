import CuttingPlane.Proofs.Labels

/-!
# Accepted tableaus

A grid and two lists of labels are accepted as a tableau when the lists fit the grid, the last row is the
objective and no label occurs twice. Nothing asks for the label of column 0, so what is accepted need not
have a column of right-hand sides by name. A label that is rejected as a duplicate is the first one that
equals an earlier one.
-/

namespace CuttingPlane.Tableau

variable {α : Type} {matrix : Grid α} {basic nonbasic : List String}

/-- There is a row and a column, every one of them has a label, and the last row is the objective. -/
structure Fits (matrix : Grid α) (basic nonbasic : List String) : Prop where
  row : 0 < matrix.height
  column : 0 < matrix.width
  rowLabels : basic.length = matrix.height
  columnLabels : nonbasic.length = matrix.width
  objective : basic.getLast? = some objectiveLabel

/-- What a tableau is meant to be: column 0 is the one of right-hand sides, and every label stands for one
row or one column. -/
structure Conforms (matrix : Grid α) (basic nonbasic : List String) : Prop
    extends Fits matrix basic nonbasic where
  rhs : nonbasic.head? = some rhsLabel
  distinct : (basic ++ nonbasic).Nodup

/-- The first of the names that equals an earlier one. -/
def FirstRepeat (names : List String) (label : String) : Prop :=
  ∃ before after, names = before ++ label :: after ∧ before.Nodup ∧ label ∈ before

/-! ### The scan for repeats -/

-- `seen` grows with the scan: what stands before the repeat is distinct, and none of it was seen.
theorem exists_of_firstRepeat? {seen names : List String} {label : String}
    (h : firstRepeat? seen names = some label) :
    ∃ before after, names = before ++ label :: after ∧ before.Nodup ∧ (∀ name ∈ before, name ∉ seen) ∧
      (label ∈ before ∨ label ∈ seen) := by
  induction names generalizing seen with
  | nil => cases h
  | cons name names ih =>
    rw [firstRepeat?] at h
    split at h
    · rename_i hseen
      obtain rfl := Option.some.inj h
      exact ⟨[], names, rfl, List.nodup_nil, by simp, .inr hseen⟩
    · rename_i hnew
      obtain ⟨before, after, rfl, hdistinct, hfresh, hlabel⟩ := ih h
      have hname : name ∉ before := fun hmem => hfresh name hmem List.mem_cons_self
      refine ⟨name :: before, after, rfl, List.nodup_cons.2 ⟨hname, hdistinct⟩, ?_, ?_⟩
      · rintro other (_ | ⟨_, hother⟩)
        · exact hnew
        · exact fun hmem => hfresh other hother (List.mem_cons_of_mem _ hmem)
      · rcases hlabel with hmem | hmem
        · exact .inl (List.mem_cons_of_mem _ hmem)
        · rcases List.mem_cons.1 hmem with rfl | hmem
          · exact .inl List.mem_cons_self
          · exact .inr hmem

theorem exists_firstRepeat {names : List String} (h : ¬ names.Nodup) :
    ∃ label, firstRepeat? [] names = some label ∧ FirstRepeat names label := by
  cases hrepeat : firstRepeat? [] names with
  | none => exact absurd (firstRepeat?_eq_none.1 hrepeat).1 h
  | some label =>
    obtain ⟨before, after, hnames, hdistinct, -, hlabel⟩ := exists_of_firstRepeat? hrepeat
    exact ⟨label, rfl, before, after, hnames, hdistinct, hlabel.resolve_right List.not_mem_nil⟩

/-! ### The checks -/

theorem fits_of_create {t : Tableau α} (h : create matrix basic nonbasic = .ok t) :
    Fits matrix basic nonbasic := by
  obtain ⟨rfl, rfl, rfl, -, -, hlast⟩ := create_eq_ok h
  refine ⟨t.height_pos, t.width_pos, t.length_basic, t.length_nonbasic, ?_⟩
  -- The list of the labels of the rows is not empty, so it has a last one.
  cases hlabel : t.basic.getLast? with
  | none =>
    have hempty := t.length_basic
    rw [List.getLast?_eq_none_iff.1 hlabel] at hempty
    have := t.zero_lt_height
    simp at hempty
    omega
  | some label =>
    rw [hlabel, Option.getD_some] at hlast
    rw [hlast]

/-- Once the shapes and the last label are checked, only a repeat stops a tableau. -/
theorem Fits.create_eq (h : Fits matrix basic nonbasic) : create matrix basic nonbasic =
    (firstRepeat? [] (basic ++ nonbasic)).elim
      (.ok ⟨basic, nonbasic, nonbasic.drop 1, matrix, h.rowLabels.symm, h.columnLabels.symm, h.row, h.column⟩)
      fun label => .error (.duplicateLabel label) := by
  have hempty : ¬ (matrix.height = 0 ∨ matrix.width = 0) := by
    have := h.row
    have := h.column
    omega
  have hlast : ¬ basic.getLast?.getD "" ≠ objectiveLabel := by
    rw [h.objective]
    exact not_not.2 rfl
  unfold create
  rw [dif_neg hempty, dif_neg (not_not.2 h.rowLabels.symm), dif_neg (not_not.2 h.columnLabels.symm)]
  dsimp only
  rw [if_neg hlast]
  cases firstRepeat? [] (basic ++ nonbasic) <;> rfl

theorem exists_create_iff : (∃ t, create matrix basic nonbasic = .ok t) ↔
    Fits matrix basic nonbasic ∧ (basic ++ nonbasic).Nodup := by
  constructor
  · rintro ⟨t, h⟩
    refine ⟨fits_of_create h, ?_⟩
    obtain ⟨-, rfl, rfl, -, hdistinct, -⟩ := create_eq_ok h
    exact hdistinct
  · rintro ⟨hfits, hdistinct⟩
    rw [hfits.create_eq, firstRepeat?_eq_none.2 ⟨hdistinct, fun _ _ => List.not_mem_nil⟩]
    exact ⟨_, rfl⟩

theorem Fits.create_of_repeat (h : Fits matrix basic nonbasic) (hrepeat : ¬ (basic ++ nonbasic).Nodup) :
    ∃ label, create matrix basic nonbasic = .error (.duplicateLabel label) ∧
      FirstRepeat (basic ++ nonbasic) label := by
  obtain ⟨label, hlabel, hfirst⟩ := exists_firstRepeat hrepeat
  exact ⟨label, by rw [h.create_eq, hlabel, Option.elim_some], hfirst⟩

theorem conforms_iff : Conforms matrix basic nonbasic ↔
    Fits matrix basic nonbasic ∧ nonbasic.head? = some rhsLabel ∧ (basic ++ nonbasic).Nodup :=
  ⟨fun h => ⟨h.toFits, h.rhs, h.distinct⟩, fun ⟨hfits, hrhs, hdistinct⟩ => ⟨hfits, hrhs, hdistinct⟩⟩

/-- A tableau is accepted exactly if the labels fit the grid and are pairwise distinct. What is accepted is
what a tableau is meant to be, exactly as long as the label of column 0 is the one of right-hand sides
wherever the other conditions hold. Where only a repeat is in the way, the error names the first label that
equals an earlier one. -/
theorem create_accepts_iff (matrix : Grid α) (basic nonbasic : List String) :
    ((∃ t, create matrix basic nonbasic = .ok t) ↔
      Fits matrix basic nonbasic ∧ (basic ++ nonbasic).Nodup) ∧
    (((∃ t, create matrix basic nonbasic = .ok t) ↔ Conforms matrix basic nonbasic) ↔
      (Fits matrix basic nonbasic ∧ (basic ++ nonbasic).Nodup → nonbasic.head? = some rhsLabel)) ∧
    (Fits matrix basic nonbasic ∧ ¬ (basic ++ nonbasic).Nodup →
      ∃ label, create matrix basic nonbasic = .error (.duplicateLabel label) ∧
        FirstRepeat (basic ++ nonbasic) label) := by
  refine ⟨exists_create_iff, ?_, fun h => h.1.create_of_repeat h.2⟩
  rw [exists_create_iff, conforms_iff]
  constructor
  · exact fun h hchecked => (h.1 hchecked).2.1
  · exact fun hrhs => ⟨fun h => ⟨h.1, hrhs h, h.2⟩, fun h => ⟨h.1, h.2.2⟩⟩

-- Both "x1" and the second "x2" are repeats; the first of them in reading order is named.
theorem create_accepts_iff_repeat :
    let matrix : Grid Float := ⟨2, 4, #v[1, 0, 1, -1, 1, -1, 1, -1]⟩
    create matrix ["x1", "F"] ["RHS", "x2", "x1", "x2"] = .error (.duplicateLabel "x1") ∧
      FirstRepeat ["x1", "F", "RHS", "x2", "x1", "x2"] "x1" := by
  intro matrix
  have hfits : Fits matrix ["x1", "F"] ["RHS", "x2", "x1", "x2"] :=
    ⟨by decide, by decide, rfl, rfl, rfl⟩
  obtain ⟨label, herror, hfirst⟩ := (create_accepts_iff matrix _ _).2.2 ⟨hfits, by decide⟩
  have hnamed : create matrix ["x1", "F"] ["RHS", "x2", "x1", "x2"] = .error (.duplicateLabel "x1") := rfl
  obtain rfl : "x1" = label := TableauError.duplicateLabel.inj (Except.error.inj (hnamed.symm.trans herror))
  exact ⟨hnamed, hfirst⟩

-- The label of column 0 is taken for that of a variable, and the tableau is accepted.
theorem create_of_unlabelled_rhs : ∃ t : Tableau Float,
    create ⟨2, 2, #v[1, 0, 1, -1]⟩ ["x2", "F"] ["A", "x1"] = .ok t ∧
      ¬ Conforms (α := Float) ⟨2, 2, #v[1, 0, 1, -1]⟩ ["x2", "F"] ["A", "x1"] :=
  ⟨_, rfl, fun h => absurd h.rhs (by decide)⟩

end CuttingPlane.Tableau

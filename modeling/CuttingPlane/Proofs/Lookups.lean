import CuttingPlane.Tableau.Basic

/-!
# Looking values up

A valuation that was read off a list of names gives every one of these names its value.
-/

namespace CuttingPlane

namespace Valuation

variable {α β : Type} {key name : String}

theorem lookup_cons (key : String) (p : String × α) (ps : List (String × α)) :
    (p :: ps).lookup key = if key = p.1 then some p.2 else ps.lookup key := by
  obtain ⟨name, x⟩ := p
  by_cases h : key = name
  · simp [h]
  · simp [List.lookup_cons, h, beq_false_of_ne h]

theorem lookup_place (key name : String) (value : α) (ps : List (String × α)) :
    (place name value ps).lookup key = if key = name then some value else ps.lookup key := by
  induction ps with
  | nil => rw [place, lookup_cons]
  | cons p ps ih =>
    unfold place
    split
    · rw [lookup_cons]
    · split
      · rename_i hname
        rw [lookup_cons, lookup_cons, ← hname]
        split <;> rfl
      · rename_i hne
        rw [lookup_cons, lookup_cons, ih]
        by_cases h : key = p.1
        · rw [if_pos h, if_pos h, if_neg fun hkey => hne (hkey.symm.trans h)]
        · rw [if_neg h, if_neg h]

theorem get?_set (v : Valuation α) (key name : String) (value : α) :
    (v.set name value).get? key = if key = name then some value else v.get? key :=
  lookup_place key name value v.toList

theorem get?_map (f : α → β) (v : Valuation α) (key : String) :
    (v.map f).get? key = (v.get? key).map f := by
  simp only [get?, map]
  induction v.toList with
  | nil => rfl
  | cons p ps ih =>
    rw [List.map_cons, lookup_cons, lookup_cons, ih]
    split <;> rfl

-- A name that occurs again later in the list is set again, to the same value.
theorem get?_foldl_set (f : String → α) (names : List String) (v : Valuation α) (key : String) :
    ((names.map fun name => (name, f name)).foldl (fun v p => v.set p.1 p.2) v).get? key =
      if key ∈ names then some (f key) else v.get? key := by
  induction names generalizing v with
  | nil => simp
  | cons name names ih =>
    rw [List.map_cons, List.foldl_cons, ih, get?_set]
    by_cases hmem : key ∈ names
    · simp [hmem]
    · by_cases hname : key = name <;> simp [hmem, hname]

theorem get?_ofList (f : String → α) {names : List String} (h : name ∈ names) :
    (ofList (names.map fun name => (name, f name))).get? name = some (f name) := by
  rw [ofList, get?_foldl_set, if_pos h]

end Valuation

theorem Tableau.get?_solution {α : Type} [Scalar α] {t : Tableau α} {name : String}
    (h : name ∈ t.decision) : t.solution.get? name = some (t.value name) :=
  Valuation.get?_ofList t.value h

end CuttingPlane

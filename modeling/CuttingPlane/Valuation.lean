/-!
# Valuations

Values by name, each name once, in the order of the names. A name that is set twice keeps the later
value.
-/

namespace CuttingPlane

/-- Values by name, the names strictly ascending. Names are compared character by character. -/
structure Valuation (α : Type) where
  toList : List (String × α)
  ascending : toList.Pairwise fun p q => p.1 < q.1

namespace Valuation

variable {α : Type}

def empty : Valuation α := ⟨[], .nil⟩

/-- Sets a name in an ascending list. -/
def place (name : String) (value : α) : List (String × α) → List (String × α)
  | [] => [(name, value)]
  | p :: ps =>
    if name < p.1 then (name, value) :: p :: ps
    else if name = p.1 then (name, value) :: ps
    else p :: place name value ps

theorem lt_of_not_lt_of_ne {a b : String} (h : ¬ a < b) (hne : a ≠ b) : b < a := by
  rcases Std.lt_trichotomy a b with h' | h' | h'
  · exact absurd h' h
  · exact absurd h' hne
  · exact h'

theorem lt_place {low name : String} {value : α} {ps : List (String × α)} (hname : low < name)
    (hps : ∀ p ∈ ps, low < p.1) : ∀ p ∈ place name value ps, low < p.1 := by
  induction ps with
  | nil => simpa [place] using hname
  | cons p ps ih =>
    have hp : low < p.1 := hps p (List.mem_cons_self ..)
    have hrest : ∀ q ∈ ps, low < q.1 := fun q hq => hps q (List.mem_cons_of_mem _ hq)
    unfold place
    split
    · intro q hq
      rcases List.mem_cons.1 hq with rfl | hq
      · exact hname
      · exact hps q hq
    · split
      · intro q hq
        rcases List.mem_cons.1 hq with rfl | hq
        · exact hname
        · exact hrest q hq
      · intro q hq
        rcases List.mem_cons.1 hq with rfl | hq
        · exact hp
        · exact ih hrest q hq

theorem ascending_place (name : String) (value : α) {ps : List (String × α)}
    (h : ps.Pairwise fun p q => p.1 < q.1) : (place name value ps).Pairwise fun p q => p.1 < q.1 := by
  induction ps with
  | nil => simp [place]
  | cons p ps ih =>
    obtain ⟨hp, hps⟩ := List.pairwise_cons.1 h
    unfold place
    split
    · rename_i hlt
      refine List.pairwise_cons.2 ⟨?_, h⟩
      intro q hq
      rcases List.mem_cons.1 hq with rfl | hq
      · exact hlt
      · exact String.lt_trans hlt (hp q hq)
    · split
      · rename_i heq
        refine List.pairwise_cons.2 ⟨?_, hps⟩
        intro q hq
        have hlow := hp q hq
        rwa [← heq] at hlow
      · rename_i hlt hne
        exact List.pairwise_cons.2 ⟨lt_place (lt_of_not_lt_of_ne hlt hne) hp, ih hps⟩

def set (v : Valuation α) (name : String) (value : α) : Valuation α :=
  ⟨place name value v.toList, ascending_place name value v.ascending⟩

/-- The valuation that sets the names one after the other. -/
def ofList (ps : List (String × α)) : Valuation α :=
  ps.foldl (fun v p => v.set p.1 p.2) empty

def get? (v : Valuation α) (name : String) : Option α :=
  v.toList.lookup name

/-- Changes every value and keeps the names. -/
def map {β : Type} (f : α → β) (v : Valuation α) : Valuation β :=
  ⟨v.toList.map fun p => (p.1, f p.2), by simpa [List.pairwise_map] using v.ascending⟩

end Valuation
end CuttingPlane

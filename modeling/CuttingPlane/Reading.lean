import CuttingPlane.Fault

/-!
# Readings

A step that looks something up by its position may find nothing there. Such a step is written once, for every
reading, and the reading says what becomes of a lookup without a find: a stand-in takes its place, or it is a
fault. Searches, pivots and cuts are carried out with stand-ins; with checks they would be no different.
-/

namespace CuttingPlane

/-- What becomes of lookups. -/
structure Reading (m : Type → Type) where
  /-- What a lookup gives. The stand-in is for one that found nothing. -/
  get {β : Type} (standIn : β) (found : Option β) : m β

namespace Reading

/-- A stand-in takes the place of what is not found. -/
def total : Reading Id where
  get standIn found := found.getD standIn

/-- What is not found is a fault. -/
def checked : Reading (Except Fault) where
  get _ found :=
    match found with
    | some b => .ok b
    | none => .error .outOfRange

theorem checked_get {β : Type} {standIn b : β} {found : Option β} (h : found = some b) :
    checked.get standIn found = .ok b := by
  rw [h]
  rfl

theorem checked_get_none {β : Type} {standIn : β} {found : Option β} (h : found = none) :
    checked.get standIn found = .error .outOfRange := by
  rw [h]
  rfl

theorem checked_getElem?_eq {β : Type} (xs : List β) (i : Nat) (standIn : β) : checked.get standIn xs[i]? =
    if i < xs.length then .ok (xs.getD i standIn) else .error .outOfRange := by
  split
  · rename_i h
    rw [List.getD_eq_getElem?_getD, List.getElem?_eq_getElem h]
    rfl
  · rename_i h
    exact checked_get_none (List.getElem?_eq_none (Nat.le_of_not_lt h))

theorem checked_getElem? {β : Type} {xs : List β} {i : Nat} (standIn : β) (h : i < xs.length) :
    checked.get standIn xs[i]? = .ok (xs.getD i standIn) :=
  (checked_getElem?_eq xs i standIn).trans (if_pos h)

end Reading

/-! ### Steps and scans -/

theorem ok_bind {φ β γ : Type} (b : β) (f : β → Except φ γ) : Except.ok b >>= f = f b := rfl

section Scans

variable {β γ : Type} {m : Type → Type} [Monad m] [LawfulMonad m] {xs : List β}

theorem findM?_eq_pure {p : β → m Bool} {q : β → Bool} (h : ∀ x ∈ xs, p x = pure (q x)) :
    xs.findM? p = pure (xs.find? q) := by
  induction xs with
  | nil => rfl
  | cons x xs ih =>
    have hx := h x (List.mem_cons_self ..)
    have hxs := ih fun y hy => h y (List.mem_cons_of_mem _ hy)
    rw [List.findM?, hx, pure_bind, List.find?_cons]
    cases q x with
    | true => rfl
    | false => exact hxs

theorem filterMapM_eq_pure {f : β → m (Option γ)} {g : β → Option γ} (h : ∀ x ∈ xs, f x = pure (g x)) :
    xs.filterMapM f = pure (xs.filterMap g) := by
  induction xs with
  | nil => rfl
  | cons x xs ih =>
    have hx := h x (List.mem_cons_self ..)
    have hxs := ih fun y hy => h y (List.mem_cons_of_mem _ hy)
    rw [List.filterMapM_cons, hx, hxs, pure_bind, List.filterMap_cons]
    cases g x with
    | none => rfl
    | some y => exact pure_bind _ _

theorem mapM_eq_pure {f : β → m γ} {g : β → γ} (h : ∀ x ∈ xs, f x = pure (g x)) :
    xs.mapM f = pure (xs.map g) := by
  induction xs with
  | nil => rfl
  | cons x xs ih =>
    have hx := h x (List.mem_cons_self ..)
    have hxs := ih fun y hy => h y (List.mem_cons_of_mem _ hy)
    rw [List.mapM_cons, hx, hxs, pure_bind, pure_bind, List.map_cons]

end Scans

end CuttingPlane

/-!
# Grids

Rectangular tables of numbers, stored column after column. A grid is built from a function of row and
column, read with `get`, and two grids of one shape are equal when `get` agrees on every position.
-/

namespace CuttingPlane

/-- A table of `height` rows and `width` columns. The entry in row `i` and column `j` stands at
`j * height + i`. -/
structure Grid (α : Type) where
  height : Nat
  width : Nat
  entries : Vector α (height * width)
deriving DecidableEq

namespace Grid

variable {α : Type}

theorem index_lt {h w i j : Nat} (hi : i < h) (hj : j < w) : j * h + i < h * w := by
  have hstep : (j + 1) * h ≤ w * h := Nat.mul_le_mul_right h hj
  have hexpand : (j + 1) * h = j * h + h := Nat.succ_mul j h
  have hcomm : h * w = w * h := Nat.mul_comm h w
  omega

/-- The grid whose entry in row `i` and column `j` is `f i j`. -/
def tabulate (h w : Nat) (f : Nat → Nat → α) : Grid α where
  height := h
  width := w
  entries := Vector.ofFn fun k => f (k.val % h) (k.val / h)

/-- The grid whose entry in row `i` and column `j` is what `f i j` comes to. -/
def tabulateM {m : Type → Type} [Monad m] (h w : Nat) (f : Nat → Nat → m α) : m (Grid α) :=
  return ⟨h, w, ← Vector.ofFnM fun k : Fin (h * w) => f (k.val % h) (k.val / h)⟩

/-- The entry in row `i` and column `j`, if the grid has it. -/
def get? (g : Grid α) (i j : Nat) : Option α :=
  if h : i < g.height ∧ j < g.width then
    have := index_lt h.1 h.2
    some g.entries[j * g.height + i]
  else none

/-- The entry in row `i` and column `j`; zero outside the grid. -/
def get [Zero α] (g : Grid α) (i j : Nat) : α := (g.get? i j).getD 0

def row [Zero α] (g : Grid α) (i : Nat) : List α :=
  (List.range g.width).map fun j => g.get i j

def rows [Zero α] (g : Grid α) : List (List α) :=
  (List.range g.height).map g.row

/-- The grid with `row` put in above row `position`. -/
def insertRow [Zero α] (g : Grid α) (position : Nat) (row : List α) : Grid α :=
  tabulate (g.height + 1) g.width fun i j =>
    if i < position then g.get i j
    else if i = position then row.getD j 0
    else g.get (i - 1) j

/-- The grid of the given shape with these entries, column after column, if their number fits. -/
def ofColumns? (entries : List α) (h w : Nat) : Option (Grid α) :=
  if fits : entries.length = h * w then some ⟨h, w, ⟨entries.toArray, by simpa using fits⟩⟩ else none

/-- The grid of the given shape with these entries, row after row; missing ones are zero. -/
def ofRows [Zero α] (entries : List α) (h w : Nat) : Grid α :=
  let cells := entries.toArray
  tabulate h w fun i j => cells.getD (i * w + j) 0

@[simp] theorem height_tabulate (h w : Nat) (f : Nat → Nat → α) : (tabulate h w f).height = h := rfl

@[simp] theorem width_tabulate (h w : Nat) (f : Nat → Nat → α) : (tabulate h w f).width = w := rfl

theorem tabulateM_eq_pure {m : Type → Type} [Monad m] [LawfulMonad m] {h w : Nat}
    {f : Nat → Nat → m α} {g : Nat → Nat → α} (hf : ∀ i j, i < h → j < w → f i j = pure (g i j)) :
    tabulateM h w f = pure (tabulate h w g) := by
  have hcells : (fun k : Fin (h * w) => f (k.val % h) (k.val / h)) =
      fun k => pure (g (k.val % h) (k.val / h)) := by
    funext k
    have hpos : 0 < h := Nat.pos_of_mul_pos_right (Nat.zero_lt_of_lt k.isLt)
    exact hf _ _ (Nat.mod_lt _ hpos) (Nat.div_lt_of_lt_mul k.isLt)
  rw [tabulateM, hcells, Vector.ofFnM_pure, pure_bind]
  rfl

section

variable [Zero α]

theorem get?_eq_some {g : Grid α} {i j : Nat} (hi : i < g.height) (hj : j < g.width) :
    g.get? i j = some (g.get i j) := by
  simp [get, get?, hi, hj]

theorem get_tabulate {h w i j : Nat} (f : Nat → Nat → α) (hi : i < h) (hj : j < w) :
    (tabulate h w f).get i j = f i j := by
  have hpos : 0 < h := by omega
  have hmod : (j * h + i) % h = i := by
    rw [Nat.mul_comm, Nat.mul_add_mod]
    exact Nat.mod_eq_of_lt hi
  have hdiv : (j * h + i) / h = j := by
    rw [Nat.mul_comm, Nat.mul_add_div hpos, Nat.div_eq_of_lt hi, Nat.add_zero]
  simp [get, get?, tabulate, hi, hj, hmod, hdiv]

theorem get_insertRow (g : Grid α) (position : Nat) (row : List α) {i j : Nat}
    (hi : i < g.height + 1) (hj : j < g.width) :
    (g.insertRow position row).get i j =
      if i < position then g.get i j
      else if i = position then row.getD j 0
      else g.get (i - 1) j :=
  get_tabulate _ hi hj

theorem get_of_height_le {g : Grid α} {i : Nat} (j : Nat) (h : g.height ≤ i) : g.get i j = 0 := by
  have : ¬ i < g.height := by omega
  simp [get, get?, this]

theorem get_of_width_le {g : Grid α} {j : Nat} (i : Nat) (h : g.width ≤ j) : g.get i j = 0 := by
  have : ¬ j < g.width := by omega
  simp [get, get?, this]

@[simp] theorem length_row (g : Grid α) (i : Nat) : (g.row i).length = g.width := by
  simp [row]

@[simp] theorem length_rows (g : Grid α) : g.rows.length = g.height := by
  simp [rows]

/-- Grids of one shape with the same entries are equal. -/
theorem ext_get {g k : Grid α} (hh : g.height = k.height) (hw : g.width = k.width)
    (hget : ∀ i j, i < g.height → j < g.width → g.get i j = k.get i j) : g = k := by
  obtain ⟨h, w, a⟩ := g
  obtain ⟨h', w', b⟩ := k
  simp only at hh hw hget
  subst hh hw
  congr 1
  ext n hn
  have hpos : 0 < h := by
    rcases Nat.eq_zero_or_pos h with h0 | h0
    · simp [h0] at hn
    · exact h0
  have hi : n % h < h := Nat.mod_lt n hpos
  have hj : n / h < w := Nat.div_lt_of_lt_mul hn
  have hn' : n / h * h + n % h = n := by
    rw [Nat.mul_comm]
    exact Nat.div_add_mod n h
  have key := hget (n % h) (n / h) hi hj
  simpa [get, get?, hi, hj, hn'] using key

end

end Grid
end CuttingPlane

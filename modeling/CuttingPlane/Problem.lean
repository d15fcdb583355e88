import CuttingPlane.Solve

/-!
# Production problems

Products are made from resources: resource `i` is available up to `supply[i]`, one unit of product `j`
uses `consumption[i][j]` of it and earns `profit[j]`. What is sought are amounts of the products, not
negative, that earn as much as possible.
-/

namespace CuttingPlane

structure Problem (α : Type) where
  supply : List α
  consumption : List (List α)
  profit : List α
deriving DecidableEq

namespace Problem

variable {α : Type}

def products (p : Problem α) : Nat := p.profit.length

def resources (p : Problem α) : Nat := p.supply.length

/-- The name of product `j`, counted from one, or of a slack variable after the last product. -/
def variableName (j : Nat) : String := s!"x{j}"

variable [Scalar α]

/-- What the amounts of the products earn. The sum starts from minus zero, so that a sum of nothing
is minus zero. -/
def income (p : Problem α) (amounts : List α) : α :=
  (p.profit.zipWith (· * ·) amounts).foldl (· + ·) (-0)

end Problem

/-! ### The starting tableau -/

namespace Reading

variable {m : Type → Type} [Monad m] (read : Reading m) {α : Type} [Scalar α]

/-- The entry in row `i` and column `j` of the starting tableau: a row per resource, and the negated
profits at the bottom. -/
def startingEntry (p : Problem α) (i j : Nat) : m α := do
  if i = p.resources then
    match j with
    | 0 => return 0
    | j + 1 => return -(← read.get 0 p.profit[j]?)
  else
    match j with
    | 0 => read.get 0 p.supply[i]?
    | j + 1 => read.get 0 (← read.get [] p.consumption[i]?)[j]?

/-- The starting tableau: the products are nonbasic, and every resource has a slack variable, named
after the products, that is basic. -/
def startingTableau (p : Problem α) : m (Except TableauError (Tableau α)) := do
  let k := p.products
  let n := p.resources
  if p.consumption.length ≠ n then return .error (.rowLabels p.consumption.length n)
  else
    match p.consumption.findIdx? fun row => row.length ≠ k with
    | some i => return .error (.raggedConsumption i (p.consumption.getD i []).length k)
    | none =>
      let matrix ← Grid.tabulateM (n + 1) (k + 1) (read.startingEntry p)
      return Tableau.create matrix
        ((List.range n).map (fun i => Problem.variableName (k + i + 1)) ++ [objectiveLabel])
        (rhsLabel :: (List.range k).map fun j => Problem.variableName (j + 1))

end Reading

namespace Problem

variable {α : Type} [Scalar α]

def startingEntry (p : Problem α) (i j : Nat) : α := (Reading.total.startingEntry p i j).run

def tableau (p : Problem α) : Except TableauError (Tableau α) := (Reading.total.startingTableau p).run

theorem startingEntry_eq (p : Problem α) (i j : Nat) : p.startingEntry i j =
    if i = p.resources then
      match j with
      | 0 => 0
      | j + 1 => -p.profit.getD j 0
    else
      match j with
      | 0 => p.supply.getD i 0
      | j + 1 => (p.consumption.getD i []).getD j 0 := by
  cases j <;> rfl

theorem tableau_eq (p : Problem α) : p.tableau =
    if p.consumption.length ≠ p.resources then .error (.rowLabels p.consumption.length p.resources)
    else
      match p.consumption.findIdx? fun row => row.length ≠ p.products with
      | some i => .error (.raggedConsumption i (p.consumption.getD i []).length p.products)
      | none =>
        Tableau.create (.tabulate (p.resources + 1) (p.products + 1) p.startingEntry)
          ((List.range p.resources).map (fun i => variableName (p.products + i + 1)) ++ [objectiveLabel])
          (rhsLabel :: (List.range p.products).map fun j => variableName (j + 1)) := by
  have hmatrix : Grid.tabulateM (p.resources + 1) (p.products + 1) (Reading.total.startingEntry p) =
      Grid.tabulate (p.resources + 1) (p.products + 1) p.startingEntry :=
    Grid.tabulateM_eq_pure (m := Id) fun _ _ _ _ => rfl
  rw [← hmatrix]
  rfl

/-- Solves a problem in whole numbers with the usual options. -/
def solve (p : Problem Float) : Except TableauError (Except Fault (Solution Float)) :=
  p.tableau.map fun t => t.solveByDefault.result

end Problem
end CuttingPlane

import CuttingPlane.Proofs.Histories
import CuttingPlane.Proofs.Requests

/-!
# Snapshots as a log

The snapshots of a solve can be replayed by someone who has only them. Each comes out of the one before by
the pivot or by the cut that its title names, there is one snapshot per cut, and the values of an optimum
stand in the last one.
-/

namespace CuttingPlane

variable {α : Type}

namespace Snapshot

/-- Whether the title tells of a cut. -/
def showsCut (s : Snapshot α) : Bool := "Gomory cut".toList.isPrefixOf s.title.toList

section Reading

variable [Scalar α]

def value (s : Snapshot α) (name : String) : α :=
  match s.basic.findIdx? (· == name) with
  | some i => s.matrix.get i 0
  | none => 0

def values (s : Snapshot α) (names : List String) : Valuation α :=
  .ofList (names.map fun name => (name, s.value name))

def objective (s : Snapshot α) : α := s.matrix.get (s.matrix.height - 1) 0

end Reading
end Snapshot

/-! ### Titles -/

namespace Event

theorem snapshots_cons (e : Event α) (events : List (Event α)) :
    snapshots (e :: events) = e.snapshot?.toList ++ snapshots events := by
  unfold snapshots
  rw [List.filterMap_cons]
  cases e.snapshot? <;> rfl

theorem snapshots_append (past more : List (Event α)) :
    snapshots (past ++ more) = snapshots past ++ snapshots more := List.filterMap_append

theorem showsCut_of_snapshot? {e : Event α} {s : Snapshot α} (h : e.snapshot? = some s) :
    s.showsCut = e.isCut := by
  cases e with
  | pivoted r s entering leaving after =>
    have hstart : toString "Pivot on row " = "Pivot on row " := rfl
    obtain rfl := Option.some.inj h
    simp [isCut, Snapshot.showsCut, Snapshot.ofTableau, hstart, List.isPrefixOf]
  | cut source label row after =>
    have hstart : toString "Gomory cut from " = "Gomory cut from " := rfl
    obtain rfl := Option.some.inj h
    simp [isCut, Snapshot.showsCut, Snapshot.ofTableau, hstart]
  | _ => cases h

theorem isCut_of_snapshot?_eq_none {e : Event α} (h : e.snapshot? = none) : e.isCut = false := by
  cases e with
  | cut => cases h
  | _ => rfl

theorem countP_snapshots (events : List (Event α)) :
    (snapshots events).countP Snapshot.showsCut = cutsIn events := by
  induction events with
  | nil => rfl
  | cons e events ih =>
    rw [snapshots_cons, List.countP_append, ih, cutsIn, cutsIn, List.countP_cons, Nat.add_comm]
    cases hsnapshot : e.snapshot? with
    | none => simp [isCut_of_snapshot?_eq_none hsnapshot]
    | some s => simp [List.countP_singleton, showsCut_of_snapshot? hsnapshot]

end Event

namespace Tableau

end Tableau

/-! ### Logs of solves -/

section Logs

variable [Scalar α] {ε : α} {t : Tableau α}

theorem Tells.decision_eq {events : List (Event α)} (h : Tells ε t events) :
    (t.replay events).decision = t.decision :=
  h.replay_induction (P := fun _ u => u.decision = t.decision) (fun _ _ _ _ _ _ _ => id)
    (fun _ _ _ => id) 0 rfl

namespace Tableau

variable {options : Options α} {flag : StopFlag α} {kept : Solution α}

end Tableau
end Logs
end CuttingPlane

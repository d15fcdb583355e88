import CuttingPlane.Event.Basic

/-!
# Stop flags

A request to stop a solve that others may raise at any moment. The moment is given by the history of
the solve: the flag is a question to the events so far, and once raised it stays so.
-/

namespace CuttingPlane

/-- Whether a solve is asked to stop, from its history so far. -/
structure StopFlag (α : Type) where
  raised : List (Event α) → Bool
  stays : ∀ past more, raised past = true → raised (past ++ more) = true

namespace StopFlag

variable {α : Type}

def never : StopFlag α where
  raised _ := false
  stays _ _ h := h

/-- Raised once there are `n` events; with `n = 0` before the solve begins. -/
def afterEvents (n : Nat) : StopFlag α where
  raised past := n ≤ past.length
  stays past more h := by
    simp only [decide_eq_true_eq, List.length_append] at h ⊢
    omega

def atOnce : StopFlag α := afterEvents 0

/-- Raised while the sink takes in the `n`-th snapshot; with `n = 0` before the solve begins. -/
def afterSnapshots (sink : Sink) (n : Nat) : StopFlag α where
  raised past := n ≤ (sink.received past).length
  stays past more h := by
    simp only [decide_eq_true_eq, Sink.received_append, List.length_append] at h ⊢
    omega

end StopFlag
end CuttingPlane

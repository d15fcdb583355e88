import CuttingPlane.Event.Basic
import CuttingPlane.Grid.Text
import CuttingPlane.Log

/-!
# Notices of events

The wording of the events and how much each of them matters.
-/

namespace CuttingPlane

/-- What there is to say of an event. -/
def Event.notice : Event Float → Notice
  | pivoting r s entering leaving element =>
    .of .debug s!"Pivot on ({r}, {s}) = {Decimal.plainText element}: {entering} enters, {leaving} leaves"
  | zeroElement r s => .of .error s!"Zero pivot element at ({r}, {s})"
  | pivoted _ _ _ _ after => .of .trace s!"Tableau after pivot:\n{after.text}"
  | repairing r => .of .debug s!"Restoring feasibility of row {r}"
  | stuck r label rhs =>
    .of .debug s!"Row {r} ({label}) has negative right-hand side {Decimal.plainText rhs} and no negative coefficient"
  | repairsSpent r => .of .warn s!"Pivot budget exhausted while restoring row {r}"
  | ratio r q => .of .trace s!"Ratio of row {r}: {Decimal.plainText q}"
  | unlimited s label => .of .info s!"Column {s} ({label}) is unbounded"
  | pivotsSpent limit => .of .warn s!"No optimum within {limit} pivots"
  | optimum t => .of .debug s!"Optimal tableau:\n{t.text}"
  | noCut source => .of .debug s!"Row of {source} is integral, no cut"
  | cut source label row _ =>
    ⟨.debug, (Grid.ofRows row 1 row.length).bracketed?.map fun drawing => s!"Added cut {label} from {source}: {drawing}"⟩
  | round n => .of .info s!"Iteration: {n}"
  | cancelled cuts => .of .info s!"Solve cancelled after {cuts} cuts"
  | stalled cuts => .of .warn s!"Simplex pass stalled after {cuts} cuts"
  | solved cuts => .of .info s!"Integer solution found after {cuts} cuts"
  | fractional label part => .of .info s!"{label} is fractional ({Decimal.plainText part}), adding a cut"
  | uncut reason => .of .info reason.message
  | cutsSpent limit => .of .warn s!"No integer solution within {limit} cuts"

end CuttingPlane

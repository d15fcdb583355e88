import CuttingPlane.Main
import CuttingPlane.Proofs.Passes
import CuttingPlane.Proofs.Acceptance
import CuttingPlane.Proofs.Rounds
import CuttingPlane.Proofs.Histories
import CuttingPlane.Proofs.Forms
import CuttingPlane.Proofs.Doubles
import CuttingPlane.Proofs.Equations
import CuttingPlane.Proofs.Exact
import CuttingPlane.Proofs.Feasible
import CuttingPlane.Proofs.Verdicts
import CuttingPlane.Proofs.Bases
import CuttingPlane.Proofs.Bookkeeping
import CuttingPlane.Proofs.Separation
import CuttingPlane.Proofs.WholePoints
import CuttingPlane.Proofs.Lookups
import CuttingPlane.Proofs.Start
import CuttingPlane.Proofs.Layouts
import CuttingPlane.Proofs.Relaxations
import CuttingPlane.Proofs.Accuracy
import CuttingPlane.Proofs.Optimality
import CuttingPlane.Proofs.Answers
import CuttingPlane.Proofs.Snapping
import CuttingPlane.Proofs.WholePlans
import CuttingPlane.Proofs.Faults
import CuttingPlane.Proofs.Breakdowns
import CuttingPlane.Proofs.Pivots
import CuttingPlane.Proofs.Interruptions
import CuttingPlane.Proofs.Caps
import CuttingPlane.Proofs.Limits
import CuttingPlane.Proofs.FirstVertex
import CuttingPlane.Proofs.CutNames
import CuttingPlane.Proofs.Budgets
import CuttingPlane.Proofs.Certificates
import CuttingPlane.Proofs.Ascent
import CuttingPlane.Proofs.Refusals
import CuttingPlane.Proofs.Unrepairable
import CuttingPlane.Proofs.Choices
import CuttingPlane.Proofs.Nearest
import CuttingPlane.Proofs.Fractions
import CuttingPlane.Proofs.Digits
import CuttingPlane.Proofs.Numerals
import CuttingPlane.Proofs.Tokens
import CuttingPlane.Proofs.Documents
import CuttingPlane.Proofs.RoundTrips

import LogBarrier.Metered
import LogBarrier.Scalar
import LogBarrier.Status

/-!
# The state of a run

What the outer method knows after each of its iterations, and what observers and reports are shown.
Values and gradients are those of the caller's objective, without the barrier.
-/

namespace LogBarrier

structure State (α : Type) where
  /-- Completed outer iterations. -/
  iteration : Nat
  mu : α
  /-- The gradient tolerance of the next subproblem. -/
  gtol : α
  /-- The step tolerance of the next subproblem. -/
  stol : α
  /-- The iterations of the last subproblem. -/
  innerIterations : Nat
  innerConverged : Bool
  x : Array α
  gradient : Array α
  value : α
  /-- The norm of the projected gradient at `x`. -/
  gnorm : α
  /-- The norm of the last outer step. -/
  snorm : α
  evaluations : Tally
  converged : Bool
  status : Status
  /-- The least `gnorm` so far. -/
  bestGnorm : α
  /-- The latest outer iterations, all solved at the floor of `mu`, that did not improve it. -/
  stall : Nat

namespace State

/-- The state before the first run. -/
def initial {α : Type} [Scalar α] : State α where
  iteration := 0
  mu := 0
  gtol := 0
  stol := 0
  innerIterations := 0
  innerConverged := false
  x := #[]
  gradient := #[]
  value := Scalar.nan
  gnorm := Scalar.inf
  snorm := Scalar.inf
  evaluations := 0
  converged := false
  status := .notStarted
  bestGnorm := Scalar.inf
  stall := 0

end State

end LogBarrier

import LogBarrier.Box
import LogBarrier.Message
import LogBarrier.Objective

/-!
# Subproblem solvers

What the outer method asks of a solver for one subproblem: a point of the box that is nearly
stationary for the function it is shown, within given tolerances. A solver may keep a state of its
own between solves and may update the secant that is lent to it.
-/

namespace LogBarrier

structure Tolerances (α : Type) where
  /-- The norm of the projected gradient at which a solve has converged. -/
  gradient : α
  /-- The norm of a step at which a solve ends. -/
  step : α
  maxIterations : Nat

/-- How a solve ended. -/
structure SolveReport where
  iterations : Nat
  converged : Bool
  deriving Repr, DecidableEq

/-- What a solve leaves behind, also when it fails. -/
structure Solved (α σ τ : Type) where
  x : Array α
  memory : σ
  secant : Option τ
  notes : List (Message α)
  outcome : Except Failure SolveReport

/-- A solver with states of type `σ` that works with secants of type `τ`. -/
structure Solver (α σ τ : Type) where
  name : String
  solve : {n : Nat} → Oracle α n → Box α n → Tolerances α → Vector α n → σ → Option τ →
    Metered α (Solved α σ τ)

end LogBarrier

import LogBarrier.Descent.QuasiNewton
import LogBarrier.Options
import LogBarrier.Schedule
import LogBarrier.Secant.LimitedMemory
import LogBarrier.State

/-!
# The method

A barrier method holds its options, the solver of its subproblems, perhaps a secant for that solver,
the schedules of its three parameters and the state of its last run.
-/

namespace LogBarrier

/-- The barrier parameter and the two tolerances of the subproblem solver. -/
structure Schedules (α : Type) where
  mu : Schedule α
  gtol : Schedule α
  stol : Schedule α

namespace Schedules

variable {α : Type}

def ofOptions (o : Options α) : Schedules α where
  mu := .start o.muMax o.rho o.muMin
  gtol := .start o.initialGtol o.gtolRate o.minGtol
  stol := .start o.initialStol o.stolRate o.minStol

def reset (s : Schedules α) : Schedules α := ⟨s.mu.reset, s.gtol.reset, s.stol.reset⟩

def advance [Scalar α] (s : Schedules α) : Schedules α :=
  ⟨s.mu.advance, s.gtol.advance, s.stol.advance⟩

end Schedules

/-- The line search that the options describe. -/
def LineSearch.ofOptions {α : Type} (o : Options α) : LineSearch α :=
  ⟨o.armijo, o.backtrackingRate, o.maxBacktracks⟩

/-- The solver of a kind, with the line search of the options. -/
def SolverChoice.solver {α τ : Type} [Scalar α] [Secant α τ] (o : Options α) :
    SolverChoice → Solver α Unit τ
  | .spectral => .spectral (.ofOptions o)
  | .quasiNewton => .quasiNewton (.ofOptions o)

/-- The secant that a solver of a kind starts with. Only the quasi-Newton solver has one. -/
def SolverChoice.secant {α : Type} (memory : Nat) :
    SolverChoice → Except Failure (Option (LimitedMemory α))
  | .spectral => .ok none
  | .quasiNewton => (LimitedMemory.reserve memory).map some

structure Method (α σ τ : Type) where
  options : Options α
  solver : Solver α σ τ
  /-- The solver's own state. -/
  memory : σ
  secant : Option τ
  schedules : Schedules α
  state : State α

namespace Method

variable {α σ τ : Type}

/-- The method that valid options describe. -/
def ofOptions [Scalar α] (o : Options α) : Except Failure (Method α Unit (LimitedMemory α)) := do
  o.validate.mapError .error
  let c ← o.choice.mapError .error
  let secant ← c.secant o.secantMemory
  return {
    options := o
    solver := c.solver o
    memory := ()
    secant := secant
    schedules := .ofOptions o
    state := .initial }

def withSecant (M : Method α σ τ) (h : Option τ) : Method α σ τ := { M with secant := h }

def withSolver {σ' : Type} (M : Method α σ τ) (solver : Solver α σ' τ) (memory : σ') :
    Method α σ' τ :=
  { M with solver, memory }

end Method

end LogBarrier

import LogBarrier.Session

/-!
# Runs

A run minimises an objective over a box: it opens a session, then solves one subproblem after the
other, each from the point where the last one ended, until the projected gradient of the objective
itself is small, the method stalls at the least barrier parameter, or the iterations are used up.
-/

namespace LogBarrier

open Scalar

variable {α σ τ : Type} [Scalar α] {n : Nat}

/-- How a run ends at a state, if it does. -/
def Options.verdict? (o : Options α) (t : State α) : Option Status :=
  if t.gnorm ≤ o.gradientTolerance then some .converged
  else if o.maxStall ≤ t.stall then some .stalled
  else none

/-- The stopping rules for the subproblem that comes next. -/
def Method.tolerances (M : Method α σ τ) : Tolerances α :=
  ⟨M.state.gtol, M.state.stol, M.options.maxInner⟩

/-- The state after a subproblem whose outer step has the given norm. -/
def State.solved (t : State α) (report : SolveReport) (snorm : α) : State α :=
  { t with
    innerIterations := report.iterations
    innerConverged := report.converged
    snorm := snorm }

namespace Action

variable [Numeral α]

/-- Hands the next subproblem to the solver and projects where it ends. -/
def solveNext : Action α σ τ n Unit := do
  let s ← get
  let M := s.method
  let tol := M.tolerances
  note (.solving tol s.augmented.mu s.augmented.kappa)
  let start ← Action.of (sized n s.x)
  let r ← ask fun A => M.solver.solve A.oracle A.box tol start M.memory M.secant
  modify fun s => { s with
    x := r.x
    method := { s.method with memory := r.memory, secant := r.secant } }
  r.notes.forM fun m => note (.logged m)
  let report ← faulting (Action.of r.outcome)
  let x ← Action.of (sized n r.x)
  let x := s.augmented.box.project x
  modify fun s => { s with x := x.toArray }.mapState fun t => t.solved report (norm (x - start))
  if ¬ report.converged then
    note (.logged (.unconverged M.solver.name report.iterations M.state.mu tol.gradient))

/-- One outer iteration; answers how the run ends if it ends here. -/
def iterate : Action α σ τ n (Option Status) := do
  solveNext
  record (← get).x
  modify fun s => { s with gradient := s.method.state.gradient }
  let s ← get
  let t := s.method.state
  let verdict := s.method.options.verdict? t
  if verdict = some .stalled then note (.logged (.stalled t.stall t.mu))
  return verdict

/-- Iterates at most `left` times. -/
def loop : (left : Nat) → Action α σ τ n Status
  | 0 => return .iterationLimit
  | left + 1 => do
    match ← iterate with
    | some status => return status
    | none => loop left

/-- Records how the run ended. -/
def close (status : Status) : Action α σ τ n Status := do
  modify fun s => s.mapState fun t => { t with status, converged := status == .converged }
  let s ← get
  let t := s.method.state
  note (.logged (.finished status t.iteration t.gnorm))
  if 1 ≤ s.method.options.verbosity then write (Report.closing status)
  return status

/-- A whole run from the session's point. -/
def run : Action α σ τ n Status := do
  openRun
  let status ← loop (← get).method.options.maxOuter
  close status

end Action

namespace Method

variable [Secant α τ]

/-- The session that a run of the method from `x` begins with. Curvature of earlier runs is
forgotten. -/
def session (M : Method α σ τ) (f : Objective α) (B : Box α n) (x g : Array α) (sink : Sink) :
    Session α σ τ n where
  method := { M with secant := M.secant.map Secant.reset }
  augmented := .start f B M.options.muMax M.options.kappa M.options.linearDamping
  x := x
  gradient := g
  projected := (0 : Vector α n).toArray
  sink := sink
  journal := #[]

/-- Minimises `f` over `B` from `x`. -/
def run [Numeral α] (M : Method α σ τ) (f : Objective α) (B : Box α n) (x g : Array α)
    (sink : Sink) : EStateM.Result Failure (Session α σ τ n) Status :=
  Action.run (M.session f B x g sink)

end Method

end LogBarrier

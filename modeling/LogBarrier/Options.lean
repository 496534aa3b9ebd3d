import LogBarrier.Failure
import LogBarrier.Scalar
import LogBarrier.Text

/-!
# Options

The parameters of the method, their default values, and the checks that a method makes before it
accepts them. Checks are comparisons that `nan` fails. One of the options is the name of the solver
for the subproblems, in which capital and small letters are not told apart.
-/

namespace LogBarrier

open Scalar

/-! ## Solvers by name -/

/-- The kinds of solvers for subproblems. -/
inductive SolverChoice where
  | spectral
  | quasiNewton
  deriving Repr, DecidableEq

namespace SolverChoice

def names : List (String × SolverChoice) :=
  [("spectral_projected_gradient", spectral), ("spg", spectral),
   ("projected_quasi_newton", quasiNewton), ("quasi_newton", quasiNewton),
   ("lbfgs", quasiNewton)]

/-- The names are ASCII and hold no `k`, the one letter that a character outside ASCII lowers to;
so it is enough to lower ASCII letters. -/
def ofName? (s : String) : Option SolverChoice := names.lookup (s.map Char.toLower)

/-- What is wrong with a name that no solver has. -/
def unknown (s : String) : String := "Invalid subproblem solver type: " ++ s

end SolverChoice

/-! ## Parameters -/

structure Options (α : Type) where
  muMin : α
  muMax : α
  rho : α
  linearDamping : Bool
  kappa : α
  initialGtol : α
  gtolRate : α
  minGtol : α
  initialStol : α
  stolRate : α
  minStol : α
  gradientTolerance : α
  maxOuter : Nat
  maxInner : Nat
  maxStall : Nat
  verbosity : Nat
  printHeader : Bool
  solverName : String
  secantMemory : Nat
  armijo : α
  backtrackingRate : α
  maxBacktracks : Nat

namespace Options

variable {α : Type}

/-- The default options. -/
def standard [Scalar α] : Options α where
  muMin := 1e-8
  muMax := 1
  rho := 0.1
  linearDamping := true
  kappa := 1e-4
  initialGtol := 1e-2
  gtolRate := 0.1
  minGtol := 1e-8
  initialStol := 1e-8
  stolRate := 1
  minStol := 1e-12
  gradientTolerance := 1e-6
  maxOuter := 100
  maxInner := 1000
  maxStall := 5
  verbosity := 0
  printHeader := false
  solverName := "spectral_projected_gradient"
  secantMemory := 10
  armijo := 1e-4
  backtrackingRate := 0.5
  maxBacktracks := 60

/-! ## The subproblem solver -/

def cannotParse (option value : String) : Error :=
  .invalidOption option ("cannot parse '" ++ value ++ "'")

/-- The solver that `value` names, blanks around it apart. -/
def readChoice (value : String) : Except Error SolverChoice :=
  match SolverChoice.ofName? (Text.trim value) with
  | some c => .ok c
  | none => .error (cannotParse "subproblem_name" value)

/-- The solver that the options name. -/
def choice (o : Options α) : Except Error SolverChoice := readChoice o.solverName

/-! ## Checks -/

def check (option : String) (p : Prop) [Decidable p] (reason : String) : Except Error Unit :=
  if p then .ok () else .error (.invalidOption option reason)

def validate [Scalar α] (o : Options α) : Except Error Unit := do
  check "mu_min" (0 < o.muMin) "must be positive"
  check "mu_max" (o.muMin ≤ o.muMax) "must not be below mu_min"
  check "mu_max" (IsFinite o.muMax) "must be finite"
  check "rho" (0 < o.rho ∧ o.rho < 1) "must lie in (0, 1)"
  check "kappa_d" (0 < o.kappa ∧ IsFinite o.kappa) "must be positive"
  check "min_gtol" (0 < o.minGtol) "must be positive"
  check "initial_gtol" (o.minGtol ≤ o.initialGtol ∧ IsFinite o.initialGtol)
    "must be finite and not below min_gtol"
  check "gtol_shrink_rate" (0 < o.gtolRate ∧ o.gtolRate ≤ 1) "must lie in (0, 1]"
  check "min_stol" (0 < o.minStol) "must be positive"
  check "initial_stol" (o.minStol ≤ o.initialStol ∧ IsFinite o.initialStol)
    "must be finite and not below min_stol"
  check "stol_shrink_rate" (0 < o.stolRate ∧ o.stolRate ≤ 1) "must lie in (0, 1]"
  check "gradient_tolerance" (0 < o.gradientTolerance) "must be positive"
  check "max_inner_iterations" (1 ≤ o.maxInner) "must be at least 1"
  check "max_stall_iterations" (1 ≤ o.maxStall) "must be at least 1"
  discard o.choice
  check "secant_memory" (1 ≤ o.secantMemory) "must be at least 1"
  check "armijo_c1" (0 < o.armijo ∧ o.armijo < 1) "must lie in (0, 1)"
  check "backtracking_rate" (0 < o.backtrackingRate ∧ o.backtrackingRate < 1)
    "must lie in (0, 1)"
  check "max_backtracks" (1 ≤ o.maxBacktracks) "must be at least 1"

end Options

end LogBarrier

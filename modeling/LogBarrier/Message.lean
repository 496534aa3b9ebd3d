import LogBarrier.Decimal
import LogBarrier.Status

/-!
# Log messages

What the method tells about its progress, kept as data until it is rendered.
-/

namespace LogBarrier

inductive Message (α : Type) where
  | opened (n fixed : Nat) (mu gtol gnorm : α) (damping : Bool)
  | advanced (iteration : Nat) (mu gtol gnorm : α) (innerIterations damped : Nat)
  | searchFailed (solver : String) (iteration : Nat)
  | unconverged (solver : String) (iterations : Nat) (mu gtol : α)
  | stalled (iterations : Nat) (mu : α)
  | faulted (iteration : Nat)
  | finished (status : Status) (iterations : Nat) (gnorm : α)
  | stationarity (gnorm mu : α)
  | progress (iteration : Nat) (gnorm mu : α) (innerIterations : Nat)

namespace Message

variable {α : Type}

def level : Message α → String
  | opened .. | advanced .. | searchFailed .. => "DEBUG"
  | unconverged .. | stalled .. | faulted .. => "WARN"
  | finished .. | stationarity .. | progress .. => "INFO"

variable [Numeral α]

open Numeral (shortest)

def text : Message α → String
  | opened n fixed mu gtol gnorm damping =>
    s!"ipm: initialized n = {n} ({fixed} fixed), mu = " ++ shortest mu ++ ", gtol = "
      ++ shortest gtol ++ ", gnorm = " ++ shortest gnorm ++ s!", linear damping = {damping}"
  | advanced iteration mu gtol gnorm innerIterations damped =>
    s!"ipm: iter = {iteration}, mu = " ++ shortest mu ++ ", gtol = " ++ shortest gtol
      ++ ", gnorm = " ++ shortest gnorm ++ s!", subiter = {innerIterations}, damped = {damped}"
  | searchFailed solver iteration => s!"{solver}: line search failed at iteration {iteration}"
  | unconverged solver iterations mu gtol =>
    s!"{solver} stopped without converging after {iterations} iterations (mu = " ++ shortest mu
      ++ ", gtol = " ++ shortest gtol ++ ")"
  | stalled iterations mu =>
    s!"No progress in stationarity for {iterations} iterations at mu = " ++ shortest mu
  | faulted iteration => s!"Interior point method faulted at iteration {iteration}"
  | finished status iterations gnorm =>
    s!"Interior point method finished with status '{status.text}' after {iterations} iterations"
      ++ " (gnorm = " ++ shortest gnorm ++ ")"
  | stationarity gnorm mu =>
    "Initial stationarity: " ++ shortest gnorm ++ ", mu: " ++ shortest mu
  | progress iteration gnorm mu innerIterations =>
    s!"Iteration {iteration}: stationarity: " ++ shortest gnorm ++ ", mu: " ++ shortest mu
      ++ s!", subproblem iterations: {innerIterations}"

def line (m : Message α) : String := m.level ++ " " ++ m.text

end Message

end LogBarrier

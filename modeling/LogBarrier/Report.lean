import LogBarrier.Decimal
import LogBarrier.State

/-!
# The iteration report

A table with one row per state, in columns of fixed width that are filled from the right.
-/

namespace LogBarrier.Report

/-- The widths of the columns. -/
def widths : List Nat := [6, 10, 10, 14, 10, 10, 8, 8, 8]

/-- A cell after two spaces, at the right end of a column of width `w`. -/
def cell (w : Nat) (s : String) : String :=
  "  " ++ String.ofList (List.replicate (w - s.length) ' ') ++ s

/-- A line of the table. -/
def line (cells : List String) : String :=
  (widths.zipWith cell cells).foldl (· ++ ·) "" ++ "\n"

/-- The lines that open a report. -/
def title (solver : String) : String :=
  "\nInterior Point Method for Bound-Constrained Optimization\n  Subproblem solver: " ++ solver
    ++ "\n"

def header : String :=
  line ["iter", "mu", "gtol", "value", "gnorm", "snorm", "#fval", "#grad", "subiter"]

open Numeral (scientific)

variable {α : Type} [Numeral α]

/-- The row of a state. The initial state has no step and no subproblem to tell of. -/
def row (s : State α) : String :=
  let first := s.iteration = 0
  line [toString s.iteration, scientific 3 s.mu, scientific 3 s.gtol, scientific 6 s.value,
    scientific 3 s.gnorm, if first then "" else scientific 3 s.snorm,
    toString s.evaluations.values, toString s.evaluations.gradients,
    if first then "" else toString s.innerIterations]

/-- The line that closes a report. -/
def closing (status : Status) : String := "Optimization terminated: " ++ status.text ++ "\n"

end LogBarrier.Report

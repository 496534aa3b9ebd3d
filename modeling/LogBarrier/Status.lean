/-!
# Status of a run
-/

namespace LogBarrier

inductive Status where
  | notStarted
  | inProgress
  | converged
  | iterationLimit
  | stalled
  | faulted
  deriving Repr, DecidableEq

namespace Status

def all : List Status := [notStarted, inProgress, converged, iterationLimit, stalled, faulted]

def text : Status → String
  | notStarted => "Not Started"
  | inProgress => "In Progress"
  | converged => "Converged"
  | iterationLimit => "Iteration Limit Reached"
  | stalled => "Stalled"
  | faulted => "Faulted"

/-- Nothing is left to do. -/
def isTerminal : Status → Bool
  | notStarted | inProgress => false
  | converged | iterationLimit | stalled | faulted => true

end Status

end LogBarrier

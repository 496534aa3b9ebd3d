import LogBarrier.Journal

/-!
# Observers

Observers watch the states that a run shows and change nothing. A history keeps the schedules and
the stationarity measure of every state since a run was opened; a progress observer turns every
state into a log message.
-/

namespace LogBarrier

/-- What a history keeps of one state. -/
structure Record (α : Type) where
  iteration : Nat
  mu : α
  gtol : α
  stol : α
  gnorm : α

abbrev History (α : Type) := Array (Record α)

namespace History

variable {α : Type}

def record (s : State α) : Record α := ⟨s.iteration, s.mu, s.gtol, s.stol, s.gnorm⟩

/-- A state that opens a run starts the history afresh. -/
def observe (h : History α) : Event α → History α
  | .opened s => #[record s]
  | .advanced s => h.push (record s)
  | _ => h

end History

/-- What an event adds to the log when a progress observer watches. -/
def Event.progress {α : Type} : Event α → List (Message α)
  | .opened s => [.stationarity s.gnorm s.mu]
  | .advanced s => [.progress s.iteration s.gnorm s.mu s.innerIterations]
  | .logged m => [m]
  | _ => []

/-- What an event adds to the log when nobody watches. -/
def Event.messages {α : Type} : Event α → List (Message α)
  | .logged m => [m]
  | _ => []

end LogBarrier

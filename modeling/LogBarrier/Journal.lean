import LogBarrier.Message
import LogBarrier.Solver
import LogBarrier.State

/-!
# The journal of a run

Everything a run does that can be seen from outside, in order: its uses of the objective, the
subproblems it hands to the solver, the bytes it writes, the states it shows to observers and the
messages it logs.
-/

namespace LogBarrier

inductive Event (α : Type) where
  | called (c : Call α)
  /-- A subproblem is handed over, with its barrier parameter and damping coefficient. -/
  | solving (tol : Tolerances α) (mu kappa : α)
  /-- The report sink accepts some bytes. -/
  | wrote (bytes : List UInt8)
  /-- Observers are shown the state that opens a run. -/
  | opened (s : State α)
  /-- Observers are shown the state after an iteration. -/
  | advanced (s : State α)
  | logged (m : Message α)

namespace Event

variable {α : Type}

def call? : Event α → Option (Call α)
  | called c => some c
  | _ => none

def snapshot? : Event α → Option (State α)
  | opened s | advanced s => some s
  | _ => none

/-- The tolerances, barrier parameter and damping coefficient that a solver is handed. -/
def handed? : Event α → Option (Tolerances α × α × α)
  | solving tol mu kappa => some (tol, mu, kappa)
  | _ => none

def bytes : Event α → List UInt8
  | wrote bs => bs
  | _ => []

end Event

/-- The events of a run, oldest first. -/
abbrev Journal (α : Type) := Array (Event α)

namespace Journal

variable {α : Type}

def calls (j : Journal α) : List (Call α) := j.toList.filterMap Event.call?

def snapshots (j : Journal α) : List (State α) := j.toList.filterMap Event.snapshot?

/-- What the solver was handed, one entry for each of its calls. -/
def handed (j : Journal α) : List (Tolerances α × α × α) := j.toList.filterMap Event.handed?

/-- All that was written. -/
def output (j : Journal α) : List UInt8 := j.toList.flatMap Event.bytes

@[simp] theorem calls_append (j k : Journal α) : (j ++ k).calls = j.calls ++ k.calls := by
  simp [calls]

@[simp] theorem snapshots_append (j k : Journal α) :
    (j ++ k).snapshots = j.snapshots ++ k.snapshots := by
  simp [snapshots]

@[simp] theorem handed_append (j k : Journal α) : (j ++ k).handed = j.handed ++ k.handed := by
  simp [handed]

@[simp] theorem output_append (j k : Journal α) : (j ++ k).output = j.output ++ k.output := by
  simp [output]

@[simp] theorem calls_push (j : Journal α) (e : Event α) :
    calls (j.push e) = j.calls ++ e.call?.toList := by
  cases h : e.call? <;> simp [calls, h]

@[simp] theorem snapshots_push (j : Journal α) (e : Event α) :
    snapshots (j.push e) = j.snapshots ++ e.snapshot?.toList := by
  cases h : e.snapshot? <;> simp [snapshots, h]

@[simp] theorem handed_push (j : Journal α) (e : Event α) :
    handed (j.push e) = j.handed ++ e.handed?.toList := by
  cases h : e.handed? <;> simp [handed, h]

@[simp] theorem output_push (j : Journal α) (e : Event α) :
    output (j.push e) = j.output ++ e.bytes := by
  simp [output]

/-! ## Many events of one kind -/

@[simp] theorem views_called (j : Journal α) (cs : List (Call α)) :
    calls (j ++ cs.map Event.called) = j.calls ++ cs ∧
      snapshots (j ++ cs.map Event.called) = j.snapshots ∧
      handed (j ++ cs.map Event.called) = j.handed ∧
      output (j ++ cs.map Event.called) = j.output := by
  refine ⟨?_, ?_, ?_, ?_⟩
  · simp [calls, Function.comp_def, Event.call?]
  · simp [snapshots, Event.snapshot?]
  · simp [handed, Event.handed?]
  · simp [output, Event.bytes]

@[simp] theorem views_logged (j : Journal α) (ms : List (Message α)) :
    calls (j ++ ms.map Event.logged) = j.calls ∧
      snapshots (j ++ ms.map Event.logged) = j.snapshots ∧
      handed (j ++ ms.map Event.logged) = j.handed ∧
      output (j ++ ms.map Event.logged) = j.output := by
  refine ⟨?_, ?_, ?_, ?_⟩
  · simp [calls, Event.call?]
  · simp [snapshots, Event.snapshot?]
  · simp [handed, Event.handed?]
  · simp [output, Event.bytes]

@[simp] theorem views_wrote (j : Journal α) (pieces : List (List UInt8)) :
    calls (j ++ (pieces.map Event.wrote : List (Event α))) = j.calls ∧
      snapshots (j ++ (pieces.map Event.wrote : List (Event α))) = j.snapshots ∧
      handed (j ++ (pieces.map Event.wrote : List (Event α))) = j.handed ∧
      output (j ++ (pieces.map Event.wrote : List (Event α))) = j.output ++ pieces.flatten := by
  refine ⟨?_, ?_, ?_, ?_⟩
  · simp [calls, Event.call?]
  · simp [snapshots, Event.snapshot?]
  · simp [handed, Event.handed?]
  · simp [output, List.flatMap_map, Event.bytes]

end Journal

end LogBarrier

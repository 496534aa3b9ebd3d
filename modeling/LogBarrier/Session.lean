import LogBarrier.Augmented
import LogBarrier.Journal
import LogBarrier.Method
import LogBarrier.Report
import LogBarrier.Sink

/-!
# Sessions

A session is a method at work on one objective and box. Its actions change the point, the gradient
and the method's state, and write the journal; an action that fails keeps what it did before. The
two main actions of this module open a run and record the outcome of an outer iteration.
-/

namespace LogBarrier

open Scalar

structure Session (α σ τ : Type) (n : Nat) where
  method : Method α σ τ
  augmented : Augmented α n
  x : Array α
  gradient : Array α
  /-- The latest projection of a gradient step, from which the stationarity measure is taken. -/
  projected : Array α
  sink : Sink
  journal : Journal α

/-- A change of a session that may fail. -/
abbrev Action (α σ τ : Type) (n : Nat) := EStateM Failure (Session α σ τ n)

namespace Session

variable {α σ τ β : Type} {n : Nat}

/-- Adds an event to the journal. -/
def log (e : Event α) (s : Session α σ τ n) : Session α σ τ n :=
  { s with journal := s.journal.push e }

/-- Takes note of a metered computation. -/
def charge (m : Metered α β) (s : Session α σ τ n) : Session α σ τ n :=
  { s with
    augmented := s.augmented.count m.tally
    journal := s.journal ++ m.calls.map Event.called }

def mapState (f : State α → State α) (s : Session α σ τ n) : Session α σ τ n :=
  { s with method := { s.method with state := f s.method.state } }

/-- Marks the run as faulted. -/
def fault (s : Session α σ τ n) : Session α σ τ n :=
  (s.mapState fun t => { t with status := .faulted }).log
    (.logged (.faulted s.method.state.iteration))

/-- Installs schedules; the augmented objective takes their barrier parameter. -/
def install (plan : Schedules α) (s : Session α σ τ n) : Session α σ τ n :=
  { s with
    method := { s.method with schedules := plan }
    augmented := { s.augmented with mu := plan.mu.value } }

@[simp] theorem journal_log (e : Event α) (s : Session α σ τ n) :
    (s.log e).journal = s.journal.push e := rfl

@[simp] theorem journal_charge (m : Metered α β) (s : Session α σ τ n) :
    (s.charge m).journal = s.journal ++ m.calls.map Event.called := rfl

@[simp] theorem journal_mapState (f : State α → State α) (s : Session α σ τ n) :
    (s.mapState f).journal = s.journal := rfl

@[simp] theorem journal_install (plan : Schedules α) (s : Session α σ τ n) :
    (s.install plan).journal = s.journal := rfl

@[simp] theorem status_fault (s : Session α σ τ n) :
    s.fault.method.state.status = .faulted := rfl

end Session

namespace Action

variable {α σ τ β : Type} {n m : Nat}

/-! ## Single steps -/

/-- A result or a failure that changes nothing. -/
def of (r : Except Failure β) : Action α σ τ n β := fun s =>
  match r with
  | .ok b => .ok b s
  | .error e => .error e s

def note (e : Event α) : Action α σ τ n Unit := fun s => .ok () (s.log e)

/-- Puts a metered question about the augmented objective. -/
def ask (question : Augmented α n → Metered α β) : Action α σ τ n β := fun s =>
  .ok (question s.augmented).result (s.charge (question s.augmented))

/-- Writes to the report. -/
def write (text : String) : Action α σ τ n Unit := fun s =>
  let w := s.sink.write text.toUTF8.data.toList
  let s := { s with sink := w.sink }.log (.wrote w.accepted)
  if w.complete then .ok () s else .error (.error .reportFailed) s

/-- Marks the run as faulted if the action fails. -/
def faulting (act : Action α σ τ n β) : Action α σ τ n β := fun s =>
  match act s with
  | .ok b s => .ok b s
  | .error e s => .error e s.fault

/-! ## Evaluation -/

variable [Scalar α]

/-- The gradient of the caller's objective, of the right length and finite. -/
def gradientAt (x : Vector α m) : Action α σ τ n (Vector α m) := do
  let g ← ask (·.plainGradient x.toArray)
  if h : g.size = m then
    if AllFinite g.toVector then return ⟨g, h⟩
    else throw (.error (.notFinite "objective gradient"))
  else throw (.error (.dimensionMismatch m g.size))

/-- The value of the caller's objective, finite. -/
def valueAt (x : Array α) : Action α σ τ n α := do
  let v ← ask (·.plainValue x)
  if IsFinite v then return v
  else throw (.error (.notFinite "objective value"))

/-- The norm of the projected gradient. -/
def stationarity (x g : Vector α n) : Action α σ τ n α := do
  let p := (← get).augmented.box.project (x - g)
  modify fun s => { s with projected := p.toArray }
  return norm (p - x)

end Action

/-! ## Opening a run -/

variable {α σ τ : Type} [Scalar α] {n : Nat}

/-- The point to open a run at: `x` moved strictly inside the box, if `x` has the right length and
the box is not empty. -/
def Box.opening (B : Box α n) (x : Array α) : Except Failure (Vector α n) :=
  if h : x.size = n then
    match B.firstEmpty? with
    | some i => .error (.error (.emptyBox i))
    | none => .ok (B.inset ⟨x, h⟩)
  else .error (.error (.dimensionMismatch n x.size))

/-- The state that opens a run at `x`. -/
def Schedules.opening (plan : Schedules α) (x g : Vector α n) (value gnorm : α)
    (evaluations : Tally) : State α where
  iteration := 0
  mu := plan.mu.value
  gtol := plan.gtol.value
  stol := plan.stol.value
  innerIterations := 0
  innerConverged := false
  x := x.toArray
  gradient := g.toArray
  value := value
  gnorm := gnorm
  snorm := 0
  evaluations := evaluations
  converged := false
  status := .inProgress
  bestGnorm := gnorm
  stall := 0

variable [Numeral α]

/-- Starts the schedules again, moves the point strictly inside the box and records the value, the
gradient and the stationarity there. -/
def Action.openRun : Action α σ τ n Unit := faulting do
  let s ← get
  let x ← Action.of (s.augmented.box.opening s.x)
  let plan := s.method.schedules.reset
  modify fun s => { s with x := x.toArray }.install plan
  let g ← gradientAt x
  modify fun s => { s with gradient := g.toArray }
  let value ← valueAt x.toArray
  let gnorm ← stationarity x g
  modify fun s => s.mapState fun _ => plan.opening x g value gnorm s.augmented.tally
  let s ← get
  let t := s.method.state
  if 1 ≤ s.method.options.verbosity then
    write (Report.title s.method.solver.name)
    write Report.header
    write (Report.row t)
  note (.logged (.opened n s.augmented.box.fixed.length t.mu t.gtol gnorm s.augmented.damping))
  note (.opened t)

/-! ## Recording an iteration -/

/-- Counts an iteration that was solved at the floor of `mu` and did not improve on the best
stationarity; any other iteration starts the count again. -/
def State.stallAfter (t : State α) (atFloor : Bool) (gnorm : α) : Nat :=
  if atFloor ∧ ¬ gnorm < t.bestGnorm then t.stall + 1 else 0

/-- The state after one more iteration, which ended at `x` and was solved at the floor of `mu` or
not. -/
def State.next (t : State α) (plan : Schedules α) (atFloor : Bool) (x g : Vector α n)
    (value gnorm : α) (evaluations : Tally) : State α :=
  { t with
    iteration := t.iteration + 1
    mu := plan.mu.value
    gtol := plan.gtol.value
    stol := plan.stol.value
    x := x.toArray
    gradient := g.toArray
    value := value
    gnorm := gnorm
    evaluations := evaluations
    bestGnorm := Scalar.min t.bestGnorm gnorm
    stall := t.stallAfter atFloor gnorm }

namespace Action

/-- Records the outcome of an outer iteration at `x`, where the gradient is `g`. -/
def recordAt (x g : Vector α n) : Action α σ τ n Unit := do
  let gnorm ← stationarity x g
  let s ← get
  let atFloor := decide s.method.schedules.mu.AtFloor
  let plan := s.method.schedules.advance
  modify (·.install plan)
  let value ← valueAt x.toArray
  modify fun s => s.mapState fun t => t.next plan atFloor x g value gnorm s.augmented.tally
  let s ← get
  let t := s.method.state
  let o := s.method.options
  if 1 ≤ o.verbosity then
    if o.printHeader ∨ 2 ≤ o.verbosity then write Report.header
    write (Report.row t)
  note (.logged
    (.advanced t.iteration t.mu t.gtol gnorm t.innerIterations s.augmented.damped.length))
  note (.advanced t)

/-- Records the outcome of an outer iteration at `x` and advances the schedules. -/
def record (x : Array α) : Action α σ τ n Unit := faulting do
  let g ← gradientAt x.toVector
  if h : x.size = n then recordAt (x.toVector.cast h) (g.cast h)
  else throw .lengthMismatch

end Action

end LogBarrier

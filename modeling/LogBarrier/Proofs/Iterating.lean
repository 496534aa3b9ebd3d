import LogBarrier.Proofs.Opening
import LogBarrier.Proofs.Unrecorded

/-!
# Iterations in full

What an outer iteration leaves behind, stage by stage, as one equation. The solver is asked, the
objective is evaluated where it ends, and if both are in order the new state is in place before its
row is reported.
-/

namespace LogBarrier

open Scalar LogBarrier.Action

variable {α σ τ : Type} [Scalar α] {n : Nat}

/-! ## The stages -/

namespace Session

/-- The solver has answered to the subproblem from `x`. -/
def asked (x : Vector α n) (s : Session α σ τ n) : Session α σ τ n where
  method := { s.method with
    memory := (s.solution x).result.memory
    secant := (s.solution x).result.secant }
  augmented := s.augmented.count (s.solution x).tally
  x := (s.solution x).result.x
  gradient := s.gradient
  projected := s.projected
  sink := s.sink
  journal := (s.journal.push (.solving s.method.tolerances s.augmented.mu s.augmented.kappa)) ++
    (s.solution x).calls.map Event.called ++ (s.solution x).result.notes.map Event.logged

/-- What is logged about a subproblem that was left before it had converged. -/
def warning (report : SolveReport) (s : Session α σ τ n) : List (Event α) :=
  if report.converged then []
  else [.logged (.unconverged s.method.solver.name report.iterations s.method.state.mu
    s.method.state.gtol)]

/-- The subproblem from `x` was solved with the given report, and the session moves on to `y`. -/
def landedAt (x y : Vector α n) (report : SolveReport) (s : Session α σ τ n) :
    Session α σ τ n :=
  { s.asked x with
    method := { (s.asked x).method with state := s.method.state.solved report (norm (y - x)) }
    x := y.toArray
    journal := (s.asked x).journal ++ s.warning report }

end Session

namespace Action

theorem solveNext_apply {s : Session α σ τ n} {x : Vector α n} (hx : s.x = x.toArray) :
    solveNext s = match (s.solution x).result.outcome with
      | .error e => .error e (s.asked x).fault
      | .ok report => match sized n (s.solution x).result.x with
        | .error e => .error e (s.asked x)
        | .ok z => .ok () (s.landedAt x (s.augmented.box.project z) report) := by
  refine eq_of_ends ?_
  unfold solveNext
  simp only [ends_bind, ends_get, ends_modify, ends_note, ends_of, ends_ask, ends_forM_note,
    ends_faulting, hx, sized_toArray, Except.ok.injEq, forall_eq', reduceCtorEq, false_implies,
    implies_true, and_true]
  refine ⟨fun report hreport => ⟨fun z hz => ?_, fun e he => ?_⟩, fun e he => ?_⟩
  · change (s.solution x).result.outcome = .ok report at hreport
    change sized n (s.solution x).result.x = .ok z at hz
    rw [hreport]
    dsimp only
    rw [hz]
    rw [ends_ite]
    refine ⟨fun hwarned => ?_, fun hquiet => ?_⟩
    · have hwarning : s.warning report = [.logged (.unconverged s.method.solver.name
          report.iterations s.method.state.mu s.method.state.gtol)] := if_neg hwarned
      unfold Session.landedAt
      rw [hwarning]
      rfl
    · have hwarning : s.warning report = [] := if_pos (Decidable.not_not.mp hquiet)
      unfold Session.landedAt
      rw [hwarning]
      rfl
  · change (s.solution x).result.outcome = .ok report at hreport
    change sized n (s.solution x).result.x = .error e at he
    rw [hreport]
    dsimp only
    rw [he]
    rfl
  · change (s.solution x).result.outcome = .error e at he
    rw [he]
    rfl

variable [Numeral α]

/-- Reports the state after an iteration and shows it. -/
def publish : Action α σ τ n Unit := do
  let s ← get
  let t := s.method.state
  let o := s.method.options
  if 1 ≤ o.verbosity then
    if o.printHeader ∨ 2 ≤ o.verbosity then write Report.header
    write (Report.row t)
  note (.logged
    (.advanced t.iteration t.mu t.gtol t.gnorm t.innerIterations s.augmented.damped.length))
  note (.advanced t)

/-- A recording fails at one of two stages, or it comes to its report. -/
theorem record_apply (y : Vector α n) (s : Session α σ τ n) :
    record y.toArray s = match s.augmented.objective.checkedGradient y with
      | .error e => .error e (s.charge (s.augmented.plainGradient y.toArray)).fault
      | .ok g => match s.augmented.objective.checkedValue y.toArray with
        | .error e => .error e (s.valuedAt y g).fault
        | .ok v => faulting publish (s.recordedAt y g v) := by
  refine eq_of_ends ?_
  rw [record_toArray]
  unfold recordAt
  simp only [ends_faulting, ends_bind, ends_get, ends_modify, ends_of, ends_gradientAt,
    ends_valueAt, ends_stationarity]
  refine ⟨fun g hg => ⟨fun v hv => ?_, fun e he => ?_⟩, fun e he => ?_⟩
  · change s.augmented.objective.checkedValue y.toArray = .ok v at hv
    rw [hg]
    dsimp only
    rw [hv]
    have hreport := ends_self (faulting publish) (s.recordedAt y g v)
    rw [ends_faulting] at hreport
    exact hreport
  · change s.augmented.objective.checkedValue y.toArray = .error e at he
    rw [hg]
    dsimp only
    rw [he]
    rfl
  · rw [he]

theorem record_of_gradient_error {s : Session α σ τ n} {y : Vector α n} {e : Failure}
    (hg : s.augmented.objective.checkedGradient y = .error e) :
    record y.toArray s = .error e (s.charge (s.augmented.plainGradient y.toArray)).fault := by
  rw [record_apply, hg]

theorem record_of_value_error {s : Session α σ τ n} {y g : Vector α n} {e : Failure}
    (hg : s.augmented.objective.checkedGradient y = .ok g)
    (hv : s.augmented.objective.checkedValue y.toArray = .error e) :
    record y.toArray s = .error e (s.valuedAt y g).fault := by
  rw [record_apply, hg]
  dsimp only
  rw [hv]

/-- What is left of an iteration when it has been recorded. -/
def settle : Action α σ τ n (Option Status) := do
  modify fun s => { s with gradient := s.method.state.gradient }
  let s ← get
  let t := s.method.state
  if s.verdict? = some .stalled then note (.logged (.stalled t.stall t.mu))
  return s.verdict?

/-- An iteration fails at the solver, or it records the point where the solver has ended. -/
theorem iterate_apply {s : Session α σ τ n} {x : Vector α n} (hx : s.x = x.toArray) :
    iterate s = match (s.solution x).result.outcome with
      | .error e => .error e (s.asked x).fault
      | .ok report => match sized n (s.solution x).result.x with
        | .error e => .error e (s.asked x)
        | .ok z =>
          let y := s.augmented.box.project z
          (record y.toArray >>= fun _ => settle) (s.landedAt x y report) := by
  show EStateM.bind solveNext _ s = _
  rw [EStateM.bind, solveNext_apply hx]
  cases (s.solution x).result.outcome with
  | error e => rfl
  | ok report =>
    dsimp only
    cases sized n (s.solution x).result.x with
    | error e => rfl
    | ok z => rfl

theorem iterate_of_record_error {s t : Session α σ τ n} {x z : Vector α n} {e : Failure}
    {report : SolveReport} (hx : s.x = x.toArray)
    (houtcome : (s.solution x).result.outcome = .ok report)
    (hended : (s.solution x).result.x = z.toArray)
    (h : record (s.augmented.box.project z).toArray
      (s.landedAt x (s.augmented.box.project z) report) = .error e t) :
    iterate s = .error e t := by
  rw [iterate_apply hx, houtcome]
  dsimp only
  rw [hended, sized_toArray]
  show EStateM.bind (record _) _ _ = _
  rw [EStateM.bind, h]

end Action

end LogBarrier

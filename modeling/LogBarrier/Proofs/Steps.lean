import LogBarrier.Proofs.Ends
import LogBarrier.Run

/-!
# The steps of a run

What opening a run, solving a subproblem and recording an iteration do to a session, said once for
each of them and for both ways to end. `Alike` collects what none of them changes.
-/

namespace LogBarrier

open Scalar LogBarrier.Action

variable {α σ τ : Type} {m n : Nat}

/-! ## What stays -/

/-- Two sessions of one run: they work on the same problem with the same solver and options, and
their schedules differ in the position only. -/
structure Session.Alike (s t : Session α σ τ n) : Prop where
  options : t.method.options = s.method.options
  solver : t.method.solver = s.method.solver
  plan : t.method.schedules.reset = s.method.schedules.reset
  objective : t.augmented.objective = s.augmented.objective
  box : t.augmented.box = s.augmented.box
  kappa : t.augmented.kappa = s.augmented.kappa
  damping : t.augmented.damping = s.augmented.damping

theorem Session.Alike.trans {s t u : Session α σ τ n} (h : s.Alike t) (h' : t.Alike u) :
    s.Alike u where
  options := h'.options.trans h.options
  solver := h'.solver.trans h.solver
  plan := h'.plan.trans h.plan
  objective := h'.objective.trans h.objective
  box := h'.box.trans h.box
  kappa := h'.kappa.trans h.kappa
  damping := h'.damping.trans h.damping

variable [Scalar α]

/-! ## Evaluation -/

/-- The gradient at `x`, if it has the right length and is finite. -/
def Objective.checkedGradient (f : Objective α) (x : Vector α m) : Except Failure (Vector α m) :=
  if h : (f.gradient x.toArray).size = m then
    if AllFinite (f.gradient x.toArray).toVector then .ok ⟨f.gradient x.toArray, h⟩
    else .error (.error (.notFinite "objective gradient"))
  else .error (.error (.dimensionMismatch m (f.gradient x.toArray).size))

/-- The value at `x`, if it is finite. -/
def Objective.checkedValue (f : Objective α) (x : Array α) : Except Failure α :=
  if IsFinite (f.value x) then .ok (f.value x)
  else .error (.error (.notFinite "objective value"))

theorem Objective.checkedGradient_eq_ok {f : Objective α} {x g : Vector α m}
    (h : f.checkedGradient x = .ok g) : f.gradient x.toArray = g.toArray ∧ AllFinite g := by
  unfold checkedGradient at h
  generalize f.gradient x.toArray = g' at h ⊢
  split at h
  · rename_i hsize
    subst hsize
    split at h
    · rename_i hfinite
      cases h
      exact ⟨rfl, hfinite⟩
    · cases h
  · cases h

theorem Objective.checkedValue_eq_ok {f : Objective α} {x : Array α} {v : α}
    (h : f.checkedValue x = .ok v) : f.value x = v ∧ IsFinite v := by
  unfold checkedValue at h
  split at h
  · rename_i hfinite
    cases h
    exact ⟨rfl, hfinite⟩
  · cases h

section

variable {β : Type} {s : Session α σ τ n} {failed : Failure → Session α σ τ n → Prop}

theorem Action.ends_gradientAt {done : Vector α m → Session α σ τ n → Prop} (x : Vector α m) :
    (gradientAt x).Ends done failed s ↔
      (of (s.augmented.objective.checkedGradient x)).Ends done failed
        (s.charge (s.augmented.plainGradient x.toArray)) := by
  unfold gradientAt Objective.checkedGradient
  rw [ends_bind, ends_ask, Augmented.result_plainGradient]
  split
  · split <;> exact Iff.rfl
  · exact Iff.rfl

theorem Action.ends_valueAt {done : α → Session α σ τ n → Prop} (x : Array α) :
    (valueAt x).Ends done failed s ↔
      (of (s.augmented.objective.checkedValue x)).Ends done failed
        (s.charge (s.augmented.plainValue x)) := by
  unfold valueAt Objective.checkedValue
  rw [ends_bind, ends_ask, Augmented.result_plainValue]
  split <;> exact Iff.rfl

theorem Action.ends_stationarity {done : α → Session α σ τ n → Prop} (x g : Vector α n) :
    (stationarity x g).Ends done failed s ↔
      done (norm (s.augmented.box.residual x g))
        { s with projected := (s.augmented.box.project (x - g)).toArray } :=
  Iff.rfl

end

/-! ## Solving -/

/-- What the solver answers to the subproblem from `x`. -/
def Session.solution (s : Session α σ τ n) (x : Vector α n) : Metered α (Solved α σ τ) :=
  s.method.solver.solve s.augmented.oracle s.augmented.box s.method.tolerances x s.method.memory
    s.method.secant

/-- `t` is `s` after the subproblem from `x` was solved, with the given report and to a point that
projects to `y`. -/
structure Session.SolvedTo (s : Session α σ τ n) (x y : Vector α n) (report : SolveReport)
    (t : Session α σ τ n) : Prop extends s.Alike t where
  outcome : (s.solution x).result.outcome = .ok report
  ended : ∃ z : Vector α n, (s.solution x).result.x = z.toArray ∧ y = s.augmented.box.project z
  point : t.x = y.toArray
  memory : t.method.memory = (s.solution x).result.memory
  secant : t.method.secant = (s.solution x).result.secant
  schedules : t.method.schedules = s.method.schedules
  mu : t.augmented.mu = s.augmented.mu
  tally : t.augmented.tally = s.augmented.tally + (s.solution x).tally
  state : t.method.state = s.method.state.solved report (norm (y - x))
  calls : t.journal.calls = s.journal.calls ++ (s.solution x).calls
  snapshots : t.journal.snapshots = s.journal.snapshots
  handed : t.journal.handed =
    s.journal.handed ++ [(s.method.tolerances, s.augmented.mu, s.augmented.kappa)]

/-- `t` is `s` after the subproblem from `x` could not be solved, or was solved to what is not a
point of the box's dimension. -/
structure Session.NotSolved (s : Session α σ τ n) (x : Vector α n) (e : Failure)
    (t : Session α σ τ n) : Prop extends s.Alike t where
  point : t.x = (s.solution x).result.x
  memory : t.method.memory = (s.solution x).result.memory
  secant : t.method.secant = (s.solution x).result.secant
  calls : t.journal.calls = s.journal.calls ++ (s.solution x).calls
  snapshots : t.journal.snapshots = s.journal.snapshots
  handed : t.journal.handed =
    s.journal.handed ++ [(s.method.tolerances, s.augmented.mu, s.augmented.kappa)]
  reached : ((s.solution x).result.outcome = .error e ∧
      t.method.state = { s.method.state with status := .faulted }) ∨
    (e = .lengthMismatch ∧ t.method.state = s.method.state)

theorem Action.solveNext_ends {s : Session α σ τ n} {x : Vector α n} (hx : s.x = x.toArray) :
    solveNext.Ends (fun _ t => ∃ y report, s.SolvedTo x y report t)
      (fun e t => s.NotSolved x e t) s := by
  unfold solveNext
  simp only [ends_bind, ends_get, ends_modify, ends_note, ends_of, ends_ask, ends_forM_note,
    ends_faulting, hx, sized_toArray, Except.ok.injEq, forall_eq', reduceCtorEq, false_implies,
    implies_true, and_true, Session.log, Session.charge, Session.mapState, Augmented.count]
  refine ⟨fun report hreport => ⟨fun z hz => ?_, fun e he => ?_⟩, fun e he => ?_⟩
  · -- With a warning in the journal or without one, the rest of the session is the same.
    have hdone (j : Journal α) (hcalls : j.calls = s.journal.calls ++ (s.solution x).calls)
        (hsnapshots : j.snapshots = s.journal.snapshots)
        (hhanded : j.handed =
          s.journal.handed ++ [(s.method.tolerances, s.augmented.mu, s.augmented.kappa)]) :
        s.SolvedTo x (s.augmented.box.project z) report { s with
          method := { s.method with
            memory := (s.solution x).result.memory
            secant := (s.solution x).result.secant
            state := s.method.state.solved report (norm (s.augmented.box.project z - x)) }
          augmented := s.augmented.count (s.solution x).tally
          x := (s.augmented.box.project z).toArray
          journal := j } := {
      toAlike := ⟨rfl, rfl, rfl, rfl, rfl, rfl, rfl⟩
      outcome := hreport
      ended := ⟨z, sized_eq_ok_iff.mp hz, rfl⟩
      point := rfl
      memory := rfl
      secant := rfl
      schedules := rfl
      mu := rfl
      tally := rfl
      state := rfl
      calls := hcalls
      snapshots := hsnapshots
      handed := hhanded }
    rw [ends_ite]
    refine ⟨fun _ => ?_, fun _ => ?_⟩
    · refine ⟨_, report, hdone _ ?_ ?_ ?_⟩
      · simp [Session.solution, Event.call?]
      · simp [Event.snapshot?]
      · simp [Event.handed?]
    · refine ⟨_, report, hdone _ ?_ ?_ ?_⟩
      · simp [Session.solution, Event.call?]
      · simp [Event.snapshot?]
      · simp [Event.handed?]
  · exact {
      toAlike := ⟨rfl, rfl, rfl, rfl, rfl, rfl, rfl⟩
      point := rfl
      memory := rfl
      secant := rfl
      calls := by simp [Session.solution, Event.call?]
      snapshots := by simp [Event.snapshot?]
      handed := by simp [Event.handed?]
      reached := .inr ⟨sized_eq_error he, rfl⟩ }
  · exact {
      toAlike := ⟨rfl, rfl, rfl, rfl, rfl, rfl, rfl⟩
      point := rfl
      memory := rfl
      secant := rfl
      calls := by simp [Session.fault, Session.solution, Event.call?]
      snapshots := by simp [Session.fault, Event.snapshot?]
      handed := by simp [Session.fault, Event.handed?]
      reached := .inl ⟨he, rfl⟩ }

/-! ## Opening -/

/-- `t` is `s` after a run was opened at `x`, where the gradient is `g` and the value `v`. -/
structure Session.Opened (s : Session α σ τ n) (x g : Vector α n) (v : α)
    (t : Session α σ τ n) : Prop extends s.Alike t where
  opening : s.augmented.box.opening s.x = .ok x
  gradient_at : s.augmented.objective.checkedGradient x = .ok g
  value_at : s.augmented.objective.checkedValue x.toArray = .ok v
  point : t.x = x.toArray
  gradient : t.gradient = g.toArray
  memory : t.method.memory = s.method.memory
  secant : t.method.secant = s.method.secant
  schedules : t.method.schedules = s.method.schedules.reset
  mu : t.augmented.mu = s.method.schedules.reset.mu.value
  tally : t.augmented.tally = s.augmented.tally + ⟨1, 1⟩
  state : t.method.state = s.method.schedules.reset.opening x g v
    (norm (s.augmented.box.residual x g)) t.augmented.tally
  calls : t.journal.calls = s.journal.calls ++ [.gradient x.toArray, .value x.toArray]
  snapshots : t.journal.snapshots = s.journal.snapshots ++ [t.method.state]
  handed : t.journal.handed = s.journal.handed

/-- `t` is `s` after a run could not be opened. Either there is no point to open it at, or the
state of an earlier run or the one recorded at that point is marked. -/
structure Session.NotOpened (s t : Session α σ τ n) : Prop extends s.Alike t where
  memory : t.method.memory = s.method.memory
  secant : t.method.secant = s.method.secant
  snapshots : t.journal.snapshots = s.journal.snapshots
  handed : t.journal.handed = s.journal.handed
  status : t.method.state.status = .faulted
  reached :
    ((∀ x, s.augmented.box.opening s.x ≠ .ok x) ∧ t.x = s.x ∧ t.journal.calls = s.journal.calls ∧
      t.method.state = { s.method.state with status := .faulted }) ∨
    ∃ x : Vector α n, s.augmented.box.opening s.x = .ok x ∧ t.x = x.toArray ∧
      (∃ cs, t.journal.calls = s.journal.calls ++ cs ∧
        ∀ c ∈ cs, c = .gradient x.toArray ∨ c = .value x.toArray) ∧
      (t.method.state = { s.method.state with status := .faulted } ∨
        t.method.state.x = x.toArray ∧ t.method.state.converged = false)

variable [Numeral α]

theorem Action.openRun_ends (s : Session α σ τ n) :
    openRun.Ends (fun _ t => ∃ x g v, s.Opened x g v t) (fun _ t => s.NotOpened t) s := by
  unfold openRun
  simp only [ends_faulting, ends_bind, ends_get, ends_modify, ends_of, ends_gradientAt,
    ends_valueAt, ends_stationarity, Session.install, Session.charge, Session.mapState,
    Augmented.count, Augmented.calls_plainGradient, Augmented.tally_plainGradient,
    Augmented.calls_plainValue, Augmented.tally_plainValue]
  refine ⟨fun x hx => ⟨fun g hg => ⟨fun v hv => ?_, fun e he => ?_⟩, fun e he => ?_⟩,
    fun e he => ?_⟩
  · -- What is left is the report. `u` is the session before anything of it was written.
    generalize hu : (⟨_, _, _, _, _, _, _⟩ : Session α σ τ n) = u
    have hdone (k : Sink) (pieces : List (List UInt8)) (m : Message α) :
        s.Opened x g v (((u.tell k pieces).log (.logged m)).log (.opened u.method.state)) := by
      subst hu
      exact {
        toAlike := ⟨rfl, rfl, rfl, rfl, rfl, rfl, rfl⟩
        opening := hx
        gradient_at := hg
        value_at := hv
        point := rfl
        gradient := rfl
        memory := rfl
        secant := rfl
        schedules := rfl
        mu := rfl
        tally := Tally.add_assoc ..
        state := rfl
        calls := by simp [Session.tell, Event.call?]
        snapshots := by simp [Session.tell, Session.log, Event.snapshot?]
        handed := by simp [Session.tell, Event.handed?] }
    have hfailed (k : Sink) (pieces : List (List UInt8)) :
        s.NotOpened (u.tell k pieces).fault := by
      subst hu
      exact {
        toAlike := ⟨rfl, rfl, rfl, rfl, rfl, rfl, rfl⟩
        memory := rfl
        secant := rfl
        snapshots := by simp [Session.tell, Session.fault, Event.snapshot?]
        handed := by simp [Session.tell, Session.fault, Event.handed?]
        status := rfl
        reached := by
          refine .inr ⟨x, hx, rfl, ⟨[.gradient x.toArray, .value x.toArray], ?_, ?_⟩, .inr ?_⟩
          · simp [Session.tell, Session.fault, Event.call?]
          · simp
          · exact ⟨rfl, rfl⟩ }
    rw [ends_ite]
    refine ⟨fun _ => ?_, fun _ => ?_⟩
    · refine (tells_write _).ends_bind (fun k => ?_) hfailed
      refine (tells_write _).ends_bind (fun k => ?_) fun k p => ?_
      · refine (tells_write _).ends_bind (fun k => ?_) fun k p => ?_
        · rw [Session.tell_tell, Session.tell_tell]
          subst hu
          exact ⟨x, g, v, hdone ..⟩
        · rw [Session.tell_tell, Session.tell_tell]
          exact hfailed ..
      · rw [Session.tell_tell]
        exact hfailed ..
    · have h := hdone u.sink []
      rw [Session.tell_nil] at h
      subst hu
      exact ⟨x, g, v, h _⟩
  · exact {
      toAlike := ⟨rfl, rfl, rfl, rfl, rfl, rfl, rfl⟩
      memory := rfl
      secant := rfl
      snapshots := by simp [Session.fault, Event.snapshot?]
      handed := by simp [Session.fault, Event.handed?]
      status := rfl
      reached := by
        refine .inr ⟨x, hx, rfl, ⟨[.gradient x.toArray, .value x.toArray], ?_, ?_⟩, .inl rfl⟩
        · simp [Session.fault, Event.call?]
        · simp }
  · exact {
      toAlike := ⟨rfl, rfl, rfl, rfl, rfl, rfl, rfl⟩
      memory := rfl
      secant := rfl
      snapshots := by simp [Session.fault, Event.snapshot?]
      handed := by simp [Session.fault, Event.handed?]
      status := rfl
      reached := by
        refine .inr ⟨x, hx, rfl, ⟨[.gradient x.toArray], ?_, ?_⟩, .inl rfl⟩
        · simp [Session.fault, Event.call?]
        · simp }
  · exact {
      toAlike := ⟨rfl, rfl, rfl, rfl, rfl, rfl, rfl⟩
      memory := rfl
      secant := rfl
      snapshots := by simp [Session.fault, Event.snapshot?]
      handed := by simp [Session.fault, Event.handed?]
      status := rfl
      reached := by
        refine .inl ⟨fun x hx => ?_, rfl, by simp [Session.fault, Event.call?], rfl⟩
        rw [hx] at he
        cases he }

/-! ## Recording -/

/-- `t` is `s` after an iteration that ended at `x` was recorded, where the gradient is `g` and the
value `v`. -/
structure Session.Recorded (s : Session α σ τ n) (x g : Vector α n) (v : α)
    (t : Session α σ τ n) : Prop extends s.Alike t where
  gradient_at : s.augmented.objective.checkedGradient x = .ok g
  value_at : s.augmented.objective.checkedValue x.toArray = .ok v
  point : t.x = s.x
  memory : t.method.memory = s.method.memory
  secant : t.method.secant = s.method.secant
  schedules : t.method.schedules = s.method.schedules.advance
  mu : t.augmented.mu = s.method.schedules.advance.mu.value
  tally : t.augmented.tally = s.augmented.tally + ⟨1, 1⟩
  state : t.method.state = s.method.state.next s.method.schedules.advance
    (decide s.method.schedules.mu.AtFloor) x g v (norm (s.augmented.box.residual x g))
    t.augmented.tally
  calls : t.journal.calls = s.journal.calls ++ [.gradient x.toArray, .value x.toArray]
  snapshots : t.journal.snapshots = s.journal.snapshots ++ [t.method.state]
  handed : t.journal.handed = s.journal.handed

/-- `t` is `s` after an iteration that ended at `x` could not be recorded. -/
structure Session.NotRecorded (s : Session α σ τ n) (x : Array α) (t : Session α σ τ n) : Prop
    extends s.Alike t where
  point : t.x = s.x
  memory : t.method.memory = s.method.memory
  secant : t.method.secant = s.method.secant
  calls : ∃ cs, t.journal.calls = s.journal.calls ++ cs ∧ ∀ c ∈ cs, c = .gradient x ∨ c = .value x
  snapshots : t.journal.snapshots = s.journal.snapshots
  handed : t.journal.handed = s.journal.handed
  status : t.method.state.status = .faulted
  state : t.method.state = { s.method.state with status := .faulted } ∨
    t.method.state.x = x ∧ t.method.state.converged = s.method.state.converged

/-- The session with an iteration in it that ended at `x`, before it is reported. -/
def Session.recordedAt (s : Session α σ τ n) (x g : Vector α n) (v : α) : Session α σ τ n where
  method := { s.method with
    schedules := s.method.schedules.advance
    state := s.method.state.next s.method.schedules.advance
      (decide s.method.schedules.mu.AtFloor) x g v (norm (s.augmented.box.residual x g))
      (s.augmented.tally + ⟨0, 1⟩ + ⟨1, 0⟩) }
  augmented := { s.augmented with
    mu := s.method.schedules.advance.mu.value
    tally := s.augmented.tally + ⟨0, 1⟩ + ⟨1, 0⟩ }
  x := s.x
  gradient := s.gradient
  projected := (s.augmented.box.project (x - g)).toArray
  sink := s.sink
  journal := s.journal ++ [Call.gradient x.toArray].map Event.called ++
    [Call.value x.toArray].map Event.called

/-- The part after the gradient has been found to be `g`. -/
theorem Action.recordAt_ends {s : Session α σ τ n} {x g : Vector α n}
    (hg : s.augmented.objective.checkedGradient x = .ok g) :
    (recordAt x g).Ends (fun _ t => ∃ v, s.Recorded x g v t)
      (fun _ t => s.NotRecorded x.toArray t.fault)
      (s.charge (s.augmented.plainGradient x.toArray)) := by
  unfold recordAt
  simp only [ends_bind, ends_get, ends_modify, ends_of, ends_valueAt, ends_stationarity,
    Session.install, Session.charge, Session.mapState, Augmented.count,
    Augmented.calls_plainGradient, Augmented.tally_plainGradient, Augmented.calls_plainValue,
    Augmented.tally_plainValue]
  refine ⟨fun v hv => ?_, fun e he => ?_⟩
  · -- However much of the report is written, the rest of the session is the same.
    have hdone (k : Sink) (pieces : List (List UInt8)) (m : Message α) (t : State α)
        (ht : t = (s.recordedAt x g v).method.state) :
        s.Recorded x g v ((((s.recordedAt x g v).tell k pieces).log (.logged m)).log
          (.advanced t)) := by
      subst ht
      exact {
        toAlike := ⟨rfl, rfl, rfl, rfl, rfl, rfl, rfl⟩
        gradient_at := hg
        value_at := hv
        point := rfl
        memory := rfl
        secant := rfl
        schedules := rfl
        mu := rfl
        tally := Tally.add_assoc ..
        state := rfl
        calls := by simp [Session.tell, Session.recordedAt, Event.call?]
        snapshots := by simp [Session.tell, Session.log, Session.recordedAt, Event.snapshot?]
        handed := by simp [Session.tell, Session.recordedAt, Event.handed?] }
    have hfailed (k : Sink) (pieces : List (List UInt8)) :
        s.NotRecorded x.toArray ((s.recordedAt x g v).tell k pieces).fault := {
      toAlike := ⟨rfl, rfl, rfl, rfl, rfl, rfl, rfl⟩
      point := rfl
      memory := rfl
      secant := rfl
      calls := by
        refine ⟨[.gradient x.toArray, .value x.toArray], ?_, ?_⟩
        · simp [Session.tell, Session.fault, Session.recordedAt, Event.call?]
        · simp
      snapshots := by simp [Session.tell, Session.fault, Session.recordedAt, Event.snapshot?]
      handed := by simp [Session.tell, Session.fault, Session.recordedAt, Event.handed?]
      status := rfl
      state := .inr ⟨rfl, rfl⟩ }
    rw [ends_ite, ends_ite]
    refine ⟨fun _ => ⟨fun _ => ?_, fun _ => ?_⟩, fun _ => ?_⟩
    · refine (tells_write _).ends_bind (fun k => ?_) hfailed
      refine (tells_write _).ends_bind (fun k => ?_) fun k p => ?_
      · rw [Session.tell_tell]
        exact ⟨v, hdone _ _ _ _ rfl⟩
      · rw [Session.tell_tell]
        exact hfailed ..
    · refine (tells_write _).ends_bind (fun k => ?_) hfailed
      exact ⟨v, hdone _ _ _ _ rfl⟩
    · have h (m : Message α) := hdone (s.recordedAt x g v).sink [] m _ rfl
      simp only [Session.tell_nil] at h
      exact ⟨v, h _⟩
  · exact {
      toAlike := ⟨rfl, rfl, rfl, rfl, rfl, rfl, rfl⟩
      point := rfl
      memory := rfl
      secant := rfl
      calls := by
        refine ⟨[.gradient x.toArray, .value x.toArray], ?_, ?_⟩
        · simp [Session.fault, Event.call?]
        · simp
      snapshots := by simp [Session.fault, Event.snapshot?]
      handed := by simp [Session.fault, Event.handed?]
      status := rfl
      state := .inl rfl }

theorem Action.record_ends (s : Session α σ τ n) (x : Array α) :
    (record x).Ends (fun _ t => ∃ y g v, x = y.toArray ∧ s.Recorded y g v t)
      (fun _ t => s.NotRecorded x t) s := by
  have hfailed : s.NotRecorded x (s.charge (s.augmented.plainGradient x)).fault := {
    toAlike := ⟨rfl, rfl, rfl, rfl, rfl, rfl, rfl⟩
    point := rfl
    memory := rfl
    secant := rfl
    calls := by
      refine ⟨[.gradient x], ?_, ?_⟩
      · simp [Session.charge, Session.fault, Session.mapState, Event.call?]
      · simp
    snapshots := by simp [Session.charge, Session.fault, Session.mapState, Event.snapshot?]
    handed := by simp [Session.charge, Session.fault, Session.mapState, Event.handed?]
    status := rfl
    state := .inl rfl }
  unfold record
  simp only [ends_faulting, ends_bind, ends_of, ends_gradientAt]
  refine ⟨fun g hg => ?_, fun e he => hfailed⟩
  split
  · rename_i hsize
    subst hsize
    refine (recordAt_ends hg).mono ?_ fun _ _ h => h
    rintro - t ⟨v, h⟩
    exact ⟨_, g, v, rfl, h⟩
  · exact hfailed

/-! ## Iterating -/

/-- `t` is `s` after an iteration from `x` that ended at `y`, where the gradient is `g` and the
value `v`. -/
structure Session.Iterated (s : Session α σ τ n) (x y g : Vector α n) (v : α)
    (report : SolveReport) (t : Session α σ τ n) : Prop extends s.Alike t where
  outcome : (s.solution x).result.outcome = .ok report
  ended : ∃ z : Vector α n, (s.solution x).result.x = z.toArray ∧ y = s.augmented.box.project z
  gradient_at : s.augmented.objective.checkedGradient y = .ok g
  value_at : s.augmented.objective.checkedValue y.toArray = .ok v
  point : t.x = y.toArray
  gradient : t.gradient = g.toArray
  memory : t.method.memory = (s.solution x).result.memory
  secant : t.method.secant = (s.solution x).result.secant
  schedules : t.method.schedules = s.method.schedules.advance
  mu : t.augmented.mu = s.method.schedules.advance.mu.value
  tally : t.augmented.tally = s.augmented.tally + (s.solution x).tally + ⟨1, 1⟩
  state : t.method.state = (s.method.state.solved report (norm (y - x))).next
    s.method.schedules.advance (decide s.method.schedules.mu.AtFloor) y g v
    (norm (s.augmented.box.residual y g)) t.augmented.tally
  calls : t.journal.calls =
    s.journal.calls ++ (s.solution x).calls ++ [.gradient y.toArray, .value y.toArray]
  snapshots : t.journal.snapshots = s.journal.snapshots ++ [t.method.state]
  handed : t.journal.handed =
    s.journal.handed ++ [(s.method.tolerances, s.augmented.mu, s.augmented.kappa)]

/-- `t` is `s` after an iteration from `x` that failed with `e`. -/
inductive Session.NotIterated (s : Session α σ τ n) (x : Vector α n) (e : Failure) :
    Session α σ τ n → Prop
  | notSolved {t : Session α σ τ n} (h : s.NotSolved x e t) : s.NotIterated x e t
  | notRecorded {t u : Session α σ τ n} {y : Vector α n} {report : SolveReport}
    (hu : s.SolvedTo x y report u) (h : u.NotRecorded y.toArray t) : s.NotIterated x e t

omit [Numeral α] in
theorem Session.SolvedTo.iterated {s t u : Session α σ τ n} {x y g : Vector α n} {v : α}
    {report : SolveReport} (hu : s.SolvedTo x y report u) (h : u.Recorded y g v t) :
    s.Iterated x y g v report { t with gradient := t.method.state.gradient } where
  toAlike := hu.toAlike.trans ⟨h.options, h.solver, h.plan, h.objective, h.box, h.kappa, h.damping⟩
  outcome := hu.outcome
  ended := hu.ended
  gradient_at := by
    rw [← hu.objective]
    exact h.gradient_at
  value_at := by
    rw [← hu.objective]
    exact h.value_at
  point := h.point.trans hu.point
  gradient := by rw [h.state]; rfl
  memory := h.memory.trans hu.memory
  secant := h.secant.trans hu.secant
  schedules := by rw [h.schedules, hu.schedules]
  mu := by rw [h.mu, hu.schedules]
  tally := by rw [h.tally, hu.tally]
  state := by rw [h.state, hu.state, hu.schedules, hu.box]
  calls := by rw [h.calls, hu.calls]
  snapshots := by rw [h.snapshots, hu.snapshots]
  handed := h.handed.trans hu.handed

omit [Numeral α] in
theorem Session.Iterated.logged {s t : Session α σ τ n} {x y g : Vector α n} {v : α}
    {report : SolveReport} (h : s.Iterated x y g v report t) (m : Message α) :
    s.Iterated x y g v report (t.log (.logged m)) :=
  { h with
    calls := by simpa [Event.call?] using h.calls
    snapshots := by simpa [Session.log, Event.snapshot?] using h.snapshots
    handed := by simpa [Event.handed?] using h.handed }

/-- The options' verdict on an iteration. -/
def Session.verdict? (s : Session α σ τ n) : Option Status :=
  s.method.options.verdict? s.method.state

theorem Action.iterate_ends {s : Session α σ τ n} {x : Vector α n} (hx : s.x = x.toArray) :
    iterate.Ends (fun v t => v = t.verdict? ∧ ∃ y g v report, s.Iterated x y g v report t)
      (fun e t => s.NotIterated x e t) s := by
  unfold iterate
  rw [ends_bind]
  refine (solveNext_ends hx).mono ?_ fun e t h => .notSolved h
  rintro - u ⟨y, report, hu⟩
  rw [ends_bind, ends_get, ends_bind]
  refine (record_ends u u.x).mono ?_ ?_
  · rintro - t ⟨y', g, v, hy, h⟩
    rw [hu.point, Vector.toArray_inj] at hy
    subst hy
    have hit := hu.iterated h
    rw [ends_bind, ends_modify, ends_bind, ends_get]
    dsimp only
    split
    · exact ⟨rfl, y, g, v, report, hit.logged _⟩
    · exact ⟨rfl, y, g, v, report, hit⟩
  · intro e t h
    rw [hu.point] at h
    exact .notRecorded hu h

/-- A loop keeps what its iterations keep. `inv k` holds after `k` iterations that did not end the
run, and there are at most `limit` of them. -/
theorem Action.ends_loop {done : Status → Session α σ τ n → Prop}
    {failed : Failure → Session α σ τ n → Prop} (inv : Nat → Session α σ τ n → Prop) {limit : Nat}
    (hstep : ∀ k s, k < limit → inv k s →
      iterate.Ends (fun v t => match v with
        | some status => done status t
        | none => inv (k + 1) t) failed s)
    (hlimit : ∀ s, inv limit s → done .iterationLimit s) {left k : Nat} (hk : k + left = limit)
    {s : Session α σ τ n} (h : inv k s) : (loop left).Ends done failed s := by
  -- The induction is on what is left, and `k` counts what is done.
  induction left generalizing k s with
  | zero =>
    rw [Nat.add_zero] at hk
    subst hk
    exact hlimit s h
  | succ left ih =>
    unfold loop
    rw [ends_bind]
    refine (hstep k s (by omega) h).mono ?_ fun _ _ h => h
    rintro (_ | status) t ht
    · exact ih (by omega) ht
    · exact ht

/-! ## Closing -/

/-- `t` is `s` after the run has ended with the status. -/
structure Session.Closed (s : Session α σ τ n) (status : Status) (t : Session α σ τ n) : Prop
    extends s.Alike t where
  point : t.x = s.x
  gradient : t.gradient = s.gradient
  memory : t.method.memory = s.method.memory
  secant : t.method.secant = s.method.secant
  schedules : t.method.schedules = s.method.schedules
  augmented : t.augmented = s.augmented
  state : t.method.state = { s.method.state with status, converged := status == .converged }
  calls : t.journal.calls = s.journal.calls
  snapshots : t.journal.snapshots = s.journal.snapshots
  handed : t.journal.handed = s.journal.handed

omit [Scalar α] [Numeral α] in
/-- The state is the same whether the closing line could be written or not. -/
theorem Action.close_ends (s : Session α σ τ n) (status : Status) :
    (close status).Ends (fun v t => v = status ∧ s.Closed status t)
      (fun e t => e = .error .reportFailed ∧ s.Closed status t) s := by
  unfold close
  simp only [ends_bind, ends_get, ends_modify, ends_note]
  have hclosed (k : Sink) (pieces : List (List UInt8)) (m : Message α) :
      s.Closed status (((s.mapState fun t => { t with
        status, converged := status == .converged }).log (.logged m)).tell k pieces) := {
    toAlike := ⟨rfl, rfl, rfl, rfl, rfl, rfl, rfl⟩
    point := rfl
    gradient := rfl
    memory := rfl
    secant := rfl
    schedules := rfl
    augmented := rfl
    state := rfl
    calls := by simp [Session.tell, Event.call?]
    snapshots := by simp [Session.tell, Event.snapshot?]
    handed := by simp [Session.tell, Event.handed?] }
  rw [ends_ite]
  refine ⟨fun _ => ?_, fun _ => ?_⟩
  · exact (tells_write _).ends_bind (fun k => ⟨rfl, hclosed ..⟩) fun k pieces => ⟨rfl, hclosed ..⟩
  · refine ⟨rfl, ?_⟩
    rw [← Session.tell_nil (Session.log _ _)]
    exact hclosed ..

/-! ## A whole run -/

theorem Action.ends_run {done : Status → Session α σ τ n → Prop}
    {failed : Failure → Session α σ τ n → Prop} (inv : Nat → Session α σ τ n → Prop)
    (ended : Status → Session α σ τ n → Prop) {s : Session α σ τ n}
    (hopen : openRun.Ends (fun _ t => inv 0 t) failed s)
    (hstep : ∀ k t, k < s.method.options.maxOuter → inv k t →
      iterate.Ends (fun v u => match v with
        | some status => ended status u
        | none => inv (k + 1) u) failed t)
    (hlimit : ∀ t, inv s.method.options.maxOuter t → ended .iterationLimit t)
    (hclose : ∀ status t, ended status t → (close status).Ends done failed t) :
    run.Ends done failed s := by
  unfold run
  rw [ends_bind]
  refine (hopen.and (openRun_ends s)).mono ?_ fun _ _ h => h.1
  rintro - t ⟨ht, x, g, v, hopened⟩
  rw [ends_bind, ends_get, ends_bind, hopened.options]
  exact (ends_loop inv hstep hlimit (Nat.zero_add _) ht).mono hclose fun _ _ h => h

/-- A run keeps to its problem, its options and its plan, whichever way it ends. -/
theorem Action.run_alike (s : Session α σ τ n) :
    run.Ends (fun _ t => s.Alike t) (fun _ t => s.Alike t) s := by
  refine ends_run (fun _ t => s.Alike t ∧ ∃ x : Vector α n, t.x = x.toArray)
    (fun _ t => s.Alike t) ?_ ?_ (fun t h => h.1) ?_
  · refine (openRun_ends s).mono ?_ fun e t h => h.toAlike
    rintro - t ⟨x, g, v, h⟩
    exact ⟨h.toAlike, x, h.point⟩
  · rintro k t - ⟨ht, x, hx⟩
    refine (iterate_ends hx).mono ?_ ?_
    · rintro (_ | status) u ⟨-, y, g, v, report, hu⟩
      · exact ⟨ht.trans hu.toAlike, y, hu.point⟩
      · exact ht.trans hu.toAlike
    · rintro e u (hu | ⟨hw, hu⟩)
      · exact ht.trans hu.toAlike
      · exact ht.trans (hw.toAlike.trans hu.toAlike)
  · intro status t ht
    exact (close_ends t status).mono (fun _ u h => ht.trans h.2.toAlike)
      fun _ u h => ht.trans h.2.toAlike

end LogBarrier

import LogBarrier.Proofs.Reporting
import LogBarrier.Proofs.Stages
import LogBarrier.Proofs.Verdict

/-!
# Iterations that are interrupted

A run that fails in an iteration fails with the error that has struck there: the solver's own one,
or that of the gradient or the value at the point where the solver has ended. What the run tells of
itself is what it has shown last, and after the error nothing happens any more.
-/

namespace LogBarrier

open Scalar LogBarrier.Action

variable {α σ τ : Type} [Scalar α] {n : Nat}

/-! ## What strikes -/

/-- The evaluation of the objective at `y` fails with `e` after the calls: the value is asked for
only if the gradient is in order. -/
inductive Objective.Faults (f : Objective α) (y : Vector α n) (e : Failure) :
    List (Call α) → Prop
  | gradient (hgradient : f.checkedGradient y = .error e) : Faults f y e [.gradient y.toArray]
  | value {g : Vector α n} (hgradient : f.checkedGradient y = .ok g)
      (hvalue : f.checkedValue y.toArray = .error e) :
      Faults f y e [.gradient y.toArray, .value y.toArray]

namespace Session

/-- All that is seen of the solver while it is at work on the subproblem from `x`. -/
def dealings (s : Session α σ τ n) (x : Vector α n) : List (Event α) :=
  .solving s.method.tolerances s.augmented.mu s.augmented.kappa ::
    ((s.solution x).calls.map Event.called ++ (s.solution x).result.notes.map Event.logged)

/-- The iteration from `x` is struck by the error `e` at the end of the events. -/
inductive Strikes (s : Session α σ τ n) (x : Vector α n) (e : Error) : List (Event α) → Prop
  | unsolved (houtcome : (s.solution x).result.outcome = .error (.error e)) :
      Strikes s x e (s.dealings x)
  | unrecorded {report : SolveReport} {z : Vector α n} {calls : List (Call α)}
      (houtcome : (s.solution x).result.outcome = .ok report)
      (hended : (s.solution x).result.x = z.toArray)
      (hfaults : s.augmented.objective.Faults (s.augmented.box.project z) (.error e) calls) :
      Strikes s x e (s.dealings x ++ s.warning report ++ calls.map Event.called)

variable {s t u : Session α σ τ n} {x y : Vector α n} {e : Error} {events : List (Event α)}

/-- In an iteration that is struck the solver is called once, and nothing is written or shown. -/
theorem Strikes.views (h : s.Strikes x e events) :
    events.filterMap Event.snapshot? = [] ∧ events.flatMap Event.bytes = [] ∧
      events.filterMap Event.handed? =
        [(s.method.tolerances, s.augmented.mu, s.augmented.kappa)] := by
  have hdealings : (s.dealings x).filterMap Event.snapshot? = [] ∧
      (s.dealings x).flatMap Event.bytes = [] ∧ (s.dealings x).filterMap Event.handed? =
        [(s.method.tolerances, s.augmented.mu, s.augmented.kappa)] := by
    refine ⟨?_, ?_, ?_⟩
    · refine List.filterMap_eq_nil_iff.mpr fun a ha => ?_
      simp only [dealings, List.mem_cons, List.mem_append, List.mem_map] at ha
      obtain rfl | ⟨c, -, rfl⟩ | ⟨m, -, rfl⟩ := ha <;> rfl
    · simp [dealings, Event.bytes, List.flatMap_map]
    · simp [dealings, Event.handed?]
  cases h with
  | unsolved => exact hdealings
  | @unrecorded report z calls =>
    obtain ⟨hshown, hbytes, hhanded⟩ := hdealings
    unfold warning
    split
    · simp [hshown, hbytes, hhanded, Event.snapshot?, Event.bytes, Event.handed?,
        List.flatMap_map]
    · simp [hshown, hbytes, hhanded, Event.snapshot?, Event.bytes, Event.handed?,
        List.flatMap_map]

/-- `t` is `s` after an iteration that was struck at the end of the events. -/
structure StruckTo (s : Session α σ τ n) (events : List (Event α)) (t : Session α σ τ n) :
    Prop where
  journal : t.journal = s.journal ++ (events ++ [.logged (.faulted s.method.state.iteration)])
  gradient : t.gradient = s.gradient
  state : t.method.state = { s.method.state with
    status := .faulted
    innerIterations := t.method.state.innerIterations
    innerConverged := t.method.state.innerConverged
    snorm := t.method.state.snorm }

omit [Scalar α] in
/-- The mark of a fault is the last that happens. -/
theorem struckTo_fault (hjournal : t.journal = s.journal ++ events)
    (hgradient : t.gradient = s.gradient)
    (hstate : t.method.state = { s.method.state with
      innerIterations := t.method.state.innerIterations
      innerConverged := t.method.state.innerConverged
      snorm := t.method.state.snorm }) : s.StruckTo events t.fault where
  journal := by
    have hiteration : t.method.state.iteration = s.method.state.iteration := by rw [hstate]
    show t.journal.push (.logged (.faulted t.method.state.iteration)) = _
    rw [hjournal, hiteration]
    apply Array.ext'
    simp
  gradient := hgradient
  state := by
    show { t.method.state with status := .faulted } = _
    rw [hstate]
    rfl

theorem journal_asked (s : Session α σ τ n) (x : Vector α n) :
    (s.asked x).journal = s.journal ++ s.dealings x := by
  apply Array.ext'
  simp [asked, dealings]

theorem journal_landedAt (s : Session α σ τ n) (x y : Vector α n) (report : SolveReport)
    (events : List (Event α)) :
    (s.landedAt x y report).journal ++ events =
      s.journal ++ (s.dealings x ++ s.warning report ++ events) := by
  show (s.asked x).journal ++ s.warning report ++ events = _
  rw [journal_asked]
  apply Array.ext'
  simp

end Session

variable [Numeral α]

namespace Action

open Session

variable {s t u : Session α σ τ n} {x y z : Vector α n} {e : Error} {events : List (Event α)}

omit [Scalar α] [Numeral α] in
/-- A sink that never fails stays one. -/
theorem FitsOrFails.unlimited {β : Type} {act : Action α σ τ n β} (hact : FitsOrFails act)
    (hs : s.sink = .unlimited) {b : β} (h : act s = .ok b t) : t.sink = .unlimited := by
  have hgrows := (hact.grows s hs).sink
  rw [h] at hgrows
  exact hgrows.trans hs

theorem record_of_faults {calls : List (Call α)} {e : Failure}
    (h : s.augmented.objective.Faults y e calls) :
    ∃ t : Session α σ τ n, record y.toArray s = .error e t.fault ∧
      t.journal = s.journal ++ calls.map Event.called ∧ t.gradient = s.gradient ∧
      t.method.state = s.method.state := by
  cases h with
  | gradient hgradient => exact ⟨_, record_of_gradient_error hgradient, rfl, rfl, rfl⟩
  | value hgradient hvalue => exact ⟨_, record_of_value_error hgradient hvalue, rfl, rfl, rfl⟩

/-- An iteration that is struck ends there, with the error that has struck. -/
theorem iterate_of_strikes (hx : s.x = x.toArray) (h : s.Strikes x e events) :
    ∃ t, iterate s = .error (.error e) t ∧ s.StruckTo events t := by
  cases h with
  | unsolved houtcome =>
    rw [iterate_apply hx, houtcome]
    exact ⟨_, rfl, struckTo_fault (s.journal_asked x) rfl rfl⟩
  | @unrecorded report z calls houtcome hended hfaults =>
    obtain ⟨t, hrecord, hjournal, hgradient, hstate⟩ :=
      record_of_faults (s := s.landedAt x (s.augmented.box.project z) report) hfaults
    refine ⟨_, iterate_of_record_error hx houtcome hended hrecord, struckTo_fault ?_ hgradient ?_⟩
    · rw [hjournal, journal_landedAt]
    · rw [hstate]
      rfl

/-- Where the sink never fails, it is the objective that makes a recording fail. -/
theorem record_faults (hs : s.sink = .unlimited) (y : Vector α n) :
    (record y.toArray).Ends (fun _ _ => True)
      (fun e _ => ∃ calls, s.augmented.objective.Faults y e calls) s := by
  unfold Ends
  rw [record_apply]
  cases hgradient : s.augmented.objective.checkedGradient y with
  | error e => exact ⟨_, .gradient hgradient⟩
  | ok g =>
    dsimp only
    cases hvalue : s.augmented.objective.checkedValue y.toArray with
    | error e => exact ⟨_, .value hgradient hvalue⟩
    | ok v =>
      have hreport : (faulting publish).Ends (fun _ _ => True)
          (fun e _ => ∃ calls, s.augmented.objective.Faults y e calls) (s.recordedAt y g v) := by
        rw [ends_faulting]
        exact (publish_reports (s := s.recordedAt y g v) hs).mono (fun _ _ _ => trivial)
          fun _ _ h => h.elim
      exact hreport

/-- Where the sink never fails, an error in an iteration is one that has struck there. -/
theorem iterate_strikes (hs : s.sink = .unlimited) (hx : s.x = x.toArray) :
    iterate.Ends (fun _ _ => True)
      (fun e _ => ∀ e', e = .error e' → ∃ events, s.Strikes x e' events) s := by
  unfold Ends
  rw [iterate_apply hx]
  cases houtcome : (s.solution x).result.outcome with
  | error e =>
    rintro e' rfl
    exact ⟨_, .unsolved houtcome⟩
  | ok report =>
    dsimp only
    cases hended : sized n (s.solution x).result.x with
    | error e =>
      rintro e' rfl
      cases sized_eq_error hended
    | ok z =>
      have hrest : (record (s.augmented.box.project z).toArray >>= fun _ => settle).Ends
          (fun _ _ => True) (fun e _ => ∀ e', e = .error e' → ∃ events, s.Strikes x e' events)
          (s.landedAt x (s.augmented.box.project z) report) := by
        rw [ends_bind]
        refine (record_faults (s := s.landedAt x _ report) hs _).mono (fun _ t _ => ?_) ?_
        · exact (settle_silent t).mono (fun _ _ _ => trivial) fun _ _ h => h.elim
        · rintro _ - ⟨calls, hfaults⟩ e' rfl
          exact ⟨_, .unrecorded houtcome (sized_eq_ok_iff.mp hended) hfaults⟩
      exact hrest

end Action

/-! ## Where a run is interrupted -/

namespace Session

variable {s t u : Session α σ τ n} {x y : Vector α n} {e : Error} {events : List (Event α)}
  {k : Nat}

theorem GetsTo.unlimited (hs : s.sink = .unlimited) (h : s.GetsTo k t) : t.sink = .unlimited := by
  induction h with
  | opened h => exact fitsOrFails_openRun.unlimited hs h
  | iterated _ h ih => exact fitsOrFails_iterate.unlimited ih h

/-- The caller's gradient is that of the state shown last. -/
theorem GetsTo.gradient (h : s.GetsTo k t) : t.gradient = t.method.state.gradient := by
  cases h with
  | opened h =>
    obtain ⟨x, g, v, ht⟩ := (openRun_ends s).of_ok h
    rw [ht.gradient, ht.state]
    rfl
  | iterated ht h =>
    obtain ⟨-, x, y, g, v, report, -, hu⟩ := ht.exists_iterated h
    rw [hu.gradient, hu.state]
    rfl

/-- From one of its stages a run goes on as a loop with what is left of the iterations. -/
theorem GetsTo.run_eq (h : s.GetsTo k t) {left : Nat}
    (hleft : k + left = s.method.options.maxOuter) :
    run s = (loop left >>= close) t := by
  induction h generalizing left with
  | @opened t h =>
    obtain ⟨x, g, v, ht⟩ := (openRun_ends s).of_ok h
    have hmax : t.method.options.maxOuter = left := by
      rw [ht.options]
      omega
    show EStateM.bind openRun _ s = _
    rw [EStateM.bind, h]
    show (loop t.method.options.maxOuter >>= close) t = _
    rw [hmax]
  | @iterated k t u ht h ih =>
    rw [ih (show k + (left + 1) = s.method.options.maxOuter by omega)]
    show EStateM.bind (EStateM.bind iterate _) close t = _
    rw [EStateM.bind, EStateM.bind, h]
    rfl

theorem GetsTo.run_of_iterate_error {e : Failure} (h : s.GetsTo k t)
    (hk : k < s.method.options.maxOuter) (herror : iterate t = .error e u) :
    run s = .error e u := by
  obtain ⟨left, hleft⟩ := Nat.exists_eq_add_of_lt hk
  rw [h.run_eq (show k + (left + 1) = s.method.options.maxOuter by omega)]
  show EStateM.bind (EStateM.bind iterate _) close t = _
  rw [EStateM.bind, EStateM.bind, herror]

/-- A run from `s` comes to `t` after `k` iterations, and the next one, from `x`, is struck by `e`
at the end of the events. -/
structure Interrupted (s : Session α σ τ n) (k : Nat) (t : Session α σ τ n) (x : Vector α n)
    (e : Error) (events : List (Event α)) : Prop where
  comes : s.GetsTo k t
  below : k < s.method.options.maxOuter
  point : t.x = x.toArray
  strikes : t.Strikes x e events

/-- What a run leaves that was interrupted after `k` iterations, when it had shown `last` and its
journal was `before`. All that follows in the journal are the events up to the error and the warning
of the fault. -/
structure Interruption (k : Nat) (last : State α) (before : Journal α) (events : List (Event α))
    (t : Session α σ τ n) : Prop where
  shown_length : t.journal.snapshots.length = k + 1
  shown : ∀ (i : Nat) (w : State α), t.journal.snapshots[i]? = some w → w.iteration = i
  last_shown : t.journal.snapshots[k]? = some last
  iteration : t.method.state.iteration = k
  state : t.method.state = { last with
    status := .faulted
    innerIterations := t.method.state.innerIterations
    innerConverged := t.method.state.innerConverged
    snorm := t.method.state.snorm }
  gradient : t.gradient = last.gradient
  handed_length : t.journal.handed.length = k + 1
  output : t.journal.output = before.output
  journal : t.journal = before ++ (events ++ [.logged (.faulted k)])

theorem Interrupted.interruption (h : s.Interrupted k t x e events) (hreached : s.Reached k t)
    (hu : t.StruckTo events u) : Interruption k t.method.state t.journal events u := by
  obtain ⟨hshown, hbytes, hhanded⟩ := h.strikes.views
  have hiteration : t.method.state.iteration = k := (hreached.shown k _ hreached.last).iteration
  have hsnapshots : u.journal.snapshots = t.journal.snapshots := by
    rw [hu.journal]
    simp [Journal.snapshots, hshown, Event.snapshot?]
  exact {
    shown_length := by rw [hsnapshots, hreached.snapshots_length]
    shown := fun i w hw => (hreached.shown i w (hsnapshots ▸ hw)).iteration
    last_shown := by rw [hsnapshots, hreached.last]
    iteration := by rw [hu.state, hiteration]
    state := hu.state
    gradient := hu.gradient.trans h.comes.gradient
    handed_length := by
      rw [← hreached.handed_length, hu.journal]
      simp [Journal.handed, hhanded, Event.handed?]
    output := by
      rw [hu.journal]
      simp [Journal.output, hbytes, Event.bytes]
    journal := by rw [hu.journal, hiteration] }

end Session

/-- Where the sink never fails, a run that has called its solver and ends with an error was
interrupted by it. -/
theorem Action.run_interrupts {s : Session α σ τ n} (hs : s.sink = .unlimited)
    (hnone : s.journal.handed = []) :
    run.Ends (fun _ _ => True) (fun e u => ∀ e', e = .error e' → u.journal.handed ≠ [] →
      ∃ k t x events, s.Interrupted k t x e' events) s := by
  refine ends_run s.GetsTo (fun _ t => t.sink = .unlimited) ?_ ?_ (fun t ht => ht.unlimited hs) ?_
  · refine ((ends_self openRun s).and (openRun_ends s)).mono ?_ ?_
    · rintro ⟨⟩ t ⟨h, -⟩
      exact .opened h
    · rintro e t ⟨-, ht⟩ e' - hhanded
      exact absurd (ht.handed.trans hnone) hhanded
  · intro k t hk ht
    obtain ⟨x, hx⟩ := ht.point
    refine ((ends_self iterate t).and (iterate_strikes (ht.unlimited hs) hx)).mono ?_ ?_
    · rintro (_ | status) u ⟨h, -⟩
      · exact ht.iterated h
      · exact fitsOrFails_iterate.unlimited (ht.unlimited hs) h
    · rintro e u ⟨-, hstrikes⟩ e' he' -
      obtain ⟨events, hevents⟩ := hstrikes e' he'
      exact ⟨k, t, x, events, ht, hk, hx, hevents⟩
  · intro status t ht
    obtain ⟨u, hu, -⟩ := close_of_unlimited ht status
    unfold Ends
    rw [hu]
    trivial

/-- A run that is interrupted returns the error that has struck and leaves what it has shown last;
and on a sink that never fails there is no other way to fail once the solver was called. -/
theorem Method.run_interrupted [Secant α τ] (M : Method α σ τ) (f : Objective α) (B : Box α n)
    (x g : Array α) :
    (∀ k t y e events, (M.session f B x g .unlimited).Interrupted k t y e events →
      ∃ u last, M.run f B x g .unlimited = .error (.error e) u ∧
        Session.Interruption k last t.journal events u) ∧
    ∀ e u, M.run f B x g .unlimited = .error (.error e) u → u.journal.handed ≠ [] →
      ∃ k t y events, (M.session f B x g .unlimited).Interrupted k t y e events := by
  refine ⟨fun k t y e events h => ?_, fun e u hrun hhanded => ?_⟩
  · obtain ⟨u, hu, hstruck⟩ := iterate_of_strikes h.point h.strikes
    exact ⟨u, t.method.state, h.comes.run_of_iterate_error h.below hu,
      h.interruption (h.comes.reached rfl rfl) hstruck⟩
  · exact (run_interrupts rfl rfl).of_error hrun e rfl hhanded

/-! ## A solver that fails on its second call -/

/-- Stays where it is, and fails if it has been called before. -/
def Solver.tiring : Solver Float Nat (LimitedMemory Float) where
  name := "tiring"
  solve _ _ _ x calls h :=
    pure ⟨x.toArray, calls + 1, h, [],
      if calls = 0 then .ok ⟨0, true⟩ else .error (.error (.notFinite "step"))⟩

/-- It gets through one iteration, and the run is to go on. -/
theorem Method.exists_once_solved :
    ∃ (M : Method Float Nat (LimitedMemory Float)) (t : Session Float Nat _ 1),
      M.solver = .tiring ∧ 1 < M.options.maxOuter ∧
      (M.session .slope (.free 1) #[1] #[0] .unlimited).GetsTo 1 t ∧ t.method.memory = 1 := by
  have h : (ofOptions .standard).toOption.any (fun M =>
      match openRun ((M.withSolver .tiring 0).session .slope (.free 1) #[1] #[0] .unlimited) with
      | .ok _ s => match iterate s with
        | .ok none t => t.method.memory = 1 ∧ 1 < M.options.maxOuter
        | _ => false
      | .error _ _ => false) = true := by
    decide +kernel
  cases hM : ofOptions (.standard : Options Float) with
  | error e =>
    rw [hM] at h
    cases h
  | ok M =>
    rw [hM] at h
    dsimp only [Except.toOption, Option.any] at h
    cases hopen :
        openRun ((M.withSolver .tiring 0).session .slope (.free 1) #[1] #[0] .unlimited) with
    | error e t =>
      rw [hopen] at h
      cases h
    | ok v t =>
      rw [hopen] at h
      dsimp only at h
      cases hiterate : iterate t with
      | error e u =>
        rw [hiterate] at h
        cases h
      | ok v u =>
        rw [hiterate] at h
        cases v with
        | some status => cases h
        | none =>
          obtain ⟨hmemory, hmax⟩ := of_decide_eq_true h
          exact ⟨M.withSolver .tiring 0, u, rfl, hmax,
            (Session.GetsTo.opened hopen).iterated hiterate, hmemory⟩

theorem Method.exists_run_interrupted :
    ∃ (M : Method Float Nat (LimitedMemory Float)) (t u : Session Float Nat _ 1)
      (y : Vector Float 1) (events : List (Event Float)) (last : State Float),
      (M.session .slope (.free 1) #[1] #[0] .unlimited).Interrupted 1 t y (.notFinite "step")
        events ∧
      M.run .slope (.free 1) #[1] #[0] .unlimited = .error (.error (.notFinite "step")) u ∧
      Session.Interruption 1 last t.journal events u := by
  obtain ⟨M, t, htiring, hmax, ht, hmemory⟩ := exists_once_solved
  obtain ⟨y, hy⟩ := ht.point
  have hsolver : t.method.solver = .tiring := ht.alike.solver.trans htiring
  have houtcome : (t.solution y).result.outcome = .error (.error (.notFinite "step")) := by
    unfold Session.solution
    rw [hsolver, hmemory]
    rfl
  have hs : (M.session .slope (.free 1) #[1] #[0] .unlimited).Interrupted 1 t y
      (.notFinite "step") (t.dealings y) :=
    ⟨ht, hmax, hy, .unsolved houtcome⟩
  obtain ⟨u, last, hrun, hleft⟩ :=
    (M.run_interrupted .slope (.free 1) #[1] #[0]).1 _ _ _ _ _ hs
  exact ⟨M, t, u, y, _, last, hs, hrun, hleft⟩

end LogBarrier

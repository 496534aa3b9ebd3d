import LogBarrier.Proofs.Course
import LogBarrier.Proofs.Opening
import LogBarrier.Proofs.Standard

/-!
# Earlier runs are forgotten

A method that has been used answers to every problem as a new one does. The positions of its
schedules and the state of its last run are replaced before anything reads them, and its secant is
emptied when a run begins. Only a run that cannot be opened keeps something of an earlier one: it
marks that run's state as faulted.
-/

namespace LogBarrier

open Scalar LogBarrier.Action

variable {α σ τ β : Type} {n : Nat}

/-! ## Another past -/

namespace Session

/-- The session as it would be after other runs. -/
def withPast (plan : Schedules α) (t : State α) (s : Session α σ τ n) : Session α σ τ n :=
  { s with method := { s.method with schedules := plan, state := t } }

@[simp] theorem augmented_withPast (plan : Schedules α) (t : State α) (s : Session α σ τ n) :
    (s.withPast plan t).augmented = s.augmented := rfl

@[simp] theorem x_withPast (plan : Schedules α) (t : State α) (s : Session α σ τ n) :
    (s.withPast plan t).x = s.x := rfl

/-- Two results that look the same from outside the method. -/
structure SameOutside (r r' : EStateM.Result Failure (Session α σ τ n) β) : Prop where
  answer : answer r = answer r'
  x : (after r).x = (after r').x
  gradient : (after r).gradient = (after r').gradient
  sink : (after r).sink = (after r').sink
  output : (after r).journal.output = (after r').journal.output
  snapshots : (after r).journal.snapshots = (after r').journal.snapshots
  calls : (after r).journal.calls = (after r').journal.calls
  handed : (after r).journal.handed = (after r').journal.handed

theorem SameOutside.of_eq {r r' : EStateM.Result Failure (Session α σ τ n) β} (h : r = r') :
    SameOutside r r' := by
  subst h
  exact ⟨rfl, rfl, rfl, rfl, rfl, rfl, rfl, rfl⟩

variable {plan : Schedules α} {t : State α} {s : Session α σ τ n} {e : Failure}

/-- The mark of a fault is seen in the state only. -/
theorem sameOutside_fault :
    SameOutside (.error e (s.withPast plan t).fault : EStateM.Result _ _ β)
      (.error e s.fault) where
  answer := rfl
  x := rfl
  gradient := rfl
  sink := rfl
  output := by simp [fault, withPast, Event.bytes]
  snapshots := by simp [fault, withPast, Event.snapshot?]
  calls := by simp [fault, withPast, Event.call?]
  handed := by simp [fault, withPast, Event.handed?]

theorem movedTo_withPast (hplan : plan.reset = s.method.schedules.reset) (x : Vector α n) :
    (s.withPast plan t).movedTo x =
      (s.movedTo x).withPast (s.movedTo x).method.schedules t := by
  show Session.charge _ (Session.install plan.reset { s.withPast plan t with x := x.toArray }) = _
  rw [hplan]
  rfl

theorem gradedAt_withPast (hplan : plan.reset = s.method.schedules.reset) (x g : Vector α n) :
    (s.withPast plan t).gradedAt x g =
      (s.gradedAt x g).withPast (s.gradedAt x g).method.schedules t := by
  unfold gradedAt
  rw [movedTo_withPast hplan]
  rfl

/-- Nothing is left of the past when a run is open. -/
theorem openedAt_withPast [Scalar α] (hplan : plan.reset = s.method.schedules.reset)
    (x g : Vector α n) (v : α) : (s.withPast plan t).openedAt x g v = s.openedAt x g v := by
  unfold openedAt
  rw [gradedAt_withPast hplan]
  show Session.mapState (fun _ => plan.reset.opening x g v _ _) _ = _
  rw [hplan]
  rfl

end Session

variable [Scalar α] [Numeral α]

namespace Action

variable {plan : Schedules α} {s : Session α σ τ n}

/-- With another past a run is opened to the same session, or it fails at the same stage. -/
theorem openRun_withPast (hplan : plan.reset = s.method.schedules.reset) (t : State α) :
    openRun (s.withPast plan t) = openRun s ∨
      ∃ (e : Failure) (u : Session α σ τ n) (p : Schedules α),
        openRun (s.withPast plan t) = .error e (u.withPast p t).fault ∧
        openRun s = .error e u.fault := by
  rw [openRun_apply, openRun_apply, Session.augmented_withPast, Session.x_withPast]
  cases s.augmented.box.opening s.x with
  | error e => exact .inr ⟨e, s, plan, rfl, rfl⟩
  | ok x =>
    dsimp only
    cases s.augmented.objective.checkedGradient x with
    | error e =>
      rw [Session.movedTo_withPast hplan]
      exact .inr ⟨e, _, _, rfl, rfl⟩
    | ok g =>
      dsimp only
      cases s.augmented.objective.checkedValue x.toArray with
      | error e =>
        rw [Session.gradedAt_withPast hplan]
        exact .inr ⟨e, _, _, rfl, rfl⟩
      | ok v =>
        dsimp only
        rw [Session.openedAt_withPast hplan]
        exact .inl rfl

/-- A run does not depend on the past, and one that is opened not even in the state it leaves. -/
theorem run_withPast (hplan : plan.reset = s.method.schedules.reset) (t : State α) :
    Session.SameOutside (run (s.withPast plan t)) (run s) ∧
      ∀ u, openRun (s.withPast plan t) = .ok () u → run (s.withPast plan t) = run s := by
  rcases openRun_withPast hplan t with heq | ⟨e, u, p, herror, herror'⟩
  · have hrun := run_congr heq
    exact ⟨.of_eq hrun, fun _ _ => hrun⟩
  · constructor
    · rw [run_of_openRun_error herror, run_of_openRun_error herror']
      exact Session.sameOutside_fault
    · intro w hw
      rw [herror] at hw
      cases hw

end Action

/-! ## The secant -/

/-- A secant that is emptied after a solve is the one that is emptied before it. -/
def Solver.Resettable [Secant α τ] (S : Solver α σ τ) : Prop :=
  ∀ {n : Nat} (F : Oracle α n) (B : Box α n) (tol : Tolerances α) (x : Vector α n) (m : σ)
    (h : Option τ), (S.solve F B tol x m h).result.secant.map Secant.reset = h.map Secant.reset

omit [Numeral α] in
theorem LimitedMemory.reset_update (h : LimitedMemory α) (s y : Vector α n) :
    Secant.reset (Secant.update h s y) = Secant.reset h := by
  unfold Secant.update instSecant
  dsimp only
  split <;> rfl

omit [Numeral α] in
theorem SolverChoice.reset_teach (c : SolverChoice) (h : Option (LimitedMemory α))
    (changes : List (Vector α n × Vector α n)) :
    (c.teach h changes).map Secant.reset = h.map Secant.reset := by
  cases c with
  | spectral => rfl
  | quasiNewton =>
    cases h with
    | none => rfl
    | some h =>
      induction changes generalizing h with
      | nil => rfl
      | cons c changes ih =>
        refine (ih (Secant.update h c.1 c.2)).trans ?_
        exact congrArg some (LimitedMemory.reset_update h c.1 c.2)

omit [Numeral α] in
theorem SolverChoice.resettable (c : SolverChoice) (o : Options α) :
    (c.solver o : Solver α Unit (LimitedMemory α)).Resettable := by
  intro n F B tol x m h
  have hleaves := (c.descent o F B).solve_leaves F B tol x h
  rw [c.solve_result]
  generalize ((c.descent o F B).solve F B tol x h).result = e at hleaves ⊢
  cases hleaves with
  | unstarted hstart => rfl
  | halted hvisits hlength hhalts =>
    dsimp only
    rw [hvisits.secant_eq, c.foldl_learn, c.reset_teach]

/-- A run leaves a secant that is emptied to the same as the one it was given. -/
theorem Action.run_reset [Secant α τ] {s : Session α σ τ n} (hS : s.method.solver.Resettable) :
    run.Ends
      (fun _ t => t.method.secant.map Secant.reset = s.method.secant.map Secant.reset)
      (fun _ t => t.method.secant.map Secant.reset = s.method.secant.map Secant.reset) s := by
  refine ends_run
    (fun _ t => s.Alike t ∧ t.method.secant.map Secant.reset = s.method.secant.map Secant.reset ∧
      ∃ x : Vector α n, t.x = x.toArray)
    (fun _ t => t.method.secant.map Secant.reset = s.method.secant.map Secant.reset)
    ?_ ?_ (fun t h => h.2.1) ?_
  · refine (openRun_ends s).mono ?_ ?_
    · rintro - t ⟨x, g, v, h⟩
      exact ⟨h.toAlike, by rw [h.secant], x, h.point⟩
    · intro e t h
      rw [h.secant]
  · rintro k t - ⟨ht, hsecant, x, hx⟩
    have hsolution : (t.solution x).result.secant.map Secant.reset =
        s.method.secant.map Secant.reset := by
      rw [← hsecant]
      unfold Session.solution
      rw [ht.solver]
      exact hS ..
    refine (iterate_ends hx).mono ?_ ?_
    · rintro v u ⟨-, y, g, w, report, hu⟩
      have hsame : u.method.secant.map Secant.reset = s.method.secant.map Secant.reset := by
        rw [hu.secant, hsolution]
      cases v with
      | none => exact ⟨ht.trans hu.toAlike, hsame, y, hu.point⟩
      | some status => exact hsame
    · rintro e u (hu | ⟨hw, hu⟩)
      · rw [hu.secant, hsolution]
      · rw [hu.secant, hw.secant, hsolution]
  · intro status t ht
    refine (close_ends t status).mono ?_ ?_
    · intro _ u h
      rw [h.2.secant, ht]
    · intro _ u h
      rw [h.2.secant, ht]

/-! ## Methods in use -/

namespace Method

/-- `M` was made from the options `o`, and then used: with its own solver and secant it has opened
and recorded parts of runs and run, on any problems and with any outcome. -/
inductive Used (o : Options α) : Method α Unit (LimitedMemory α) → Prop
  | new {M : Method α Unit (LimitedMemory α)} (h : ofOptions o = .ok M) : Used o M
  | opened {n : Nat} {s : Session α Unit (LimitedMemory α) n} (h : Used o s.method) :
      Used o (Session.after (openRun s)).method
  | recorded {n : Nat} {s : Session α Unit (LimitedMemory α) n} (h : Used o s.method)
      (x : Array α) : Used o (Session.after (record x s)).method
  | ran {n : Nat} {M : Method α Unit (LimitedMemory α)} (h : Used o M) (f : Objective α)
      (B : Box α n) (x g : Array α) (k : Sink) : Used o (Session.after (M.run f B x g k)).method

/-- `M` is `N` but for what earlier runs have left in it. -/
structure Renews (N M : Method α Unit (LimitedMemory α)) : Prop where
  options : M.options = N.options
  solver : M.solver = N.solver
  plan : M.schedules.reset = N.schedules.reset
  secant : M.secant.map Secant.reset = N.secant.map Secant.reset

variable {o : Options α} {M N : Method α Unit (LimitedMemory α)}

omit [Numeral α] in
theorem Renews.of_alike {s t : Session α Unit (LimitedMemory α) n} (h : N.Renews s.method)
    (ht : s.Alike t)
    (hsecant : t.method.secant.map Secant.reset = s.method.secant.map Secant.reset) :
    N.Renews t.method :=
  ⟨ht.options.trans h.options, ht.solver.trans h.solver, ht.plan.trans h.plan,
    hsecant.trans h.secant⟩

omit [Numeral α] in
/-- Beginning a run empties the secant and leaves the past in the state and the schedules only. -/
theorem Renews.session_eq (h : N.Renews M) (f : Objective α) (B : Box α n) (x g : Array α)
    (k : Sink) :
    M.session f B x g k = (N.session f B x g k).withPast M.schedules M.state := by
  obtain ⟨hoptions, hsolver, -, hsecant⟩ := h
  unfold session Session.withPast
  rw [hoptions, hsolver, hsecant]

theorem Used.renews (h : M.Used o) (hN : ofOptions o = .ok N) : N.Renews M := by
  have hsolver : N.solver.Resettable := by
    obtain ⟨-, c, secant, -, -, rfl⟩ := ofOptions_eq_ok hN
    exact c.resettable o
  induction h with
  | new h =>
    obtain rfl := Except.ok.inj (hN.symm.trans h)
    exact ⟨rfl, rfl, rfl, rfl⟩
  | @opened n s h ih =>
    refine Ends.after (P := fun t => N.Renews t.method) ?_
    refine (openRun_ends s).mono ?_ ?_
    · rintro - t ⟨x, g, v, ht⟩
      exact ih.of_alike ht.toAlike (by rw [ht.secant])
    · intro e t ht
      exact ih.of_alike ht.toAlike (by rw [ht.secant])
  | @recorded n s h x ih =>
    refine Ends.after (P := fun t => N.Renews t.method) ?_
    refine (record_ends s x).mono ?_ ?_
    · rintro - t ⟨y, g, v, -, ht⟩
      exact ih.of_alike ht.toAlike (by rw [ht.secant])
    · intro e t ht
      exact ih.of_alike ht.toAlike (by rw [ht.secant])
  | @ran n M h f B x g k ih =>
    have hsession : N.Renews (M.session f B x g k).method := by
      refine ⟨ih.options, ih.solver, ih.plan, ?_⟩
      rw [← ih.secant]
      show (M.secant.map Secant.reset).map Secant.reset = _
      cases M.secant <;> rfl
    have hreset := run_reset (s := M.session f B x g k) (hsession.solver ▸ hsolver)
    refine Ends.after (P := fun t => N.Renews t.method) ?_
    exact ((run_alike _).and hreset).mono (fun _ t ht => hsession.of_alike ht.1 ht.2)
      fun _ t ht => hsession.of_alike ht.1 ht.2

/-- Whatever a method has done before, it runs like a new one: it gives the same answer, leaves the
same point and gradient, and writes and shows the same. If the run is opened, the whole session it
leaves is the same, and with it the state. -/
theorem run_like_new (hM : M.Used o) (hN : ofOptions o = .ok N) (f : Objective α) (B : Box α n)
    (x g : Array α) (k : Sink) :
    Session.SameOutside (M.run f B x g k) (N.run f B x g k) ∧
      ∀ t, openRun (M.session f B x g k) = .ok () t → M.run f B x g k = N.run f B x g k := by
  have hrenews := hM.renews hN
  unfold run
  rw [hrenews.session_eq f B x g k]
  exact run_withPast hrenews.plan M.state

/-- A run in the plane after one on the line. -/
theorem run_like_new_standard :
    letI := Exact.unwritten
    let M := (Session.after (standard.run .zero (.free 1) #[1] #[0] .unlimited)).method
    M.Used .standard ∧ ofOptions .standard = .ok standard ∧
      Session.SameOutside (M.run .zero (.free 2) #[1, 0] #[0, 0] .unlimited)
        (standard.run .zero (.free 2) #[1, 0] #[0, 0] .unlimited) ∧
      ∀ t, openRun (M.session .zero (.free 2) #[1, 0] #[0, 0] .unlimited) = .ok () t →
        M.run .zero (.free 2) #[1, 0] #[0, 0] .unlimited =
          standard.run .zero (.free 2) #[1, 0] #[0, 0] .unlimited :=
  letI := Exact.unwritten
  have hM := (Used.new ofOptions_standard).ran .zero (.free 1) #[1] #[0] .unlimited
  ⟨hM, ofOptions_standard, run_like_new hM ofOptions_standard ..⟩

end Method

end LogBarrier

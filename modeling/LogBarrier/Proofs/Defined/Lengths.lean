import LogBarrier.Proofs.Iterating
import LogBarrier.Proofs.Defined.Descent
import LogBarrier.Proofs.Stages

/-!
# Vectors of one length

With gradients as long as their points and pairs of the dimension of the problem, no two vectors of
different lengths ever meet. What is left to fail is told to the caller: a solve fails only where
the objective is not finite, and a run fails with an error of its own.
-/

namespace LogBarrier

open Scalar LogBarrier.Action

variable {α σ τ β : Type} [Scalar α] {n : ℕ}

/-- The failure is an error that the caller is told. -/
def Failure.IsError (e : Failure) : Prop := ∃ reported, e = .error reported

theorem Failure.isError_error (e : Error) : (Failure.error e).IsError := ⟨e, rfl⟩

/-! ## Gradients -/

/-- At points with `n` coordinates the gradients have as many. -/
def Objective.FitsLength (f : Objective α) (n : ℕ) : Prop :=
  ∀ x : Vector α n, (f.gradient x.toArray).size = n

/-- There are gradients of the right length at all points. -/
def GradientFits (gradient : Vector α n → Trying α (Array α)) : Prop :=
  ∀ x, ∃ g : Vector α n, (gradient x).run.result = .ok g.toArray

section

variable {f : Objective α}

omit [Scalar α] in
theorem Objective.FitsLength.gradientAt (h : f.FitsLength n) :
    GradientFits (f.gradientAt : Vector α n → _) := fun x => ⟨⟨_, h x⟩, rfl⟩

theorem Augmented.gradientFits {A : Augmented α n} (h : A.objective.FitsLength n) :
    GradientFits A.gradient := by
  intro x
  have hsized : sized n (A.objective.gradient x.toArray) = .ok ⟨_, h x⟩ := sized_toArray ⟨_, h x⟩
  refine ⟨⟨_, h x⟩ + A.mu * A.barrierSlopes x, Trying.bind_eq_ok_iff.mpr ⟨_, rfl, ?_⟩⟩
  exact Trying.bind_eq_ok_iff.mpr ⟨_, hsized, rfl⟩

/-- A forward difference along a vector of the right length. -/
theorem exists_forwardDifference {gradient : Vector α n → Trying α (Array α)}
    (h : GradientFits gradient) (x v : Vector α n) :
    ∃ d : Vector α n, (forwardDifference gradient x v.toArray).run.result = .ok d.toArray := by
  by_cases hv : Same (norm v) 0
  · exact ⟨0, by rw [forwardDifference_of_same gradient x hv]; rfl⟩
  · obtain ⟨g, hg⟩ := h x
    obtain ⟨shifted, hshifted⟩ := h (x + differenceStep x (norm v) * v)
    exact ⟨_, forwardDifference_of_not_same hv hg hshifted⟩

end

/-! ## Solves -/

section

variable {F : Oracle α n} {B : Box α n} {x : Vector α n}

theorem isError_of_finiteValue {e : Failure} (h : (finiteValue F x).run.result = .error e) :
    e.IsError := by
  rcases Trying.bind_eq_error_iff.mp h with h | ⟨v, -, h⟩
  · cases h
  · split at h
    · cases h
    · cases h
      exact Failure.isError_error _

theorem isError_of_finiteGradient (hF : GradientFits F.gradient) {e : Failure}
    (h : (finiteGradient F x).run.result = .error e) : e.IsError := by
  obtain ⟨g, hg⟩ := hF x
  rcases Trying.bind_eq_error_iff.mp h with h | ⟨g', hg', h⟩
  · rw [hg] at h
    cases h
  · rw [hg] at hg'
    cases hg'
    split at h
    · rw [sized_toArray] at h
      cases h
    · cases h
      exact Failure.isError_error _

theorem Iterate.isError_of_start (hF : GradientFits F.gradient) {e : Failure}
    (h : (Iterate.start F B x).run.result = .error e) : e.IsError := by
  rcases Trying.bind_eq_error_iff.mp h with h | ⟨v, -, h⟩
  · exact isError_of_finiteValue h
  · rcases Trying.bind_eq_error_iff.mp h with h | ⟨g, -, h⟩
    · exact isError_of_finiteGradient hF h
    · cases h

end

section

variable {F : Oracle Exact n} {B : Box Exact n} {x : Vector Exact n}
  {h : Option (LimitedMemory Exact)}

/-- With pairs of the right dimension every search comes to an end. -/
theorem SolverChoice.exists_search (c : SolverChoice) (o : Options Exact) (F : Oracle Exact n)
    (B : Box Exact n) (hh : ∀ k ∈ h, k.Fits n) (it : Iterate Exact n) :
    ∃ t, ((c.descent o F B).search h it).run.result = .ok t := by
  cases c with
  | spectral => exact ⟨_, rfl⟩
  | quasiNewton =>
    have hdirection : ∃ d, secantDirection? B it h = .ok d := by
      cases h with
      | none => exact ⟨_, rfl⟩
      | some k =>
        obtain ⟨u, hu⟩ := (hh k rfl).exists_apply (B.freePart it.x it.gradient it.gradient)
        unfold secantDirection?
        dsimp only
        rw [hu]
        split <;> exact ⟨_, rfl⟩
    obtain ⟨d, hd⟩ := hdirection
    refine ⟨(LineSearch.ofOptions o).quasiNewtonTrial F B it d, ?_⟩
    exact (quasiNewtonSearch_result ..).trans (congrArg _ hd)

/-- A solve fails only where the objective is not finite. -/
theorem SolverChoice.isError_of_solve (hF : GradientFits F.gradient) (c : SolverChoice)
    (o : Options Exact) (tol : Tolerances Exact) (hh : ∀ k ∈ h, k.Fits n) {e : Failure}
    (he : ((c.solver o).solve F B tol x () h).result.outcome = .error e) : e.IsError := by
  have hleaves := (c.descent o F B).solve_leaves F B tol x h
  rw [solve_result] at he
  generalize ((c.descent o F B).solve F B tol x h).result = exit at hleaves he
  -- Of the ways to end, a failed search is ruled out, and the others are for lack of finite values.
  cases hleaves with
  | unstarted hstart =>
    cases he
    exact Iterate.isError_of_start hF hstart
  | halted hvisits hlength hhalts =>
    dsimp only at he
    subst he
    have hkept := hvisits.kept (fun _ => c.kept_learn (fun _ hk s y => hk.update s y) o F B) hh
    cases hhalts with
    | unsearched hsearch =>
      obtain ⟨t, ht⟩ := c.exists_search o F B hkept _
      rw [ht] at hsearch
      cases hsearch
    | unevaluated _ _ hgradient => exact isError_of_finiteGradient hF hgradient

end

/-! ## Runs -/

section

variable {s : Session α σ τ n}

theorem Objective.isError_of_checkedGradient {f : Objective α} {x : Vector α n} {e : Failure}
    (h : f.checkedGradient x = .error e) : e.IsError := by
  unfold checkedGradient at h
  split at h
  · split at h
    · cases h
    · cases h
      exact Failure.isError_error _
  · cases h
    exact Failure.isError_error _

theorem Objective.isError_of_checkedValue {f : Objective α} {x : Array α} {e : Failure}
    (h : f.checkedValue x = .error e) : e.IsError := by
  unfold checkedValue at h
  split at h
  · cases h
  · cases h
    exact Failure.isError_error _

theorem Box.isError_of_opening {B : Box α n} {x : Array α} {e : Failure}
    (h : B.opening x = .error e) : e.IsError := by
  unfold opening at h
  split at h
  · cases hempty : B.firstEmpty? with
    | some i =>
      rw [hempty] at h
      cases h
      exact Failure.isError_error _
    | none =>
      rw [hempty] at h
      cases h
  · cases h
    exact Failure.isError_error _

/-- If the action fails, the caller is told an error. -/
def Action.FailsWithError (act : Action α σ τ n β) (s : Session α σ τ n) : Prop :=
  act.Ends (fun _ _ => True) (fun e _ => e.IsError) s

variable [Numeral α]

theorem Action.failsWithError_openRun (s : Session α σ τ n) : openRun.FailsWithError s := by
  unfold FailsWithError openRun
  simp only [ends_faulting, ends_bind, ends_get, ends_modify, ends_of, ends_gradientAt,
    ends_valueAt, ends_stationarity]
  refine ⟨fun x _ => ⟨fun g _ => ⟨fun v _ => ?_, fun e he => ?_⟩, fun e he => ?_⟩, fun e he => ?_⟩
  · rw [ends_ite]
    refine ⟨fun _ => ?_, fun _ => trivial⟩
    refine (tells_write _).ends_bind (fun _ => ?_) fun _ _ => Failure.isError_error _
    refine (tells_write _).ends_bind (fun _ => ?_) fun _ _ => Failure.isError_error _
    exact (tells_write _).ends_bind (fun _ => trivial) fun _ _ => Failure.isError_error _
  · exact Objective.isError_of_checkedValue he
  · exact Objective.isError_of_checkedGradient he
  · exact Box.isError_of_opening he

theorem Action.failsWithError_record (x : Vector α n) (s : Session α σ τ n) :
    (record x.toArray).FailsWithError s := by
  rw [record_toArray]
  unfold FailsWithError recordAt
  simp only [ends_faulting, ends_bind, ends_get, ends_modify, ends_of, ends_gradientAt,
    ends_valueAt, ends_stationarity]
  refine ⟨fun g _ => ⟨fun v _ => ?_, fun e he => ?_⟩, fun e he => ?_⟩
  · rw [ends_ite, ends_ite]
    refine ⟨fun _ => ⟨fun _ => ?_, fun _ => ?_⟩, fun _ => trivial⟩
    · refine (tells_write _).ends_bind (fun _ => ?_) fun _ _ => Failure.isError_error _
      exact (tells_write _).ends_bind (fun _ => trivial) fun _ _ => Failure.isError_error _
    · exact (tells_write _).ends_bind (fun _ => trivial) fun _ _ => Failure.isError_error _
  · exact Objective.isError_of_checkedValue he
  · exact Objective.isError_of_checkedGradient he

omit [Scalar α] [Numeral α] in
theorem Action.failsWithError_close (s : Session α σ τ n) (status : Status) :
    (close status).FailsWithError s := by
  refine (close_ends s status).mono (fun _ _ _ => trivial) ?_
  rintro e t ⟨rfl, -⟩
  exact Failure.isError_error _

end

section

variable {c : SolverChoice} {o : Options Exact}
  {s t : Session Exact Unit (LimitedMemory Exact) n}

/-- A session with a solver of the library, where all that vectors of length `n` can meet has that
length. -/
structure Session.Fits (c : SolverChoice) (o : Options Exact)
    (s : Session Exact Unit (LimitedMemory Exact) n) : Prop where
  solver : s.method.solver = c.solver o
  gradients : s.augmented.objective.FitsLength n
  secant : ∀ h ∈ s.method.secant, h.Fits n

namespace Session.Fits

theorem alike (h : s.Fits c o) (ht : s.Alike t) (hsecant : ∀ k ∈ t.method.secant, k.Fits n) :
    t.Fits c o where
  solver := ht.solver.trans h.solver
  gradients := by
    rw [ht.objective]
    exact h.gradients
  secant := hsecant

theorem opened (h : s.Fits c o) {x g : Vector Exact n} {v : Exact} (ht : s.Opened x g v t) :
    t.Fits c o :=
  h.alike ht.toAlike (ht.secant ▸ h.secant)

/-- What the solver leaves of the secant fits as the secant did. -/
theorem iterated (h : s.Fits c o) {x y g : Vector Exact n} {v : Exact} {report : SolveReport}
    (ht : s.Iterated x y g v report t) : t.Fits c o := by
  refine h.alike ht.toAlike ?_
  rw [ht.secant, solution, h.solver]
  exact c.kept_solve (fun _ hk s y => hk.update s y) o _ _ _ _ h.secant

theorem failsWithError_solveNext (h : s.Fits c o) {x : Vector Exact n} (hx : s.x = x.toArray) :
    solveNext.FailsWithError s := by
  have houtcome {e : Failure} (he : (s.solution x).result.outcome = .error e) : e.IsError := by
    rw [solution, h.solver] at he
    exact c.isError_of_solve (Augmented.gradientFits h.gradients) o _ h.secant he
  have hend : ∃ y : Vector Exact n, (s.solution x).result.x = y.toArray := by
    rw [solution, h.solver, c.solve_result]
    exact ⟨_, rfl⟩
  -- So the point that the solver leaves can be projected, and only its outcome can be a failure.
  obtain ⟨y, hy⟩ := hend
  unfold FailsWithError Ends
  rw [solveNext_apply hx, hy, sized_toArray]
  cases hresult : (s.solution x).result.outcome with
  | ok report => trivial
  | error e => exact houtcome hresult

variable [Numeral Exact]

theorem failsWithError_iterate (h : s.Fits c o) {x : Vector Exact n} (hx : s.x = x.toArray) :
    Action.iterate.FailsWithError s := by
  unfold FailsWithError Action.iterate
  rw [ends_bind]
  refine ((h.failsWithError_solveNext hx).and (solveNext_ends hx)).mono ?_ fun _ _ he => he.1
  rintro - t ⟨-, y, report, ht⟩
  rw [ends_bind, ends_get, ends_bind, ht.point]
  refine (failsWithError_record y t).mono ?_ fun _ _ he => he
  intro _ u _
  rw [ends_bind, ends_modify, ends_bind, ends_get]
  dsimp only
  split <;> trivial

theorem getsTo {i : ℕ} (h : s.Fits c o) (ht : s.GetsTo i t) : t.Fits c o := by
  induction ht with
  | opened hopen =>
    obtain ⟨x, g, v, ht⟩ := (openRun_ends s).of_ok hopen
    exact h.opened ht
  | iterated ht hiterate ih =>
    obtain ⟨-, x, y, g, v, report, -, hu⟩ := ht.exists_iterated hiterate
    exact ih.iterated hu

/-- A run fails only with an error for the caller. -/
theorem failsWithError_run (h : s.Fits c o) : Action.run.FailsWithError s := by
  refine ends_run (fun _ t => t.Fits c o ∧ ∃ x : Vector Exact n, t.x = x.toArray)
    (fun _ _ => True) ?_ ?_ (fun _ _ => trivial) fun status t _ => failsWithError_close t status
  · refine ((failsWithError_openRun s).and (openRun_ends s)).mono ?_ fun _ _ he => he.1
    rintro - t ⟨-, x, g, v, ht⟩
    exact ⟨h.opened ht, x, ht.point⟩
  · rintro k t - ⟨ht, x, hx⟩
    refine ((ht.failsWithError_iterate hx).and (iterate_ends hx)).mono ?_ fun _ _ he => he.1
    rintro (_ | status) u ⟨-, -, y, g, v, report, hu⟩
    · exact ⟨ht.iterated hu, y, hu.point⟩
    · trivial

end Session.Fits

end

end LogBarrier

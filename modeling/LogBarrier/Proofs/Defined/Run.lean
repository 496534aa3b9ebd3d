import LogBarrier.Proofs.Room
import LogBarrier.Proofs.Defined.Descent
import LogBarrier.Proofs.Translation
import LogBarrier.Proofs.Usage

/-!
# Defined runs

Other answers outside the domains of division and of the logarithm make other solvers and another
augmented objective, but not another run: it opens, records and closes without dividing, and what it
hands to the solver of a subproblem makes for a defined solve.
-/

namespace LogBarrier

open Scalar Exact LogBarrier.Action Translation

variable {σ τ β : Type} {m n : ℕ}

theorem Metered.translate_id {α : Type} (m : Metered α β) : m.translate id id = m :=
  eq_of_parts rfl (List.map_id m.calls) rfl

/-! ## Other solvers -/

/-- The session with the solver `S` in place of its own. -/
def Session.withSolver {α : Type} (S : Solver α σ τ) (s : Session α σ τ n) : Session α σ τ n :=
  { s with method := { s.method with solver := S } }

/-- To a session with the solver `S` all words mean the same. -/
def Solver.translation {α : Type} (S : Solver α σ τ) : Translation α σ τ n n where
  call := id
  state := id
  message := id
  session := Session.withSolver S
  SameFailure := Eq
  same_refl _ := rfl
  session_log s e := by cases e <;> rfl
  session_charge s q := by
    unfold Session.charge Metered.translate
    rw [List.map_id]
    rfl
  session_fault _ := rfl
  sink_session _ := rfl
  session_sink _ _ := rfl

theorem Translation.Matches.eq_onEnd {α : Type} {S : Solver α σ τ}
    {r r' : EStateM.Result Failure (Session α σ τ n) β} (h : S.translation.Matches id r r') :
    r' = Session.onEnd (Session.withSolver S) r := by
  cases h with
  | ok b t => rfl
  | error t he =>
    cases he
    rfl

namespace Solver

variable {α : Type} [Scalar α] {S : Solver α σ τ} {s : Session α σ τ n}

theorem carries_gradientAt (x : Vector α m) :
    S.translation.Carries id (gradientAt x) (gradientAt x) s := by
  unfold Carries
  rw [gradientAt_apply, gradientAt_apply]
  exact carries_of_same _

theorem carries_valueAt (x : Array α) :
    S.translation.Carries id (valueAt x) (valueAt x) s := by
  unfold Carries
  rw [valueAt_apply, valueAt_apply]
  exact carries_of_same _

variable [Numeral α]

/-- The report begins with the name of the solver. -/
theorem carries_announce (hname : S.name = s.method.solver.name) :
    S.translation.Carries id announce announce s := by
  have htitle : Report.title S.name = Report.title s.method.solver.name :=
    congrArg Report.title hname
  unfold announce
  refine carries_get_bind ?_
  refine carries_ite ?_ (carries_shown rfl rfl)
  show S.translation.Carries id _ (write (Report.title S.name) >>= _) s
  rw [htitle]
  refine (carries_write _).bind fun _ _ _ => ?_
  refine (carries_write _).bind fun _ _ _ => ?_
  exact (carries_write _).bind fun _ _ _ => carries_shown rfl rfl

theorem carries_openRun (hname : S.name = s.method.solver.name) :
    S.translation.Carries id openRun openRun s := by
  unfold Carries
  rw [openRun_apply, openRun_apply]
  have hopening : (S.translation.session s).augmented.box.opening (S.translation.session s).x =
      s.augmented.box.opening s.x := rfl
  have hgradient (x : Vector α n) :
      (S.translation.session s).augmented.objective.checkedGradient x =
        s.augmented.objective.checkedGradient x := rfl
  have hvalue (x : Vector α n) :
      (S.translation.session s).augmented.objective.checkedValue x.toArray =
        s.augmented.objective.checkedValue x.toArray := rfl
  rw [hopening]
  cases s.augmented.box.opening s.x with
  | error e => exact .error_refl e s.fault
  | ok x =>
    dsimp only
    rw [hgradient]
    cases s.augmented.objective.checkedGradient x with
    | error e => exact .error_refl e (s.movedTo x).fault
    | ok g =>
      dsimp only
      rw [hvalue]
      cases s.augmented.objective.checkedValue x.toArray with
      | error e => exact .error_refl e (s.gradedAt x g).fault
      | ok v =>
        have hannounce : S.translation.Carries id announce announce (s.openedAt x g v) :=
          carries_announce hname
        exact hannounce.faulting

omit [Numeral α] in
theorem carries_stationarity (x g : Vector α n) :
    S.translation.Carries id (stationarity x g) (stationarity x g) s := by
  unfold stationarity
  exact carries_get_bind (carries_modify_bind rfl (carries_pure _))

theorem carries_record (x : Array α) : S.translation.Carries id (record x) (record x) s := by
  unfold record
  refine ((carries_gradientAt x.toVector).bind fun g t _ => ?_).faulting
  split
  · unfold recordAt
    refine (carries_stationarity _ _).bind fun gnorm t _ => ?_
    refine carries_get_bind ?_
    refine carries_modify_bind rfl ?_
    refine (carries_valueAt _).bind fun v u _ => ?_
    refine carries_modify_bind rfl ?_
    refine carries_get_bind ?_
    refine carries_ite (carries_ite ?_ ?_) (carries_shown rfl rfl)
    · refine (carries_write _).bind fun _ _ _ => ?_
      exact (carries_write _).bind fun _ _ _ => carries_shown rfl rfl
    · exact (carries_write _).bind fun _ _ _ => carries_shown rfl rfl
  · exact .error_refl _ _

omit [Scalar α] [Numeral α] in
theorem carries_close (status : Status) :
    S.translation.Carries id (close status) (close status) s := by
  unfold close
  refine carries_modify_bind rfl ?_
  refine carries_get_bind ?_
  refine (carries_note _).bind fun _ _ _ => ?_
  refine carries_ite ?_ (carries_pure _)
  exact (carries_write _).bind fun _ _ _ => carries_pure _

end Solver

/-! ## Iterating -/

/-- The solver of the kind when `w` answers outside the domains. -/
noncomputable def SolverChoice.solverUnder (w : Whim) (o : Options Exact) (c : SolverChoice) :
    Solver Exact Unit (LimitedMemory Exact) :=
  @SolverChoice.solver _ _ w.scalar (@LimitedMemory.instSecant _ w.scalar) o c

theorem SolverChoice.name_solverUnder (w : Whim) (o : Options Exact) (c : SolverChoice) :
    (c.solverUnder w o).name = (c.solver o : Solver Exact Unit (LimitedMemory Exact)).name := by
  obtain ⟨name, hname⟩ := c.exists_name
  exact (hname w.scalar o).trans (hname inferInstance o).symm

namespace Session

variable {c : SolverChoice} {o : Options Exact} {w : Whim}
  {s t : Session Exact Unit (LimitedMemory Exact) n}

/-- The session is at a point, with a solver of the library and no pairs but of positive
curvature. -/
structure Ready (c : SolverChoice) (o : Options Exact)
    (s : Session Exact Unit (LimitedMemory Exact) n) : Prop where
  solver : s.method.solver = c.solver o
  positive : ∀ h ∈ s.method.secant, h.Positive
  point : ∃ x : Vector Exact n, s.x = x.toArray

theorem Ready.iterated (h : s.Ready c o) {x y g : Vector Exact n} {v : Exact}
    {report : SolveReport} (ht : s.Iterated x y g v report t) : t.Ready c o where
  solver := ht.solver.trans h.solver
  positive := by
    rw [ht.secant, solution, h.solver]
    exact c.kept_solve (fun _ hk s y => hk.update s y) o _ _ _ _ h.positive
  point := ⟨y, ht.point⟩

theorem Ready.carries_solveNext (h : s.Ready c o) :
    (c.solverUnder w o).translation.Carries id solveNext (@solveNext _ _ _ w.scalar n) s := by
  unfold solveNext
  refine carries_get_bind ?_
  refine (carries_note _).bind fun _ t ht => ?_
  cases ht
  refine (carries_of_same (sized n s.x)).bind fun x t ht => ?_
  obtain ⟨x', hx'⟩ := h.point
  rw [hx', sized_toArray] at ht
  cases ht
  -- The solver is another one, and the function that it is shown has other products.
  have hsolve : (c.solverUnder w o).solve (@Augmented.oracle _ n w.scalar s.augmented)
      s.augmented.box s.method.tolerances x s.method.memory s.method.secant =
        (s.method.solver.solve s.augmented.oracle s.augmented.box s.method.tolerances x
          s.method.memory s.method.secant).translate id id := by
    rw [Metered.translate_id, h.solver]
    exact c.defined_solve o s.augmented.isDefined_oracle _ _ x h.positive w
  have hname : (c.solverUnder w o).name = s.method.solver.name := by
    rw [h.solver]
    exact c.name_solverUnder w o
  refine (carries_ask hsolve).bind fun r t _ => ?_
  refine carries_modify_bind rfl ?_
  refine (carries_forM_note (List.map_id r.notes)).bind fun _ _ _ => ?_
  refine (carries_of_same r.outcome).faulting.bind fun report t _ => ?_
  refine (carries_of_same (sized n r.x)).bind fun z t _ => ?_
  refine carries_modify_bind rfl ?_
  refine carries_ite ?_ (carries_pure _)
  show Translation.Carries _ id _
    (note (.logged (.unconverged (c.solverUnder w o).name _ _ _))) _
  rw [hname]
  exact carries_note _

variable [Numeral Exact]

theorem Ready.carries_iterate (h : s.Ready c o) :
    (c.solverUnder w o).translation.Carries id Action.iterate
      (@Action.iterate _ _ _ w.scalar n _) s := by
  unfold Action.iterate
  refine h.carries_solveNext.bind fun _ t ht => ?_
  refine carries_get_bind ?_
  refine (Solver.carries_record t.x).bind fun _ u _ => ?_
  refine carries_modify_bind rfl ?_
  refine carries_get_bind ?_
  refine carries_ite ?_ (carries_pure _)
  exact (carries_note _).bind fun _ _ _ => carries_pure _

theorem Ready.carries_loop (left : ℕ) (h : s.Ready c o) :
    (c.solverUnder w o).translation.Carries id (loop left)
      (@loop _ _ _ w.scalar n _ left) s := by
  induction left generalizing s with
  | zero => exact carries_pure _
  | succ left ih =>
    unfold loop
    refine h.carries_iterate.bind fun v t ht => ?_
    cases v with
    | some status => exact carries_pure _
    | none =>
      obtain ⟨x, hx⟩ := h.point
      obtain ⟨-, y, g, v, report, ht⟩ := (iterate_ends hx).of_ok ht
      exact ih (h.iterated ht)

/-- A run with a solver of the library, from pairs of positive curvature. -/
theorem carries_run (hsolver : s.method.solver = c.solver o)
    (hpositive : ∀ h ∈ s.method.secant, h.Positive) :
    (c.solverUnder w o).translation.Carries id run (@run _ _ _ w.scalar n _) s := by
  have hname : (c.solverUnder w o).name = s.method.solver.name := by
    rw [hsolver]
    exact c.name_solverUnder w o
  unfold run
  refine (Solver.carries_openRun hname).bind fun _ t ht => ?_
  obtain ⟨y, g, v, ht⟩ := (openRun_ends s).of_ok ht
  have hready : t.Ready c o := by
    refine ⟨ht.solver.trans hsolver, ?_, y, ht.point⟩
    rw [ht.secant]
    exact hpositive
  refine carries_get_bind ?_
  refine (hready.carries_loop _).bind fun status u _ => ?_
  exact Solver.carries_close status

end Session

/-! ## Whole runs -/

namespace Method

variable (M : Method Exact σ (LimitedMemory Exact)) (f : Objective Exact) (B : Box Exact n)
  (x g : Array Exact) (k : Sink)

/-- A run begins without dividing. -/
theorem defined_session : Defined fun _ => M.session f B x g k := fun _ => rfl

theorem session_withSolver (S S' : Solver Exact Unit (LimitedMemory Exact)) :
    (M.withSolver S' ()).session f B x g k =
      ((M.withSolver S ()).session f B x g k).withSolver S' := rfl

end Method

/-- Whatever the method, the problem and the sink: but for the solver itself, a run with a solver of
the library is defined. -/
theorem SolverChoice.defined_run [Numeral Exact] (c : SolverChoice) (o : Options Exact)
    (M : Method Exact σ (LimitedMemory Exact)) (f : Objective Exact) (B : Box Exact n)
    (x g : Array Exact) (k : Sink) (S : Solver Exact Unit (LimitedMemory Exact)) :
    Defined fun _ =>
      Session.onEnd (Session.withSolver S) ((M.withSolver (c.solver o) ()).run f B x g k) := by
  intro w
  let s := (M.withSolver (c.solver o) ()).session f B x g k
  have hpositive : ∀ h ∈ s.method.secant, h.Positive := by
    intro h hh
    obtain ⟨h, -, rfl⟩ := Option.map_eq_some_iff.mp hh
    exact fun _ hp => nomatch hp
  have hsession : @Method.session _ _ _ w.scalar n (@LimitedMemory.instSecant _ w.scalar)
      (M.withSolver (c.solverUnder w o) ()) f B x g k = s.withSolver (c.solverUnder w o) :=
    (Method.defined_session _ f B x g k w).trans (M.session_withSolver ..)
  have hrun : @run _ _ _ w.scalar n _ (s.withSolver (c.solverUnder w o)) =
      Session.onEnd (Session.withSolver (c.solverUnder w o)) (run s) :=
    Matches.eq_onEnd (Session.carries_run rfl hpositive)
  calc Session.onEnd (Session.withSolver S) (@run _ _ _ w.scalar n _
        (@Method.session _ _ _ w.scalar n (@LimitedMemory.instSecant _ w.scalar)
          (M.withSolver (c.solverUnder w o) ()) f B x g k))
      = Session.onEnd (Session.withSolver S)
          (Session.onEnd (Session.withSolver (c.solverUnder w o)) (run s)) := by
        rw [hsession, hrun]
    _ = Session.onEnd (Session.withSolver S) (run s) := by
        generalize run s = r
        cases r <;> rfl

end LogBarrier

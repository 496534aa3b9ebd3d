import LogBarrier.Proofs.Account
import LogBarrier.Proofs.ClosedForm
import LogBarrier.Proofs.Eliminated.Descent

/-!
# Runs without a fixed variable

With exact arithmetic and the spectral solver, a run does for the other variables what it would do
without the fixed one: it gives the same answer, shows the same states and writes the same report,
whatever the objective says about the partial derivative.
-/

namespace LogBarrier

open Scalar Exact LogBarrier.Action Translation

variable {σ τ : Type} {n : ℕ}

/-! ## Schedules -/

/-- The numbers of the schedule are finite, wherever it stands. -/
structure Schedule.Finite (s : Schedule Exact) : Prop where
  initial : IsFinite s.initial
  rate : IsFinite s.rate
  floor : IsFinite s.floor
  value : IsFinite s.value

namespace Schedule.Finite

variable {s : Schedule Exact}

theorem reset (h : s.Finite) : s.reset.Finite := ⟨h.initial, h.rate, h.floor, h.initial⟩

theorem advance (h : s.Finite) : s.advance.Finite := by
  refine ⟨h.initial, h.rate, h.floor, ?_⟩
  obtain ⟨a, ha⟩ := isFinite_iff.mp h.floor
  obtain ⟨b, hb⟩ := isFinite_iff.mp (isFinite_mul h.rate h.value)
  rw [Schedule.value_advance, ha, hb, max_real]
  exact isFinite_real _

end Schedule.Finite

theorem RealSchedule.finite {initial rate floor : Exact} (p : RealSchedule initial rate floor) :
    (Schedule.start initial rate floor).Finite := by
  obtain ⟨a, r, c, rfl, rfl, rfl, -, -, -, -⟩ := p
  exact ⟨isFinite_real a, isFinite_real r, isFinite_real c, isFinite_real a⟩

/-! ## Evaluation -/

namespace Elimination

variable {E : Elimination n} {f : Objective Exact}

theorem checkedGradient_objective (hf : E.Smooth f) {x : Vector Exact (n + 1)} (hx : E.Holds x) :
    SameAnswer (E.SameFailure f) E.drop (f.checkedGradient x)
      ((E.objective f).checkedGradient (E.drop x)) := by
  obtain ⟨r, hr⟩ := hf.entry hx
  obtain ⟨hlt, hr⟩ := Array.getElem?_eq_some_iff.mp hr
  have hfill : E.fill (E.drop x).toArray = x.toArray := by rw [toArray_drop, E.fill_dropArray hx]
  have hmismatch := SameFailure.mismatch (E := E) (f := f) (E.drop x)
  have hgradient : (E.objective f).gradient (E.drop x).toArray =
      E.dropArray (f.gradient x.toArray) := congrArg (E.dropArray ∘ f.gradient) hfill
  by_cases hg : (f.gradient x.toArray).size = n + 1
  · obtain ⟨v, hv⟩ : ∃ v : Vector Exact (n + 1), f.gradient x.toArray = v.toArray :=
      ⟨⟨_, hg⟩, rfl⟩
    have hentry : IsFinite (v.get E.index) := by
      simp only [hv] at hr
      exact isFinite_iff.mpr ⟨r, hr⟩
    rw [hv, ← toArray_drop] at hgradient
    rw [Objective.checkedGradient_of_eq hv, Objective.checkedGradient_of_eq hgradient]
    simp only [E.allFinite_drop_iff hentry]
    split
    · exact .ok v
    · exact .error (.same _)
  · -- Both gradients have a wrong length, and the failures tell which: they differ by one.
    have hsize := E.size_dropArray hlt
    rw [hfill] at hmismatch
    unfold Objective.checkedGradient
    rw [hgradient, dif_neg hg, dif_neg (by omega), hsize]
    exact .error (hmismatch hg)

theorem checkedValue_objective {x : Vector Exact (n + 1)} (hx : E.Holds x) :
    (E.objective f).checkedValue (E.drop x).toArray = f.checkedValue x.toArray := by
  have hvalue : (E.objective f).value (E.drop x).toArray = f.value x.toArray := by
    rw [toArray_drop]
    exact congrArg f.value (E.fill_dropArray hx)
  unfold Objective.checkedValue
  rw [hvalue]

section

variable {s : Session Exact σ τ (n + 1)} {x : Vector Exact (n + 1)}

theorem charge_plainGradient (hx : E.Holds x) :
    (E.session s).charge ((E.session s).augmented.plainGradient (E.drop x).toArray) =
      E.session (s.charge (s.augmented.plainGradient x.toArray)) := by
  rw [E.session_charge s E.dropArray, ← plainGradient_augmented hx, toArray_drop]
  rfl

theorem charge_plainValue (hx : E.Holds x) :
    (E.session s).charge ((E.session s).augmented.plainValue (E.drop x).toArray) =
      E.session (s.charge (s.augmented.plainValue x.toArray)) := by
  rw [E.session_charge s id, ← plainValue_augmented hx, toArray_drop]
  rfl

theorem carries_gradientAt (hf : E.Smooth f) (hs : s.augmented.objective = f) (hx : E.Holds x) :
    (E.translation f).Carries E.drop (gradientAt x) (gradientAt (E.drop x)) s := by
  show (E.translation f).Matches E.drop (gradientAt x s) (gradientAt (E.drop x) (E.session s))
  rw [gradientAt_apply, gradientAt_apply, charge_plainGradient hx]
  refine carries_of ?_
  have hchecked := checkedGradient_objective hf hx
  rw [← hs] at hchecked ⊢
  exact hchecked

theorem carries_valueAt (hx : E.Holds x) :
    (E.translation f).Carries id (valueAt x.toArray) (valueAt (E.drop x).toArray) s := by
  have hchecked : (E.session s).augmented.objective.checkedValue (E.drop x).toArray =
      s.augmented.objective.checkedValue x.toArray := checkedValue_objective hx
  show (E.translation f).Matches id (valueAt x.toArray s)
    (valueAt (E.drop x).toArray (E.session s))
  rw [valueAt_apply, valueAt_apply, charge_plainValue hx, hchecked]
  exact carries_of_same _

end

/-! ## Opening -/

section

variable {s : Session Exact σ τ (n + 1)} {x g : Vector Exact (n + 1)}

theorem movedTo_session (hx : E.Holds x) :
    (E.session s).movedTo (E.drop x) = E.session (s.movedTo x) := by
  unfold Session.movedTo
  rw [E.session_charge _ E.dropArray, ← plainGradient_augmented hx, toArray_drop]
  rfl

theorem gradedAt_session (hx : E.Holds x) :
    (E.session s).gradedAt (E.drop x) (E.drop g) = E.session (s.gradedAt x g) := by
  unfold Session.gradedAt
  rw [E.session_charge _ id, ← plainValue_augmented hx, movedTo_session hx, toArray_drop,
    toArray_drop]
  rfl

theorem openedAt_session (hB : E.Fixes s.augmented.box) (hx : E.Holds x)
    (hg : IsFinite (g.get E.index)) (v : Exact) :
    (E.session s).openedAt (E.drop x) (E.drop g) v = E.session (s.openedAt x g v) := by
  have hgnorm : norm ((E.session s).augmented.box.residual (E.drop x) (E.drop g)) =
      norm (s.augmented.box.residual x g) := by
    rw [← E.norm_drop (hB.residual_index hx hg), ← residual_drop]
    rfl
  have hprojected : ((E.session s).augmented.box.project (E.drop x - E.drop g)).toArray =
      E.dropArray (s.augmented.box.project (x - g)).toArray := by
    rw [← toArray_drop, ← project_drop, drop_sub]
    rfl
  unfold Session.openedAt
  rw [hprojected, hgnorm, gradedAt_session hx]
  unfold Schedules.opening
  rw [toArray_drop, toArray_drop]
  rfl

variable [Numeral Exact]

theorem carries_announce (hB : E.Fixes s.augmented.box) :
    (E.translation f).Carries id announce announce s := by
  let t := s.method.state
  have hmessage : (Message.opened (n + 1) s.augmented.box.fixed.length t.mu t.gtol t.gnorm
      s.augmented.damping).eliminated = .opened n (E.session s).augmented.box.fixed.length
        t.mu t.gtol t.gnorm s.augmented.damping :=
    congrArg (Message.opened n · t.mu t.gtol t.gnorm s.augmented.damping) hB.length_fixed.symm
  unfold announce
  refine carries_get_bind ?_
  refine carries_ite ?_ (carries_shown hmessage rfl)
  refine (carries_write _).bind fun _ _ _ => ?_
  refine (carries_write _).bind fun _ _ _ => ?_
  exact (carries_write _).bind fun _ _ _ => carries_shown hmessage rfl

theorem carries_openRun (hf : E.Smooth f) (hs : s.augmented.objective = f)
    (hB : E.Fixes s.augmented.box) (hne : ∀ i : Fin (n + 1), ¬ (s.augmented.box.side i).IsEmpty)
    (hx : s.x = x.toArray) : (E.translation f).Carries id openRun openRun s := by
  have hopening : s.augmented.box.opening s.x = .ok (s.augmented.box.inset x) := by
    rw [hx, Box.opening_of_nonempty hne]
  have hopening' : (E.session s).augmented.box.opening (E.session s).x =
      .ok (E.drop (s.augmented.box.inset x)) := by
    have hstart : (E.session s).x = (E.drop x).toArray :=
      (congrArg E.dropArray hx).trans (E.toArray_drop x).symm
    rw [hstart, ← inset_drop]
    exact Box.opening_of_nonempty (E.nonempty_box hne) _
  have hholds : E.Holds (s.augmented.box.inset x) := hB.holds_inset x
  show (E.translation f).Matches id (openRun s) (openRun (E.session s))
  rw [openRun_apply, openRun_apply, hopening, hopening']
  generalize s.augmented.box.inset x = y at hholds
  have hgradient : SameAnswer (E.SameFailure f) E.drop (s.augmented.objective.checkedGradient y)
      ((E.session s).augmented.objective.checkedGradient (E.drop y)) := by
    show SameAnswer _ _ _ ((E.objective s.augmented.objective).checkedGradient _)
    rw [hs]
    exact checkedGradient_objective hf hholds
  have hvalue : (E.session s).augmented.objective.checkedValue (E.drop y).toArray =
      s.augmented.objective.checkedValue y.toArray := checkedValue_objective hholds
  have hfault {e e' : Failure} (t : Session Exact σ τ (n + 1)) (he : E.SameFailure f e e') :
      (E.translation f).Matches (id : Unit → Unit) (.error e t.fault)
        (.error e' (E.session t).fault) := by
    rw [← E.session_fault]
    exact .error t.fault he
  dsimp only
  rw [movedTo_session hholds]
  cases hg : s.augmented.objective.checkedGradient y with
  | error e =>
    rw [hg] at hgradient
    generalize (E.session s).augmented.objective.checkedGradient (E.drop y) = r' at hgradient
    cases hgradient with
    | error he => exact hfault _ he
  | ok g =>
    rw [hg] at hgradient
    generalize (E.session s).augmented.objective.checkedGradient (E.drop y) = r' at hgradient
    cases hgradient with
    | ok =>
      dsimp only
      rw [hvalue, gradedAt_session hholds]
      cases s.augmented.objective.checkedValue y.toArray with
      | error e => exact hfault _ (.same e)
      | ok v =>
        have hentry : IsFinite (g.get E.index) := (Objective.checkedGradient_eq_ok hg).2 _
        have hopened : E.Fixes (s.openedAt y g v).augmented.box := hB
        dsimp only
        rw [openedAt_session hB hholds hentry]
        exact (carries_announce hopened).faulting

/-! ## Recording -/

omit [Numeral Exact] in
theorem carries_stationarity (hB : E.Fixes s.augmented.box) (hx : E.Holds x)
    (hg : IsFinite (g.get E.index)) :
    (E.translation f).Carries id (stationarity x g) (stationarity (E.drop x) (E.drop g)) s := by
  have hprojected : (E.session s).augmented.box.project (E.drop x - E.drop g) =
      E.drop (s.augmented.box.project (x - g)) := by
    rw [← drop_sub]
    exact E.project_drop ..
  have hnorm : norm (E.drop (s.augmented.box.project (x - g)) - E.drop x) =
      norm (s.augmented.box.project (x - g) - x) := by
    rw [← drop_sub]
    exact E.norm_drop (hB.residual_index hx hg)
  unfold stationarity
  refine carries_get_bind ?_
  show Carries _ _ _ (modify (fun t => { t with
    projected := ((E.session s).augmented.box.project (E.drop x - E.drop g)).toArray }) >>= fun _ =>
      pure (norm ((E.session s).augmented.box.project (E.drop x - E.drop g) - E.drop x))) s
  rw [hprojected, hnorm]
  refine carries_modify_bind ?_ (carries_pure _)
  rw [toArray_drop]
  rfl

omit [Numeral Exact] in
theorem length_damped (hB : E.Fixes s.augmented.box) :
    (E.session s).augmented.damped.length = s.augmented.damped.length := by
  show (if s.augmented.damping then (E.box s.augmented.box).oneSided else []).length =
    (if s.augmented.damping then s.augmented.box.oneSided else []).length
  split
  · exact hB.length_oneSided
  · rfl

omit [Numeral Exact] in
theorem carries_advanced {u : Session Exact σ τ (n + 1)} (hB : E.Fixes u.augmented.box)
    (t : State Exact) (gnorm : Exact) :
    (E.translation f).Carries id
      (note (.logged (.advanced t.iteration t.mu t.gtol gnorm t.innerIterations
        u.augmented.damped.length)) >>= fun _ => note (.advanced t))
      (note (.logged (.advanced t.iteration t.mu t.gtol gnorm t.innerIterations
        (E.session u).augmented.damped.length)) >>= fun _ => note (.advanced (E.state t))) s := by
  rw [length_damped hB]
  exact carries_shown rfl rfl

theorem carries_recordAt (hB : E.Fixes s.augmented.box) (hx : E.Holds x)
    (hg : IsFinite (g.get E.index)) :
    (E.translation f).Carries id (recordAt x g) (recordAt (E.drop x) (E.drop g)) s := by
  unfold recordAt
  refine (carries_stationarity hB hx hg).bind fun gnorm t ht => ?_
  have ht : t.augmented.box = s.augmented.box := by
    cases ht
    rfl
  refine carries_get_bind ?_
  refine carries_modify_bind rfl ?_
  refine (carries_valueAt hx).bind fun v u hu => ?_
  have hu : E.Fixes u.augmented.box := by
    rw [valueAt_apply] at hu
    rw [eq_of_of_ok hu]
    exact ht ▸ hB
  refine carries_modify_bind ?_ ?_
  · unfold Session.mapState State.next
    rw [toArray_drop, toArray_drop]
    rfl
  refine carries_get_bind ?_
  refine carries_ite (carries_ite ?_ ?_) (carries_advanced hu _ _)
  · refine (carries_write _).bind fun _ _ _ => ?_
    exact (carries_write _).bind fun _ _ _ => carries_advanced hu _ _
  · exact (carries_write _).bind fun _ _ _ => carries_advanced hu _ _

/-- The gradient at a point where the variable has its value is dropped with the point. -/
theorem carries_record (hf : E.Smooth f) (hs : s.augmented.objective = f)
    (hB : E.Fixes s.augmented.box) (hx : E.Holds x) :
    (E.translation f).Carries id (record x.toArray) (record (E.dropArray x.toArray)) s := by
  rw [← toArray_drop, record_toArray, record_toArray]
  refine ((carries_gradientAt hf hs hx).bind fun g t ht => ?_).faulting
  rw [gradientAt_apply] at ht
  have hentry : IsFinite (g.get E.index) := by
    cases hg : s.augmented.objective.checkedGradient x with
    | error e =>
      rw [hg] at ht
      cases ht
    | ok g' =>
      rw [hg] at ht
      cases ht
      exact (Objective.checkedGradient_eq_ok hg).2 _
  have hbox : t.augmented.box = s.augmented.box := by rw [eq_of_of_ok ht]; rfl
  exact carries_recordAt (hbox ▸ hB) hx hentry

end

/-! ## Iterating -/

/-- The array is a point where the variable has its value. -/
def Lies (E : Elimination n) (xs : Array Exact) : Prop :=
  ∃ x : Vector Exact (n + 1), xs = x.toArray ∧ E.Holds x

theorem Lies.index_lt {xs : Array Exact} (h : E.Lies xs) : (E.index : ℕ) < xs.size := by
  obtain ⟨x, rfl, -⟩ := h
  exact E.index_lt_size x

theorem Lies.fill_dropArray {xs : Array Exact} (h : E.Lies xs) : E.fill (E.dropArray xs) = xs := by
  obtain ⟨x, rfl, hx⟩ := h
  exact E.fill_dropArray hx

/-- What stays over a run with the line search `P`: the problem, the solver, and finite schedules. -/
structure Works (E : Elimination n) (f : Objective Exact) (P : LineSearch Exact)
    (s : Session Exact Unit τ (n + 1)) : Prop where
  solver : s.method.solver = .spectral P
  objective : s.augmented.objective = f
  fixes : E.Fixes s.augmented.box
  schedule : s.method.schedules.mu.Finite

/-- The session is between two iterations. -/
structure Ready (E : Elimination n) (f : Objective Exact) (P : LineSearch Exact)
    (s : Session Exact Unit τ (n + 1)) : Prop extends E.Works f P s where
  mu : IsFinite s.augmented.mu
  point : E.Lies s.x
  shown : ∀ t ∈ s.journal.snapshots, E.Lies t.x

section

variable {P : LineSearch Exact} {s t : Session Exact Unit τ (n + 1)}
  {x y g : Vector Exact (n + 1)} {v : Exact} {report : SolveReport}

theorem Works.opened (h : E.Works f P s) (hs : s.journal.snapshots = []) (ht : s.Opened x g v t) :
    E.Ready f P t := by
  obtain ⟨y, -, -, rfl⟩ := Box.exists_of_opening_eq_ok ht.opening
  have hx : E.Lies (s.augmented.box.inset y).toArray := ⟨_, rfl, h.fixes.holds_inset y⟩
  have hreset := h.schedule.reset
  refine ⟨⟨ht.solver.trans h.solver, ht.objective.trans h.objective, ?_, ?_⟩, ?_, ?_, ?_⟩
  · rw [ht.box]
    exact h.fixes
  · rw [ht.schedules]
    exact hreset
  · rw [ht.mu]
    exact hreset.value
  · rw [ht.point]
    exact hx
  · rw [ht.snapshots, hs, List.nil_append, List.forall_mem_singleton, ht.state]
    exact hx

theorem Ready.holds_solution (h : E.Ready f P s) (hrate : IsFinite P.rate) (hx : s.x = x.toArray) :
    ∃ z : Vector Exact (n + 1), (s.solution x).result.x = z.toArray ∧ E.Holds z := by
  obtain ⟨y, hy, hholds⟩ := h.point
  obtain rfl := Vector.toArray_inj.mp (hx.symm.trans hy)
  unfold Session.solution
  rw [h.solver]
  exact h.fixes.holds_solve hrate hholds.isFinite _ _

/-- Where a solve ends, projected or not, the variable is at its value. -/
theorem Ready.holds_solvedTo (h : E.Ready f P s) (hrate : IsFinite P.rate)
    (hx : s.x = x.toArray) (ht : s.SolvedTo x y report t) : E.Holds y := by
  obtain ⟨z, hz, hholds⟩ := h.holds_solution hrate hx
  obtain ⟨z', hz', rfl⟩ := ht.ended
  obtain rfl := Vector.toArray_inj.mp (hz.symm.trans hz')
  exact h.fixes.holds_project hholds.isFinite

theorem Ready.iterated (h : E.Ready f P s) (hrate : IsFinite P.rate) (hx : s.x = x.toArray)
    (ht : s.Iterated x y g v report t) : E.Ready f P t := by
  obtain ⟨z, hz, hholds⟩ := h.holds_solution hrate hx
  obtain ⟨z', hz', rfl⟩ := ht.ended
  obtain rfl := Vector.toArray_inj.mp (hz.symm.trans hz')
  have hy : E.Lies (s.augmented.box.project z).toArray :=
    ⟨_, rfl, h.fixes.holds_project hholds.isFinite⟩
  have hadvance := h.schedule.advance
  refine ⟨⟨ht.solver.trans h.solver, ht.objective.trans h.objective, ?_, ?_⟩, ?_, ?_, ?_⟩
  · rw [ht.box]
    exact h.fixes
  · rw [ht.schedules]
    exact hadvance
  · rw [ht.mu]
    exact hadvance.value
  · rw [ht.point]
    exact hy
  · rw [ht.snapshots, List.forall_mem_append, List.forall_mem_singleton, ht.state]
    exact ⟨h.shown, hy⟩

/-- The next subproblem without the variable is solved as the whole one is. -/
theorem Ready.solution_drop (h : E.Ready f P s) (hf : E.Smooth f) (hrate : IsFinite P.rate)
    (hx : E.Holds x) :
    (E.session s).solution (E.drop x) = (s.solution x).translate E.call E.solved := by
  have hreduces := reduces_augmented h.fixes (h.objective.symm ▸ hf) h.mu
  unfold Session.solution
  show s.method.solver.solve _ _ _ _ _ _ = _
  rw [h.solver]
  exact solve_eliminated hreduces h.fixes hrate hx.isFinite _ _

theorem Ready.carries_solveNext (h : E.Ready f P s) (hf : E.Smooth f) (hrate : IsFinite P.rate) :
    (E.translation f).Carries id solveNext solveNext s := by
  obtain ⟨x, hx, hholds⟩ := h.point
  obtain ⟨z, hz, hend⟩ := h.holds_solution hrate hx
  have hstart : sized n (E.session s).x = (sized (n + 1) s.x).map E.drop :=
    E.sized_dropArray h.point.index_lt
  have hsized : sized n (E.solved (s.solution x).result).x =
      (sized (n + 1) (s.solution x).result.x).map E.drop :=
    E.sized_dropArray (Lies.index_lt ⟨z, hz, hend⟩)
  unfold solveNext
  refine carries_get_bind ?_
  refine (carries_note (.solving s.method.tolerances s.augmented.mu s.augmented.kappa)).bind
    fun _ t ht => ?_
  -- From here on the session is known, and with it the subproblem that is handed over.
  cases ht
  refine Carries.bind (h := E.drop) ?_ fun x' t ht => ?_
  · show Carries _ _ _ (Action.of (sized n (E.session s).x)) _
    rw [hstart]
    exact carries_of_map _
  rw [hx, sized_toArray] at ht
  cases ht
  refine (carries_ask (h.solution_drop hf hrate hholds)).bind fun r t hr => ?_
  cases hr
  refine carries_modify_bind rfl ?_
  refine (carries_forM_note (l := (s.solution x).result.notes) rfl).bind fun _ _ _ => ?_
  refine (carries_of_same (s.solution x).result.outcome).faulting.bind fun report t _ => ?_
  refine Carries.bind (h := E.drop) ?_ fun z' u hu => ?_
  · show Carries _ _ _ (Action.of (sized n (E.solved (s.solution x).result).x)) _
    rw [hsized]
    exact carries_of_map _
  change Action.of (sized (n + 1) (s.solution x).result.x) t = _ at hu
  rw [hz, sized_toArray] at hu
  cases hu
  have hproject : (E.session s).augmented.box.project (E.drop z) =
      E.drop (s.augmented.box.project z) := E.project_drop ..
  have hstep : norm (E.drop (s.augmented.box.project z) - E.drop x) =
      norm (s.augmented.box.project z - x) := by
    rw [← drop_sub]
    exact E.norm_drop (hholds.keeps (h.fixes.holds_project hend.isFinite))
  refine carries_modify_bind ?_ ?_
  · show Session.mapState (fun t => t.solved report
        (norm ((E.session s).augmented.box.project (E.drop z) - E.drop x)))
      { E.session t with x := ((E.session s).augmented.box.project (E.drop z)).toArray } = _
    rw [hproject, hstep, toArray_drop]
    rfl
  exact carries_ite (carries_note _) (carries_pure _)

variable [Numeral Exact]

theorem Ready.carries_iterate (h : E.Ready f P s) (hf : E.Smooth f) (hrate : IsFinite P.rate) :
    (E.translation f).Carries id Action.iterate Action.iterate s := by
  obtain ⟨x, hx, -⟩ := h.point
  unfold Action.iterate
  refine (h.carries_solveNext hf hrate).bind fun _ t ht => ?_
  obtain ⟨y, report, ht⟩ := (solveNext_ends hx).of_ok ht
  have hy := h.holds_solvedTo hrate hx ht
  have hrecord : (E.translation f).Carries id (record t.x) (record (E.session t).x) t := by
    show Carries _ _ _ (record (E.dropArray t.x)) _
    rw [ht.point]
    exact carries_record hf (ht.objective.trans h.objective) (ht.box ▸ h.fixes) hy
  refine carries_get_bind (hrecord.bind fun _ u _ => ?_)
  refine carries_modify_bind rfl (carries_get_bind ?_)
  refine carries_ite ?_ (carries_pure _)
  exact (carries_note _).bind fun _ _ _ => carries_pure _

theorem Ready.carries_loop (hf : E.Smooth f) (hrate : IsFinite P.rate) (left : ℕ)
    (h : E.Ready f P s) : (E.translation f).Carries id (loop left) (loop left) s := by
  induction left generalizing s with
  | zero => exact carries_pure _
  | succ left ih =>
    unfold loop
    refine (h.carries_iterate hf hrate).bind fun v t ht => ?_
    cases v with
    | some status => exact carries_pure _
    | none =>
      obtain ⟨x, hx, -⟩ := h.point
      obtain ⟨-, y, g, v, report, ht⟩ := (iterate_ends hx).of_ok ht
      exact ih (h.iterated hrate hx ht)

omit [Numeral Exact] in
theorem carries_close (status : Status) :
    (E.translation f).Carries id (close status) (close status) s := by
  unfold close
  refine carries_modify_bind rfl (carries_get_bind ?_)
  refine (carries_note _).bind fun _ _ _ => ?_
  refine carries_ite ?_ (carries_pure _)
  exact (carries_write _).bind fun _ _ _ => carries_pure _

theorem Works.carries_run (h : E.Works f P s) (hf : E.Smooth f) (hrate : IsFinite P.rate)
    (hne : ∀ i : Fin (n + 1), ¬ (s.augmented.box.side i).IsEmpty) (hx : s.x = x.toArray)
    (hs : s.journal.snapshots = []) : (E.translation f).Carries id run run s := by
  unfold run
  refine (carries_openRun hf h.objective h.fixes hne hx).bind fun _ t ht => ?_
  obtain ⟨y, g, v, ht⟩ := (openRun_ends s).of_ok ht
  refine carries_get_bind ?_
  refine ((h.opened hs ht).carries_loop hf hrate _).bind fun status u _ => ?_
  exact carries_close status

/-! ## Points -/

/-- The point that is reached and all that were shown have the value of the variable. -/
def Shows (E : Elimination n) (t : Session Exact Unit τ (n + 1)) : Prop :=
  E.Lies t.x ∧ ∀ u ∈ t.journal.snapshots, E.Lies u.x

omit [Numeral Exact] in
theorem Ready.shows (h : E.Ready f P s) : E.Shows s := ⟨h.point, h.shown⟩

variable (h : E.Works f P s) (hrate : IsFinite P.rate) (hs : s.journal.snapshots = [])

include h hrate hs

theorem Works.getsTo {k : ℕ} (ht : s.GetsTo k t) : E.Ready f P t := by
  induction ht with
  | opened ht =>
    obtain ⟨y, g, v, ht⟩ := (openRun_ends s).of_ok ht
    exact h.opened hs ht
  | iterated ht hu ih =>
    obtain ⟨-, x, y, g, v, report, hx, hu⟩ := ht.exists_iterated hu
    exact ih.iterated hrate hx hu

theorem Works.stops {k : ℕ} {status : Status} (ht : s.Stops k status t) : E.Ready f P t := by
  cases ht with
  | exhausted ht => exact h.getsTo hrate hs ht
  | judged ht hu =>
    obtain ⟨-, x, y, g, v, report, hx, hu⟩ := ht.exists_iterated hu
    exact (h.getsTo hrate hs ht).iterated hrate hx hu

theorem Works.fails (hne : ∀ i : Fin (n + 1), ¬ (s.augmented.box.side i).IsEmpty)
    (hx : s.x = x.toArray) {e : Failure} (ht : s.Fails e t) : E.Shows t := by
  cases ht with
  | opening ht =>
    refine ⟨?_, ?_⟩
    · -- If the point was not moved inside, the box was empty or the start had a wrong length.
      rcases ht.reached with ⟨hnone, -⟩ | ⟨y, hopening, hy, -⟩
      · exact absurd (hx ▸ Box.opening_of_nonempty hne x) (hnone _)
      · obtain ⟨z, -, -, rfl⟩ := Box.exists_of_opening_eq_ok hopening
        exact ⟨_, hy, h.fixes.holds_inset z⟩
    · rw [ht.snapshots, hs]
      exact List.forall_mem_nil _
  | iterating hw hx hu =>
    have hready := h.getsTo hrate hs hw
    refine ⟨?_, ?_⟩
    · cases hu with
      | notSolved hu =>
        obtain ⟨z, hz, hholds⟩ := hready.holds_solution hrate hx
        exact ⟨z, hu.point.trans hz, hholds⟩
      | notRecorded hv hu =>
        exact ⟨_, hu.point.trans hv.point, hready.holds_solvedTo hrate hx hv⟩
    · rw [hu.snapshots]
      exact hready.shown
  | closing hw hu =>
    obtain ⟨hpoint, hshown⟩ := (h.stops hrate hs hw).shows
    refine ⟨hu.point ▸ hpoint, ?_⟩
    rw [hu.snapshots]
    exact hshown

theorem Works.run_shows (hne : ∀ i : Fin (n + 1), ¬ (s.augmented.box.side i).IsEmpty)
    (hx : s.x = x.toArray) : E.Shows (Session.after (run s)) := by
  refine Ends.after ((run_stages s).mono ?_ fun e t ht => h.fails hrate hs hne hx ht)
  rintro v t ⟨k, u, hu, ht⟩
  obtain ⟨hpoint, hshown⟩ := (h.stops hrate hs hu).shows
  refine ⟨ht.point ▸ hpoint, ?_⟩
  rw [ht.snapshots]
  exact hshown

end

/-! ## Whole runs -/

/-- What is seen of the run without the variable, which ends in `r'`, compared with the whole run,
which ends in `r`. -/
structure Drops (E : Elimination n) (f : Objective Exact)
    (r : EStateM.Result Failure (Session Exact σ τ (n + 1)) Status)
    (r' : EStateM.Result Failure (Session Exact σ τ n) Status) : Prop where
  answer : SameAnswer (E.SameFailure f) id (Session.answer r) (Session.answer r')
  /-- There is no difference in the failures if the gradients have the right length. -/
  same_answer : (∀ y : Vector Exact n, (f.gradient (E.fill y.toArray)).size = n + 1) →
    Session.answer r' = Session.answer r
  x : (Session.after r).x = E.fill (Session.after r').x
  gradient : (Session.after r').gradient = E.dropArray (Session.after r).gradient
  state : (Session.after r').method.state = E.state (Session.after r).method.state
  snapshots : (Session.after r').journal.snapshots =
    (Session.after r).journal.snapshots.map E.state
  points : ∀ t ∈ (Session.after r).journal.snapshots, t.x = E.fill (E.state t).x
  output : (Session.after r').journal.output = (Session.after r).journal.output
  sink : (Session.after r').sink = (Session.after r).sink
  calls : (Session.after r').journal.calls = (Session.after r).journal.calls.map E.call
  handed : (Session.after r').journal.handed = (Session.after r).journal.handed

theorem SameFailure.eq_of_size {e e' : Failure} (h : E.SameFailure f e e')
    (hf : ∀ y : Vector Exact n, (f.gradient (E.fill y.toArray)).size = n + 1) : e = e' := by
  cases h with
  | same => rfl
  | mismatch y hy => exact absurd (hf y) hy

theorem Shows.drops {r : EStateM.Result Failure (Session Exact Unit τ (n + 1)) Status}
    {r' : EStateM.Result Failure (Session Exact Unit τ n) Status} (h : E.Shows (Session.after r))
    (hr : (E.translation f).Matches id r r') : E.Drops f r r' := by
  have hafter : Session.after r' = E.session (Session.after r) := hr.after
  have hanswer : SameAnswer (E.SameFailure f) id (Session.answer r) (Session.answer r') := hr.answer
  refine ⟨hanswer, fun hf => (hanswer.mono fun _ _ he => he.eq_of_size hf).eq, ?_, ?_, ?_, ?_,
    fun t ht => (h.2 t ht).fill_dropArray.symm, ?_, ?_, ?_, ?_⟩
  all_goals rw [hafter]
  · exact h.1.fill_dropArray.symm
  · rfl
  · rfl
  · exact Journal.snapshots_translate ..
  · exact Journal.output_translate ..
  · rfl
  · exact Journal.calls_translate ..
  · exact Journal.handed_translate ..

/-- A method meets the problem without the variable where the run without it begins, if its own
state is without it. -/
theorem session_method (M : Method Exact σ τ) [Secant Exact τ] (f : Objective Exact)
    (B : Box Exact (n + 1)) (x g : Array Exact) (k : Sink) :
    (E.method M).session (E.objective f) (E.box B) (E.dropArray x) (E.dropArray g) k =
      E.session (M.session f B x g k) := by
  have hprojected : (0 : Vector Exact n).toArray =
      E.dropArray (0 : Vector Exact (n + 1)).toArray := by
    rw [← toArray_drop]
    refine congrArg Vector.toArray (ext_get fun i => ?_)
    rw [get_drop]
    exact (Vector.getElem_replicate _).trans (Vector.getElem_replicate _).symm
  have hjournal : (#[] : Journal Exact) = E.journal #[] := Array.map_empty.symm
  unfold Method.session method session
  dsimp only
  rw [← hprojected, ← hjournal]
  rfl

end Elimination

namespace Method

variable {E : Elimination n} {f : Objective Exact}

/-- A new method with the spectral solver works on every problem that fixes the variable. -/
theorem works_of_ofOptions {o : Options Exact} {M : Method Exact Unit (LimitedMemory Exact)}
    (hM : ofOptions o = .ok M) (hchoice : o.choice = .ok .spectral) {B : Box Exact (n + 1)}
    (hE : E.Fixes B) (x g : Array Exact) (k : Sink) :
    E.Works f (.ofOptions o) (M.session f B x g k) := by
  obtain ⟨hvalid, c, secant, hc, -, rfl⟩ := ofOptions_eq_ok hM
  obtain rfl := Except.ok.inj (hchoice.symm.trans hc)
  obtain ⟨⟨p⟩, -, -⟩ := (Options.validate_eq_ok_iff.mp hvalid).exists_realSchedules
  exact ⟨rfl, rfl, hE, p.finite⟩

/-- With the spectral solver, a fixed variable is inert: whatever the start gives it and whatever
the partial derivative along it is, a run does to the other variables what it does without it. -/
theorem run_eliminated [Numeral Exact] {o : Options Exact}
    {M : Method Exact Unit (LimitedMemory Exact)} (hM : ofOptions o = .ok M)
    (hchoice : o.choice = .ok .spectral) {B : Box Exact (n + 1)}
    (hB : ∀ i : Fin (n + 1), ¬ (B.side i).IsEmpty) (hE : E.Fixes B) (hf : E.Smooth f)
    (x : Vector Exact (n + 1)) (g : Array Exact) (k : Sink) :
    E.Drops f (M.run f B x.toArray g k)
      (M.run (E.objective f) (E.box B) (E.dropArray x.toArray) (E.dropArray g) k) := by
  have hworks := works_of_ofOptions (f := f) hM hchoice hE x.toArray g k
  have hvalid := Options.validate_eq_ok_iff.mp (ofOptions_eq_ok hM).1
  have hrate : IsFinite (LineSearch.ofOptions o).rate := by
    obtain ⟨r, hr⟩ := exists_real_of_le_of_le (lt_iff_le_not_le.mp hvalid.backtrackingRate.1).1
      (lt_iff_le_not_le.mp hvalid.backtrackingRate.2).1
    exact isFinite_iff.mpr ⟨r, hr⟩
  have hmethod : E.method M = M := by
    obtain ⟨-, c, secant, -, -, rfl⟩ := ofOptions_eq_ok hM
    rfl
  have hsession := E.session_method M f B x.toArray g k
  rw [hmethod] at hsession
  have hmatches : (E.translation f).Matches id (M.run f B x.toArray g k)
      (Action.run (E.session (M.session f B x.toArray g k))) :=
    hworks.carries_run hf hrate hB rfl rfl
  rw [← hsession] at hmatches
  exact (hworks.run_shows hrate rfl hB rfl).drops hmatches

/-- The default method falls to the right along the one variable that is not fixed. -/
theorem run_eliminated_standard :
    letI := Exact.unwritten
    let E : Elimination 1 := ⟨0, 2⟩
    let B := Box.between (vec ![2, -1]) (vec ![2, 3])
    let x := vec ![5, 1]
    ofOptions (.standard : Options Exact) = .ok standard ∧
      (Options.standard : Options Exact).choice = .ok .spectral ∧
      (∀ i : Fin 2, ¬ (B.side i).IsEmpty) ∧ E.Fixes B ∧ E.Smooth .falling ∧
      E.Drops .falling (standard.run .falling B x.toArray #[] .unlimited)
        (standard.run (E.objective .falling) (E.box B) (E.dropArray x.toArray) (E.dropArray #[])
          .unlimited) := by
  let _ := Exact.unwritten
  intro E B x
  have hB : ∀ i : Fin 2, ¬ (B.side i).IsEmpty := by
    intro i
    rw [not_not, Box.side_between, get_vec, get_vec, real_le_real]
    fin_cases i
    · exact le_rfl
    · norm_num
  have hE : E.Fixes B := by
    show B.side 0 = _
    rw [Box.side_between, get_vec, get_vec]
    rfl
  have hf : E.Smooth .falling := by
    intro y
    refine ⟨-1, ?_⟩
    show (Array.replicate (E.fill y.toArray).size (real (-1)))[0]? = _
    rw [Array.getElem?_replicate, E.size_fill]
    rfl
  exact ⟨ofOptions_standard, Options.choice_standard, hB, hE, hf,
    run_eliminated ofOptions_standard Options.choice_standard hB hE hf x #[] .unlimited⟩

end Method

end LogBarrier

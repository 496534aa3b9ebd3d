import LogBarrier.Proofs.Account
import LogBarrier.Proofs.Forgetting
import LogBarrier.Proofs.Reflected.Descent

/-!
# Reflected runs

With exact arithmetic, a run on a reflected problem is the reflection of the run on the problem
itself: it gives the same answer, shows the same states with reflected points and gradients, writes
the same report, and asks the objective at the reflected points.
-/

namespace LogBarrier

open Scalar Exact LogBarrier.Action Translation

variable {σ β γ : Type} {n : ℕ}

namespace Reflection

variable (R : Reflection)

/-! ## Sessions -/

section

variable (s : Session Exact σ (LimitedMemory Exact) n)

theorem session_log (e : Event Exact) :
    (R.session s).log (R.event e) = R.session (s.log e) := by
  unfold Session.log session journal
  dsimp only
  rw [Array.map_push]

theorem session_charge (h : β → γ) (m : Metered Exact β) :
    (R.session s).charge (R.metered h m) = R.session (s.charge m) := by
  have hjournal : R.journal s.journal ++ (m.calls.map R.call).map Event.called =
      R.journal (s.journal ++ m.calls.map Event.called) := by
    rw [journal_eq_translate, journal_eq_translate, Journal.translate_called]
  unfold Session.charge
  exact congrArg (fun j => { R.session s with
    augmented := (R.augmented s.augmented).count m.tally, journal := j }) hjournal

theorem session_fault : (R.session s).fault = R.session s.fault :=
  R.session_log (s.mapState fun t => { t with status := .faulted })
    (.logged (.faulted s.method.state.iteration))

theorem charge_plainGradient (x : Vector Exact n) :
    (R.session s).charge ((R.session s).augmented.plainGradient (R.vector x).toArray) =
      R.session (s.charge (s.augmented.plainGradient x.toArray)) := by
  rw [← session_charge R _ R.array, ← R.plainGradient_augmented]
  rfl

theorem charge_plainValue (x : Vector Exact n) :
    (R.session s).charge ((R.session s).augmented.plainValue (R.vector x).toArray) =
      R.session (s.charge (s.augmented.plainValue x.toArray)) := by
  rw [← session_charge R _ id, ← R.plainValue_augmented]
  rfl

theorem movedTo_session (x : Vector Exact n) :
    (R.session s).movedTo (R.vector x) = R.session (s.movedTo x) :=
  R.charge_plainGradient (Session.install s.method.schedules.reset { s with x := x.toArray }) x

theorem gradedAt_session (x g : Vector Exact n) :
    (R.session s).gradedAt (R.vector x) (R.vector g) = R.session (s.gradedAt x g) := by
  unfold Session.gradedAt
  rw [movedTo_session]
  exact R.charge_plainValue { s.movedTo x with gradient := g.toArray } x

theorem openedAt_session (hB : ∀ i : Fin n, ¬ (s.augmented.box.side i).IsEmpty)
    (x g : Vector Exact n) (v : Exact) :
    (R.session s).openedAt (R.vector x) (R.vector g) v = R.session (s.openedAt x g v) := by
  have hprojected : (R.session s).augmented.box.project (R.vector x - R.vector g) =
      R.vector (s.augmented.box.project (x - g)) := R.project_sub_vector hB x g
  have hgnorm : norm ((R.session s).augmented.box.residual (R.vector x) (R.vector g)) =
      norm (s.augmented.box.residual x g) := by
    rw [← R.norm_vector (s.augmented.box.residual x g), ← R.residual_vector hB]
    rfl
  unfold Session.openedAt
  rw [hprojected, hgnorm, gradedAt_session]
  rfl

end

/-! ## Evaluation -/

theorem checkedGradient_objective (f : Objective Exact) (x : Vector Exact n) :
    (R.objective f).checkedGradient (R.vector x) = (f.checkedGradient x).map R.vector := by
  have hgradient : (R.objective f).gradient (R.vector x).toArray =
      R.array (f.gradient x.toArray) :=
    congrArg (R.array ∘ f.gradient) (R.array_array x.toArray)
  by_cases hg : (f.gradient x.toArray).size = n
  · obtain ⟨v, hv⟩ : ∃ v : Vector Exact n, f.gradient x.toArray = v.toArray := ⟨⟨_, hg⟩, rfl⟩
    rw [hv, ← toArray_vector] at hgradient
    rw [Objective.checkedGradient_of_eq hv, Objective.checkedGradient_of_eq hgradient]
    simp only [allFinite_vector_iff]
    split <;> rfl
  · unfold Objective.checkedGradient
    rw [hgradient, dif_neg hg, dif_neg (by rwa [size_array]), size_array]
    rfl

theorem checkedValue_objective (f : Objective Exact) (xs : Array Exact) :
    (R.objective f).checkedValue (R.array xs) = f.checkedValue xs := by
  have hvalue : (R.objective f).value (R.array xs) = f.value xs :=
    congrArg f.value (R.array_array xs)
  unfold Objective.checkedValue
  rw [hvalue]

/-! ## Actions -/

/-- What the words of a problem mean in the mirror. Failures mean the same. -/
noncomputable def translation : Translation Exact σ (LimitedMemory Exact) n n where
  call := R.call
  state := R.state
  message := id
  session := R.session
  SameFailure := Eq
  same_refl _ := rfl
  session_log s e := by rw [← R.event_eq_translate, session_log]
  session_charge s q := (R.session_charge s id q).symm
  session_fault s := (R.session_fault s).symm
  sink_session _ := rfl
  session_sink _ _ := rfl

@[simp] theorem session_translation (s : Session Exact σ (LimitedMemory Exact) n) :
    R.translation.session s = R.session s := rfl

/-- On reflected sessions `act'` does what `act` does, and answers with what `h` makes of the
answer. -/
def Carries (h : β → γ) (act : Action Exact σ (LimitedMemory Exact) n β)
    (act' : Action Exact σ (LimitedMemory Exact) n γ)
    (s : Session Exact σ (LimitedMemory Exact) n) : Prop :=
  act' (R.session s) = R.result h (act s)

section

variable {R} {h : β → γ} {s : Session Exact σ (LimitedMemory Exact) n}
  {act : Action Exact σ (LimitedMemory Exact) n β} {act' : Action Exact σ (LimitedMemory Exact) n γ}

theorem carries_iff : R.Carries h act act' s ↔ R.translation.Carries h act act' s := by
  unfold Carries Translation.Carries
  generalize act s = r
  show act' (R.session s) = _ ↔ R.translation.Matches h r (act' (R.session s))
  generalize act' (R.session s) = r'
  constructor
  · rintro rfl
    cases r with
    | ok b t => exact .ok b t
    | error e t => exact .error_refl e t
  · rintro (⟨b, t⟩ | ⟨t, he⟩)
    · rfl
    · cases he
      rfl

theorem carries_gradientAt (x : Vector Exact n) :
    R.translation.Carries R.vector (gradientAt x) (gradientAt (R.vector x)) s := by
  have hchecked : (R.session s).augmented.objective.checkedGradient (R.vector x) =
      (s.augmented.objective.checkedGradient x).map R.vector := R.checkedGradient_objective ..
  show R.translation.Matches R.vector (gradientAt x s) (gradientAt (R.vector x) (R.session s))
  rw [gradientAt_apply, gradientAt_apply, charge_plainGradient, hchecked]
  exact carries_of_map _

theorem carries_valueAt (x : Vector Exact n) :
    R.translation.Carries id (valueAt x.toArray) (valueAt (R.vector x).toArray) s := by
  have hchecked : (R.session s).augmented.objective.checkedValue (R.vector x).toArray =
      s.augmented.objective.checkedValue x.toArray := R.checkedValue_objective ..
  show R.translation.Matches id (valueAt x.toArray s) (valueAt (R.vector x).toArray (R.session s))
  rw [valueAt_apply, valueAt_apply, charge_plainValue, hchecked]
  exact carries_of_same _

/-! ## Opening -/

variable [Numeral Exact]

theorem carries_announce : R.translation.Carries id announce announce s := by
  have hfixed : (R.session s).augmented.box.fixed.length = s.augmented.box.fixed.length :=
    congrArg List.length (R.fixed_box s.augmented.box)
  let t := s.method.state
  have hmessage : Message.opened n s.augmented.box.fixed.length t.mu t.gtol t.gnorm
      s.augmented.damping = .opened n (R.session s).augmented.box.fixed.length
        t.mu t.gtol t.gnorm s.augmented.damping :=
    congrArg (Message.opened n · t.mu t.gtol t.gnorm s.augmented.damping) hfixed.symm
  unfold announce
  refine carries_get_bind ?_
  refine carries_ite ?_ (carries_shown hmessage rfl)
  refine (carries_write _).bind fun _ _ _ => ?_
  refine (carries_write _).bind fun _ _ _ => ?_
  exact (carries_write _).bind fun _ _ _ => carries_shown hmessage rfl

theorem carries_openRun : R.translation.Carries id openRun openRun s := by
  rw [← carries_iff]
  unfold Carries
  rw [openRun_apply, openRun_apply]
  have hopening : (R.session s).augmented.box.opening (R.session s).x =
      (s.augmented.box.opening s.x).map R.vector := R.opening_box ..
  have hgradient (x : Vector Exact n) :
      (R.session s).augmented.objective.checkedGradient (R.vector x) =
        (s.augmented.objective.checkedGradient x).map R.vector := R.checkedGradient_objective ..
  have hvalue (x : Vector Exact n) :
      (R.session s).augmented.objective.checkedValue (R.vector x).toArray =
        s.augmented.objective.checkedValue x.toArray := R.checkedValue_objective ..
  rw [hopening]
  cases hx : s.augmented.box.opening s.x with
  | error e => exact congrArg (EStateM.Result.error e) (R.session_fault s)
  | ok x =>
    obtain ⟨-, -, hB, -⟩ := Box.exists_of_opening_eq_ok hx
    dsimp only [Except.map]
    rw [hgradient, movedTo_session]
    cases s.augmented.objective.checkedGradient x with
    | error e => exact congrArg (EStateM.Result.error e) (R.session_fault _)
    | ok g =>
      dsimp only [Except.map]
      rw [hvalue, gradedAt_session]
      cases s.augmented.objective.checkedValue x.toArray with
      | error e => exact congrArg (EStateM.Result.error e) (R.session_fault _)
      | ok v =>
        dsimp only
        rw [R.openedAt_session s hB]
        exact carries_iff.mpr carries_announce.faulting

/-! ## Recording -/

omit [Numeral Exact] in
theorem carries_stationarity (hB : ∀ i : Fin n, ¬ (s.augmented.box.side i).IsEmpty)
    (x g : Vector Exact n) :
    R.translation.Carries id (stationarity x g) (stationarity (R.vector x) (R.vector g)) s := by
  have hprojected : (R.session s).augmented.box.project (R.vector x - R.vector g) =
      R.vector (s.augmented.box.project (x - g)) := R.project_sub_vector hB x g
  unfold stationarity
  refine carries_get_bind ?_
  dsimp only
  rw [session_translation, hprojected]
  refine carries_modify_bind rfl ?_
  rw [← vector_sub, norm_vector]
  exact carries_pure _

theorem carries_recordAt (hB : ∀ i : Fin n, ¬ (s.augmented.box.side i).IsEmpty)
    (x g : Vector Exact n) :
    R.translation.Carries id (recordAt x g) (recordAt (R.vector x) (R.vector g)) s := by
  unfold recordAt
  refine (carries_stationarity hB x g).bind fun gnorm t _ => ?_
  refine carries_get_bind ?_
  refine carries_modify_bind rfl ?_
  refine (carries_valueAt x).bind fun v u _ => ?_
  refine carries_modify_bind rfl ?_
  refine carries_get_bind ?_
  have hdamped (w : Session Exact σ (LimitedMemory Exact) n) :
      (R.session w).augmented.damped = w.augmented.damped := R.damped_augmented w.augmented
  dsimp only
  rw [session_translation, hdamped]
  refine carries_ite (carries_ite ?_ ?_) (carries_shown rfl rfl)
  · refine (carries_write _).bind fun _ _ _ => ?_
    exact (carries_write _).bind fun _ _ _ => carries_shown rfl rfl
  · exact (carries_write _).bind fun _ _ _ => carries_shown rfl rfl

theorem carries_record (hB : ∀ i : Fin n, ¬ (s.augmented.box.side i).IsEmpty)
    (x : Vector Exact n) :
    R.translation.Carries id (record x.toArray) (record (R.array x.toArray)) s := by
  have hcarries :
      R.translation.Carries id (record x.toArray) (record (R.vector x).toArray) s := by
    rw [record_toArray, record_toArray]
    refine ((carries_gradientAt x).bind fun g t ht => ?_).faulting
    have hbox : t.augmented.box = s.augmented.box := by
      rw [gradientAt_apply] at ht
      rw [eq_of_of_ok ht]
      rfl
    exact carries_recordAt (hbox ▸ hB) x g
  exact hcarries

end

/-! ## Iterating -/

section

variable {R} {s : Session Exact Unit (LimitedMemory Exact) n} {c : SolverChoice}
  {o : Options Exact}

/-- The session is at a point of a box that is not empty, with a solver of the library. -/
structure Ready (c : SolverChoice) (o : Options Exact)
    (s : Session Exact Unit (LimitedMemory Exact) n) : Prop where
  solver : s.method.solver = c.solver o
  nonempty : ∀ i : Fin n, ¬ (s.augmented.box.side i).IsEmpty
  point : ∃ x : Vector Exact n, s.x = x.toArray

theorem Ready.alike {t : Session Exact Unit (LimitedMemory Exact) n} (h : Ready c o s)
    (ht : s.Alike t) {x : Vector Exact n} (hx : t.x = x.toArray) : Ready c o t where
  solver := ht.solver.trans h.solver
  nonempty := by
    rw [ht.box]
    exact h.nonempty
  point := ⟨x, hx⟩

theorem Ready.carries_solveNext (h : Ready c o s) :
    R.translation.Carries id solveNext solveNext s := by
  unfold solveNext
  refine carries_get_bind ?_
  refine (carries_note (.solving s.method.tolerances s.augmented.mu s.augmented.kappa)).bind
    fun _ t ht => ?_
  cases ht
  have hstart : sized n (R.session s).x = (sized n s.x).map R.vector := R.sized_array s.x
  dsimp only
  rw [session_translation, hstart]
  refine (carries_of_map (sized n s.x)).bind fun x t ht => ?_
  obtain ⟨x', hx'⟩ := h.point
  rw [hx', sized_toArray] at ht
  cases ht
  have hsolve : (R.session s).method.solver.solve (R.augmented s.augmented).oracle
      (R.augmented s.augmented).box (R.session s).method.tolerances (R.vector x)
      (R.session s).method.memory (R.session s).method.secant =
        R.metered R.solved (s.method.solver.solve s.augmented.oracle s.augmented.box
          s.method.tolerances x s.method.memory s.method.secant) := by
    show s.method.solver.solve _ _ _ _ _ _ = _
    rw [h.solver]
    exact R.solver_reflected (R.reflects_augmented s.augmented) h.nonempty ..
  refine (carries_ask hsolve).bind fun r t _ => ?_
  refine carries_modify_bind rfl ?_
  refine (carries_forM_note (List.map_id r.notes)).bind fun _ _ _ => ?_
  refine (carries_of_same r.outcome).faulting.bind fun report t _ => ?_
  have hend : sized n (R.solved r).x = (sized n r.x).map R.vector := R.sized_array r.x
  rw [hend]
  refine (carries_of_map (sized n r.x)).bind fun z t _ => ?_
  have hproject : (R.session s).augmented.box.project (R.vector z) =
      R.vector (s.augmented.box.project z) := R.project_vector h.nonempty z
  rw [hproject, ← vector_sub, norm_vector]
  refine carries_modify_bind rfl ?_
  exact carries_ite (carries_note _) (carries_pure _)

variable [Numeral Exact]

theorem Ready.carries_iterate (h : Ready c o s) :
    R.translation.Carries id Action.iterate Action.iterate s := by
  unfold Action.iterate
  refine h.carries_solveNext.bind fun _ t ht => ?_
  obtain ⟨x, hx⟩ := h.point
  obtain ⟨y, report, ht⟩ := (solveNext_ends hx).of_ok ht
  have hready := h.alike ht.toAlike ht.point
  refine carries_get_bind ?_
  have hpoint : (R.session t).x = R.array y.toArray := congrArg R.array ht.point
  rw [session_translation, hpoint, ht.point]
  refine (carries_record hready.nonempty y).bind fun _ u _ => ?_
  refine carries_modify_bind rfl ?_
  refine carries_get_bind ?_
  dsimp only
  refine carries_ite ?_ (carries_pure _)
  exact (carries_note _).bind fun _ _ _ => carries_pure _

theorem Ready.carries_loop (left : ℕ) (h : Ready c o s) :
    R.translation.Carries id (loop left) (loop left) s := by
  induction left generalizing s with
  | zero => exact carries_pure _
  | succ left ih =>
    unfold loop
    refine h.carries_iterate.bind fun v t ht => ?_
    cases v with
    | some status => exact carries_pure _
    | none =>
      obtain ⟨x, hx⟩ := h.point
      obtain ⟨-, y, g, v, report, ht⟩ := (iterate_ends hx).of_ok ht
      exact ih (h.alike ht.toAlike ht.point)

omit [Numeral Exact] in
theorem carries_close (status : Status) :
    R.translation.Carries id (close status) (close status) s := by
  unfold close
  refine carries_modify_bind rfl ?_
  refine carries_get_bind ?_
  dsimp only
  refine (carries_note _).bind fun _ _ _ => ?_
  refine carries_ite ?_ (carries_pure _)
  exact (carries_write _).bind fun _ _ _ => carries_pure _

/-- A run with a solver of the library. If its box is empty, it fails before it comes to solve. -/
theorem carries_run (h : s.method.solver = c.solver o) : R.Carries id run run s := by
  rw [carries_iff]
  unfold run
  refine carries_openRun.bind fun _ t ht => ?_
  obtain ⟨y, g, v, ht⟩ := (openRun_ends s).of_ok ht
  obtain ⟨-, -, hB, -⟩ := Box.exists_of_opening_eq_ok ht.opening
  have hready : Ready c o t := by
    refine ⟨ht.solver.trans h, ?_, y, ht.point⟩
    rw [ht.box]
    exact hB
  refine carries_get_bind ?_
  refine (hready.carries_loop _).bind fun status u _ => ?_
  exact carries_close status

end

/-! ## Whole runs -/

/-- What is seen of the reflected run that ends in `r'`, compared with the one that ends in `r`. -/
structure Mirrors (r r' : EStateM.Result Failure (Session Exact σ (LimitedMemory Exact) n) Status) :
    Prop where
  answer : Session.answer r' = Session.answer r
  x : (Session.after r').x = R.array (Session.after r).x
  gradient : (Session.after r').gradient = R.array (Session.after r).gradient
  state : (Session.after r').method.state = R.state (Session.after r).method.state
  snapshots : (Session.after r').journal.snapshots =
    (Session.after r).journal.snapshots.map R.state
  output : (Session.after r').journal.output = (Session.after r).journal.output
  sink : (Session.after r').sink = (Session.after r).sink
  calls : (Session.after r').journal.calls = (Session.after r).journal.calls.map R.call
  handed : (Session.after r').journal.handed = (Session.after r).journal.handed

theorem mirrors_result
    (r : EStateM.Result Failure (Session Exact σ (LimitedMemory Exact) n) Status) :
    R.Mirrors r (R.result id r) := by
  cases r with
  | ok v t =>
    exact ⟨rfl, rfl, rfl, rfl, R.snapshots_journal _, R.output_journal _, rfl,
      R.calls_journal _, R.handed_journal _⟩
  | error e t =>
    exact ⟨rfl, rfl, rfl, rfl, R.snapshots_journal _, R.output_journal _, rfl,
      R.calls_journal _, R.handed_journal _⟩

theorem memory_clear (h : LimitedMemory Exact) : R.memory h.clear = (R.memory h).clear :=
  memory_ext rfl rfl

theorem memory_empty (m : ℕ) : R.memory (.empty m) = (.empty m : LimitedMemory Exact) :=
  memory_ext rfl rfl

/-- A reflected method meets a reflected problem where the reflected run begins. -/
theorem session_method (M : Method Exact σ (LimitedMemory Exact)) (f : Objective Exact)
    (B : Box Exact n) (x g : Array Exact) (k : Sink) :
    (R.method M).session (R.objective f) (R.box B) (R.array x) (R.array g) k =
      R.session (M.session f B x g k) := by
  have hsecant : (M.secant.map R.memory).map Secant.reset =
      (M.secant.map Secant.reset).map R.memory := by
    cases M.secant with
    | none => rfl
    | some h => exact congrArg some (R.memory_clear h).symm
  have hprojected : (0 : Vector Exact n).toArray = R.array (0 : Vector Exact n).toArray :=
    congrArg Vector.toArray R.vector_zero.symm
  have hjournal : (#[] : Journal Exact) = R.journal #[] := Array.map_empty.symm
  unfold Method.session method session
  dsimp only
  rw [hsecant, ← hprojected, ← hjournal]
  rfl

/-- Nothing in a new method has a direction. -/
theorem method_new {o : Options Exact} {M : Method Exact Unit (LimitedMemory Exact)}
    (hM : Method.ofOptions o = .ok M) : R.method M = M := by
  obtain ⟨-, c, secant, -, hsecant, rfl⟩ := Method.ofOptions_eq_ok hM
  have hkept : secant.map R.memory = secant := by
    cases c with
    | spectral =>
      cases hsecant
      rfl
    | quasiNewton =>
      cases hreserve : LimitedMemory.reserve (α := Exact) o.secantMemory with
      | error e =>
        rw [SolverChoice.secant, hreserve] at hsecant
        cases hsecant
      | ok h =>
        rw [SolverChoice.secant, hreserve] at hsecant
        cases hsecant
        obtain ⟨-, rfl⟩ := LimitedMemory.reserve_eq_ok_iff.mp hreserve
        exact congrArg some (R.memory_empty _)
  unfold method
  dsimp only
  rw [hkept]
  rfl

end Reflection

/-- Whatever the objective, the box, the start and the sink: a new method takes the reflected
problem to the reflected end, with the same answer and the same report. -/
theorem Method.run_reflected [Numeral Exact] {o : Options Exact}
    {M : Method Exact Unit (LimitedMemory Exact)} (hM : ofOptions o = .ok M) (R : Reflection)
    (f : Objective Exact) (B : Box Exact n) (x g : Array Exact) (k : Sink) :
    R.Mirrors (M.run f B x g k)
      (M.run (R.objective f) (R.box B) (R.array x) (R.array g) k) := by
  obtain ⟨-, c, secant, -, -, hmethod⟩ := ofOptions_eq_ok hM
  have hsolver : (M.session f B x g k).method.solver = c.solver o :=
    congrArg Method.solver hmethod
  have hsession := R.session_method M f B x g k
  rw [R.method_new hM] at hsession
  have hrun : M.run (R.objective f) (R.box B) (R.array x) (R.array g) k =
      R.result id (M.run f B x g k) := by
    unfold Method.run
    rw [hsession]
    exact Reflection.carries_run hsolver
  rw [hrun]
  exact R.mirrors_result _

/-- The default method falls to the left in the mirror. -/
theorem Method.run_reflected_standard :
    letI := Exact.unwritten
    let R : Reflection := ⟨fun i => i = 0⟩
    let B := Box.between (vec ![0, -1]) (vec ![1, 3])
    let x := (vec ![5, 1]).toArray
    ofOptions (.standard : Options Exact) = .ok standard ∧
      R.Mirrors (standard.run .falling B x #[] .unlimited)
        (standard.run (R.objective .falling) (R.box B) (R.array x) (R.array #[]) .unlimited) :=
  letI := Exact.unwritten
  ⟨ofOptions_standard, run_reflected ofOptions_standard ..⟩

end LogBarrier

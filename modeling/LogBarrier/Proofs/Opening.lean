import LogBarrier.Proofs.Course
import LogBarrier.Proofs.Steps

/-!
# Opening in full

What opening a run leaves behind, stage by stage, as one equation. A run is opened if there is a
point to open it at and the objective is finite there; otherwise nothing of the state but its status
is changed. The report comes last, and a new state is in place by then.
-/

namespace LogBarrier

open Scalar LogBarrier.Action

variable {α σ τ β : Type} {m n : Nat}

/-! ## Ends and equations -/

namespace Action

variable {act : Action α σ τ n β} {s : Session α σ τ n}

theorem eq_of_ends {r : EStateM.Result Failure (Session α σ τ n) β}
    (h : act.Ends (fun b t => r = .ok b t) (fun e t => r = .error e t) s) : act s = r := by
  cases hrun : act s with
  | ok b t => exact (h.of_ok hrun).symm
  | error e t => exact (h.of_error hrun).symm

theorem ends_self (act : Action α σ τ n β) (s : Session α σ τ n) :
    act.Ends (fun b t => act s = .ok b t) (fun e t => act s = .error e t) s := by
  unfold Ends
  cases act s <;> rfl

theorem eq_of_of_ok {r : Except Failure β} {b : β} {t : Session α σ τ n}
    (h : Action.of r s = .ok b t) : t = s := by
  cases r with
  | ok b' =>
    cases h
    rfl
  | error e => cases h

end Action

/-! ## Evaluation -/

variable [Scalar α]

theorem Objective.checkedGradient_of_eq {f : Objective α} {x v : Vector α m}
    (h : f.gradient x.toArray = v.toArray) :
    f.checkedGradient x =
      if AllFinite v then .ok v else .error (.error (.notFinite "objective gradient")) := by
  unfold checkedGradient
  generalize f.gradient x.toArray = g at h ⊢
  subst h
  rw [dif_pos v.size_toArray]
  by_cases hv : AllFinite v
  · rw [if_pos hv, if_pos ((allFinite_toVector v).mpr hv)]
  · rw [if_neg hv, if_neg (mt (allFinite_toVector v).mp hv)]

namespace Action

theorem gradientAt_apply (x : Vector α m) (s : Session α σ τ n) :
    gradientAt x s = Action.of (s.augmented.objective.checkedGradient x)
      (s.charge (s.augmented.plainGradient x.toArray)) := by
  refine eq_of_ends ?_
  rw [ends_gradientAt]
  exact ends_self _ _

theorem valueAt_apply (x : Array α) (s : Session α σ τ n) :
    valueAt x s = Action.of (s.augmented.objective.checkedValue x)
      (s.charge (s.augmented.plainValue x)) := by
  refine eq_of_ends ?_
  rw [ends_valueAt]
  exact ends_self _ _

/-- At a point of the right length an iteration is recorded with the gradient there. -/
theorem record_toArray [Numeral α] (x : Vector α n) :
    (record x.toArray : Action α σ τ n Unit) =
      faulting (gradientAt x >>= fun g => recordAt x g) := by
  obtain ⟨xs, rfl⟩ := x
  unfold record
  refine congrArg faulting (congrArg _ ?_)
  funext g
  rw [dif_pos rfl]
  rfl

end Action

/-! ## The stages -/

/-- Over a box that is not empty, a run opens at the inset of its start. -/
theorem Box.opening_of_nonempty {B : Box α n} (hB : ∀ i : Fin n, ¬ (B.side i).IsEmpty)
    (x : Vector α n) : B.opening x.toArray = .ok (B.inset x) := by
  unfold Box.opening
  rw [dif_pos x.size_toArray, Box.firstEmpty?_eq_none_iff.mpr hB]

/-- A run opens at a point of the right length, and only over a box that is not empty. -/
theorem Box.exists_of_opening_eq_ok {B : Box α n} {xs : Array α} {y : Vector α n}
    (h : B.opening xs = .ok y) :
    ∃ x : Vector α n, xs = x.toArray ∧ (∀ i : Fin n, ¬ (B.side i).IsEmpty) ∧ y = B.inset x := by
  unfold Box.opening at h
  split at h
  · rename_i hsize
    cases hempty : B.firstEmpty? with
    | some i =>
      rw [hempty] at h
      cases h
    | none =>
      rw [hempty] at h
      cases h
      exact ⟨⟨xs, hsize⟩, rfl, Box.firstEmpty?_eq_none_iff.mp hempty, rfl⟩
  · cases h

namespace Session

/-- The gradient has been asked for at `x`. -/
def movedTo (x : Vector α n) (s : Session α σ τ n) : Session α σ τ n :=
  ({ s with x := x.toArray }.install s.method.schedules.reset).charge
    (s.augmented.plainGradient x.toArray)

/-- The gradient at `x` is `g`, and the value has been asked for. -/
def gradedAt (x g : Vector α n) (s : Session α σ τ n) : Session α σ τ n :=
  { s.movedTo x with gradient := g.toArray }.charge (s.augmented.plainValue x.toArray)

/-- The run is open at `x`, where the gradient is `g` and the value `v`. -/
def openedAt (x g : Vector α n) (v : α) (s : Session α σ τ n) : Session α σ τ n :=
  Session.mapState
    (fun _ => s.method.schedules.reset.opening x g v (norm (s.augmented.box.residual x g))
      (s.gradedAt x g).augmented.tally)
    { s.gradedAt x g with projected := (s.augmented.box.project (x - g)).toArray }

end Session

variable [Numeral α]

namespace Action

/-- Reports the state that opens a run and shows it. -/
def announce : Action α σ τ n Unit := do
  let s ← get
  let t := s.method.state
  if 1 ≤ s.method.options.verbosity then
    write (Report.title s.method.solver.name)
    write Report.header
    write (Report.row t)
  note (.logged (.opened n s.augmented.box.fixed.length t.mu t.gtol t.gnorm s.augmented.damping))
  note (.opened t)

/-- An opening fails at one of three stages, or it comes to its report. -/
theorem openRun_apply (s : Session α σ τ n) :
    openRun s = match s.augmented.box.opening s.x with
      | .error e => .error e s.fault
      | .ok x => match s.augmented.objective.checkedGradient x with
        | .error e => .error e (s.movedTo x).fault
        | .ok g => match s.augmented.objective.checkedValue x.toArray with
          | .error e => .error e (s.gradedAt x g).fault
          | .ok v => faulting announce (s.openedAt x g v) := by
  refine eq_of_ends ?_
  unfold openRun
  simp only [ends_faulting, ends_bind, ends_get, ends_modify, ends_of, ends_gradientAt,
    ends_valueAt, ends_stationarity]
  refine ⟨fun x hx => ⟨fun g hg => ⟨fun v hv => ?_, fun e he => ?_⟩, fun e he => ?_⟩,
    fun e he => ?_⟩
  · change s.augmented.objective.checkedGradient x = .ok g at hg
    change s.augmented.objective.checkedValue x.toArray = .ok v at hv
    rw [hx]
    dsimp only
    rw [hg]
    dsimp only
    rw [hv]
    -- What is left of the opening is its report, at the session that it has come to.
    have hreport := ends_self (faulting announce) (s.openedAt x g v)
    rw [ends_faulting] at hreport
    exact hreport
  · change s.augmented.objective.checkedGradient x = .ok g at hg
    change s.augmented.objective.checkedValue x.toArray = .error e at he
    rw [hx]
    dsimp only
    rw [hg]
    dsimp only
    rw [he]
    rfl
  · change s.augmented.objective.checkedGradient x = .error e at he
    rw [hx]
    dsimp only
    rw [he]
    rfl
  · rw [he]

theorem announce_ends (s : Session α σ τ n) :
    announce.Ends (fun _ t => t.method = s.method) (fun _ t => t.method = s.method) s := by
  unfold announce
  rw [ends_bind, ends_get, ends_ite]
  refine ⟨fun _ => ?_, fun _ => rfl⟩
  refine (tells_write _).ends_bind (fun _ => ?_) fun _ _ => rfl
  refine (tells_write _).ends_bind (fun _ => ?_) fun _ _ => rfl
  exact (tells_write _).ends_bind (fun _ => rfl) fun _ _ => rfl

theorem run_of_openRun_error {s u : Session α σ τ n} {e : Failure} (h : openRun s = .error e u) :
    run s = .error e u := by
  show EStateM.bind openRun _ s = _
  rw [EStateM.bind, h]

theorem run_congr {s s' : Session α σ τ n} (h : openRun s = openRun s') : run s = run s' := by
  show EStateM.bind openRun _ s = EStateM.bind openRun _ s'
  rw [EStateM.bind, EStateM.bind, h]

end Action

/-! ## What decides -/

/-- A run from `x` has a point to be opened at, and the value and the gradient are finite there. -/
def Objective.Opens (f : Objective α) (B : Box α n) (x : Array α) : Prop :=
  ∃ y g v, B.opening x = .ok y ∧ f.checkedGradient y = .ok g ∧ f.checkedValue y.toArray = .ok v

namespace Action

variable {s : Session α σ τ n}

/-- Before a run is open, a failure changes the status of the state at hand and no more of it. -/
theorem openRun_of_not_opens (h : ¬ s.augmented.objective.Opens s.augmented.box s.x) :
    ∃ e t, openRun s = .error e t ∧
      t.method.state = { s.method.state with status := .faulted } := by
  rw [openRun_apply]
  cases hx : s.augmented.box.opening s.x with
  | error e => exact ⟨e, _, rfl, rfl⟩
  | ok x =>
    dsimp only
    cases hg : s.augmented.objective.checkedGradient x with
    | error e => exact ⟨e, _, rfl, rfl⟩
    | ok g =>
      dsimp only
      cases hv : s.augmented.objective.checkedValue x.toArray with
      | error e => exact ⟨e, _, rfl, rfl⟩
      | ok v => exact absurd ⟨x, g, v, hx, hg, hv⟩ h

/-- An opening that gets as far as its report leaves a new state, even if the report fails. -/
theorem openRun_of_opens (h : s.augmented.objective.Opens s.augmented.box s.x) :
    openRun.Ends
      (fun _ t => t.method.state.converged = false ∧ t.method.state.status = .inProgress)
      (fun _ t => t.method.state.converged = false ∧ t.method.state.status = .faulted) s := by
  obtain ⟨x, g, v, hx, hg, hv⟩ := h
  have hreport : (faulting announce).Ends
      (fun _ t => t.method.state.converged = false ∧ t.method.state.status = .inProgress)
      (fun _ t => t.method.state.converged = false ∧ t.method.state.status = .faulted)
      (s.openedAt x g v) := by
    rw [ends_faulting]
    refine (announce_ends _).mono ?_ ?_
    · intro _ t ht
      rw [ht]
      exact ⟨rfl, rfl⟩
    · intro _ t ht
      refine ⟨?_, rfl⟩
      show t.method.state.converged = false
      rw [ht]
      rfl
  unfold Ends at hreport ⊢
  rw [openRun_apply, hx]
  dsimp only
  rw [hg]
  dsimp only
  rw [hv]
  exact hreport

end Action

end LogBarrier

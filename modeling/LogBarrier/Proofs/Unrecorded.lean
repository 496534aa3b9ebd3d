import LogBarrier.Double.Read
import LogBarrier.Proofs.Steps

/-!
# Iterations that are not recorded

What is left of an iteration that could not be recorded because the objective is at fault. The
gradient is evaluated before anything is changed, and a fault there costs nothing. By the time of
the value the schedules have moved on, and the augmented objective with them: a fault there goes
unnoticed only where the schedules have come to rest.
-/

namespace LogBarrier

open Scalar LogBarrier.Action

variable {α σ τ : Type} [Scalar α] {n : Nat}

/-! ## Where a recording fails -/

/-- The session that the value at `x` was asked in, after the gradient `g`. -/
def Session.valuedAt (s : Session α σ τ n) (x g : Vector α n) : Session α σ τ n :=
  (({ s.charge (s.augmented.plainGradient x.toArray) with
      projected := (s.augmented.box.project (x - g)).toArray }).install
    s.method.schedules.advance).charge (s.augmented.plainValue x.toArray)

/-- The ways to fail to record an iteration that ended at `x`. -/
inductive Session.Unrecorded (s : Session α σ τ n) (x : Array α) :
    Failure → Session α σ τ n → Prop
  | ungraded {e : Failure}
      (hgradient : s.augmented.objective.checkedGradient x.toVector = .error e) :
      Unrecorded s x e (s.charge (s.augmented.plainGradient x)).fault
  | misfit {t : Session α σ τ n} (hsize : x.size ≠ n) : Unrecorded s x .lengthMismatch t
  | unvalued {y g : Vector α n} {e : Failure} (hx : x = y.toArray)
      (hgradient : s.augmented.objective.checkedGradient y = .ok g)
      (hvalue : s.augmented.objective.checkedValue x = .error e) :
      Unrecorded s x e (s.valuedAt y g).fault
  | unreported {t : Session α σ τ n} : Unrecorded s x (.error .reportFailed) t

variable [Numeral α]

theorem Action.recordAt_fails {s : Session α σ τ n} {x g : Vector α n}
    (hg : s.augmented.objective.checkedGradient x = .ok g) :
    (recordAt x g).Ends (fun _ _ => True) (fun e t => s.Unrecorded x.toArray e t.fault)
      (s.charge (s.augmented.plainGradient x.toArray)) := by
  unfold recordAt
  simp only [ends_bind, ends_get, ends_modify, ends_of, ends_valueAt, ends_stationarity]
  refine ⟨fun v _ => ?_, fun e he => .unvalued rfl hg he⟩
  -- The state is recorded, and what can still fail is the report.
  rw [ends_ite, ends_ite]
  refine ⟨fun _ => ⟨fun _ => ?_, fun _ => ?_⟩, fun _ => trivial⟩
  · refine (tells_write _).ends_bind (fun _ => ?_) fun _ _ => .unreported
    exact (tells_write _).ends_bind (fun _ => trivial) fun _ _ => .unreported
  · exact (tells_write _).ends_bind (fun _ => trivial) fun _ _ => .unreported

theorem Action.record_fails (s : Session α σ τ n) (x : Array α) :
    (record x).Ends (fun _ _ => True) (fun e t => s.Unrecorded x e t) s := by
  unfold record
  simp only [ends_faulting, ends_bind, ends_of, ends_gradientAt]
  refine ⟨fun g hg => ?_, fun e he => .ungraded he⟩
  split
  · rename_i hsize
    subst hsize
    exact recordAt_fails hg
  · rename_i hsize
    exact .misfit hsize

/-! ## What a fault disturbs -/

/-- The barrier parameter and the tolerances that a session shows, and the barrier parameter that
its solver meets. -/
def Session.parameters (s : Session α σ τ n) : (α × α × α) × α :=
  ((s.method.state.mu, s.method.state.gtol, s.method.state.stol), s.augmented.mu)

/-- `t` is `s` but for the mark of a fault: the next iteration to be recorded shows what it would
have shown without the fault. -/
structure Session.Untouched (s t : Session α σ τ n) : Prop where
  state : t.method.state = { s.method.state with status := .faulted }
  mu : t.augmented.mu = s.augmented.mu
  schedules : t.method.schedules = s.method.schedules
  next {x y : Array α} {u v : Session α σ τ n} (ht : record x t = .ok () u)
    (hs : record y s = .ok () v) : u.parameters = v.parameters

/-- One more step changes none of the schedules, and the augmented objective agrees with them. -/
structure Session.AtRest (s : Session α σ τ n) : Prop where
  schedules : s.method.schedules.advance = s.method.schedules
  mu : s.augmented.mu = s.method.schedules.mu.value

/-- An iteration that is recorded shows the schedules after one more step. -/
theorem Action.parameters_of_record {s u : Session α σ τ n} {x : Array α}
    (h : record x s = .ok () u) :
    u.parameters =
      let plan := s.method.schedules.advance
      ((plan.mu.value, plan.gtol.value, plan.stol.value), plan.mu.value) := by
  obtain ⟨y, g, v, -, hu⟩ := (record_ends s x).of_ok h
  unfold Session.parameters
  rw [hu.state, hu.mu]
  rfl

theorem Session.untouched_of {s t : Session α σ τ n}
    (hstate : t.method.state = { s.method.state with status := .faulted })
    (hmu : t.augmented.mu = s.augmented.mu)
    (hschedules : t.method.schedules = s.method.schedules) : s.Untouched t where
  state := hstate
  mu := hmu
  schedules := hschedules
  next ht hs := by
    rw [parameters_of_record ht, parameters_of_record hs, hschedules]

theorem Session.untouched_valuedAt_iff (s : Session α σ τ n) (x g : Vector α n) :
    s.Untouched (s.valuedAt x g).fault ↔ s.AtRest := by
  constructor
  · intro h
    have hschedules : s.method.schedules.advance = s.method.schedules := h.schedules
    have hmu : s.method.schedules.advance.mu.value = s.augmented.mu := h.mu
    refine ⟨hschedules, ?_⟩
    rw [← hmu, hschedules]
  · intro h
    refine untouched_of rfl ?_ h.schedules
    show s.method.schedules.advance.mu.value = s.augmented.mu
    rw [h.schedules, h.mu]

/-- A fault of the objective leaves everything as it was exactly if it is the gradient's, or if
there was no step left for the schedules to take. -/
theorem Action.fault_untouched_iff {s t : Session α σ τ n} {x : Array α} {e : Error}
    (h : record x s = .error (.error e) t) (he : e ≠ .reportFailed) :
    s.Untouched t ↔
      s.augmented.objective.checkedGradient x.toVector = .error (.error e) ∨ s.AtRest := by
  cases (record_fails s x).of_error h with
  | ungraded hgradient =>
    exact iff_of_true (Session.untouched_of rfl rfl rfl) (.inl hgradient)
  | @unvalued y g _ hx hgradient hvalue =>
    rw [Session.untouched_valuedAt_iff, or_iff_right]
    intro hungraded
    obtain ⟨y, rfl⟩ := y
    subst hx
    rw [hgradient] at hungraded
    cases hungraded
  | unreported => exact absurd rfl he

/-! ## A fault of the value -/

/-- Flat, and without a value beyond five. -/
def Objective.cliff : Objective Float where
  value x := if (5 : Float) < x[0]! then nan else 0
  gradient x := Array.replicate x.size 0
  product? := none

/-- Beyond the cliff the first iteration of a run cannot be recorded, but the barrier parameter has
fallen. -/
theorem exists_value_fault :
    ∃ (M : Method Float Unit (LimitedMemory Float)) (s t : Session Float Unit _ 1),
      Method.ofOptions .standard = .ok M ∧
      openRun (M.session .cliff (.free 1) #[0] #[0] .unlimited) = .ok () s ∧
      record #[10] s = .error (.error (.notFinite "objective value")) t ∧
      ¬ s.augmented.mu ≤ t.augmented.mu ∧ s.augmented.mu ≤ s.augmented.mu := by
  -- Evaluated as a whole; the rest only takes the three stages apart.
  have h : (Method.ofOptions (.standard : Options Float)).toOption.any (fun M =>
      match openRun (M.session .cliff (.free 1) #[0] #[0] .unlimited) with
      | .ok _ s => match record #[10] s with
        | .error e t => e = .error (.notFinite "objective value") ∧
            ¬ s.augmented.mu ≤ t.augmented.mu ∧ s.augmented.mu ≤ s.augmented.mu
        | .ok .. => false
      | .error .. => false) = true := by
    decide +kernel
  cases hM : Method.ofOptions (.standard : Options Float) with
  | error e =>
    rw [hM] at h
    cases h
  | ok M =>
    rw [hM] at h
    dsimp only [Except.toOption, Option.any] at h
    cases hs : openRun (M.session .cliff (.free 1) #[0] #[0] .unlimited) with
    | error e s =>
      rw [hs] at h
      cases h
    | ok _ s =>
      rw [hs] at h
      dsimp only at h
      cases ht : record #[10] s with
      | ok _ t =>
        rw [ht] at h
        cases h
      | error e t =>
        rw [ht] at h
        obtain ⟨rfl, hmu⟩ := of_decide_eq_true h
        exact ⟨M, s, t, rfl, hs, ht, hmu⟩

theorem fault_untouched_cliff :
    let e := Error.notFinite "objective value"
    ∃ s t : Session Float Unit (LimitedMemory Float) 1,
      record #[10] s = .error (.error e) t ∧ e ≠ .reportFailed ∧
      (s.Untouched t ↔
        s.augmented.objective.checkedGradient #[10].toVector = .error (.error e) ∨ s.AtRest) := by
  obtain ⟨M, s, t, -, -, ht, -⟩ := exists_value_fault
  exact ⟨s, t, ht, by simp, Action.fault_untouched_iff ht (by simp)⟩

theorem exists_fault_not_untouched :
    ∃ (M : Method Float Unit (LimitedMemory Float)) (s t : Session Float Unit _ 1),
      Method.ofOptions .standard = .ok M ∧
      openRun (M.session .cliff (.free 1) #[0] #[0] .unlimited) = .ok () s ∧
      record #[10] s = .error (.error (.notFinite "objective value")) t ∧ ¬ s.Untouched t := by
  obtain ⟨M, s, t, hM, hs, ht, hfallen, hnumber⟩ := exists_value_fault
  refine ⟨M, s, t, hM, hs, ht, fun h => ?_⟩
  rw [h.mu] at hfallen
  exact hfallen hnumber

end LogBarrier

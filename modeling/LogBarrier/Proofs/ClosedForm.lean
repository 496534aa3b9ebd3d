import LogBarrier.Proofs.Standard
import LogBarrier.Proofs.Trace

/-!
# Schedules in closed form

With exact arithmetic a schedule that starts at `a` and shrinks by the factor `r` to the floor `c`
has the value `max c (a * r ^ k)` after `k` steps. Options that pass the checks give three such
schedules, and a run keeps its barrier parameter and both tolerances on them.
-/

namespace LogBarrier

open Scalar Exact

/-! ## One schedule -/

/-- The numbers of a schedule are real, and it falls towards its floor. -/
structure RealSchedule (initial rate floor : Exact) where
  first : ℝ
  factor : ℝ
  least : ℝ
  initial_eq : initial = .real first
  rate_eq : rate = .real factor
  floor_eq : floor = .real least
  least_pos : 0 < least
  least_le : least ≤ first
  factor_pos : 0 < factor
  factor_le : factor ≤ 1

namespace RealSchedule

variable {initial rate floor : Exact}

/-- What the checks of the options ask of a schedule. -/
theorem exists_of_checks (hfloor : 0 < floor) (hle : floor ≤ initial) (hfinite : IsFinite initial)
    (hpos : 0 < rate) (hrate : rate ≤ 1) : Nonempty (RealSchedule initial rate floor) := by
  obtain ⟨a, rfl⟩ := isFinite_iff.mp hfinite
  obtain ⟨r, rfl⟩ := exists_real_of_le_of_le (lt_iff_le_not_le.mp hpos).1 hrate
  obtain ⟨c, rfl⟩ := exists_real_of_le_of_le (lt_iff_le_not_le.mp hfloor).1 hle
  exact ⟨a, r, c, rfl, rfl, rfl, hfloor, hle, hpos, hrate⟩

/-- The value after `k` steps. -/
def closed (p : RealSchedule initial rate floor) (k : ℕ) : ℝ :=
  max p.least (p.first * p.factor ^ k)

/-- A step takes the closed form at `k` to the closed form at `k + 1`: the floor shrinks below
itself and does not count. -/
theorem closed_succ (p : RealSchedule initial rate floor) (k : ℕ) :
    p.closed (k + 1) = max p.least (p.factor * p.closed k) := by
  have hfloor : p.factor * p.least ≤ p.least :=
    mul_le_of_le_one_left p.least_pos.le p.factor_le
  calc p.closed (k + 1)
      = max p.least (p.factor * (p.first * p.factor ^ k)) := by
        unfold closed
        congr 1
        ring
    _ = max p.least (max (p.factor * p.least) (p.factor * (p.first * p.factor ^ k))) := by
        rw [← max_assoc, max_eq_left hfloor]
    _ = max p.least (p.factor * p.closed k) := by
        rw [← mul_max_of_nonneg _ _ p.factor_pos.le, closed]

theorem value_after (p : RealSchedule initial rate floor) (k : ℕ) :
    ((Schedule.start initial rate floor).after k).value = .real (p.closed k) ∧
      ((Schedule.start initial rate floor).after k).rate = rate ∧
      ((Schedule.start initial rate floor).after k).floor = floor := by
  obtain ⟨a, r, c, rfl, rfl, rfl, hc, hca, hr, hr1⟩ := p
  induction k with
  | zero =>
    refine ⟨?_, rfl, rfl⟩
    show real a = _
    rw [closed, pow_zero, mul_one, max_eq_right hca]
  | succ k ih =>
    obtain ⟨hvalue, hrate, hfloor⟩ := ih
    refine ⟨?_, hrate, hfloor⟩
    rw [Schedule.after, Schedule.value_advance, hvalue, hrate, hfloor, real_mul_real, max_real,
      closed_succ]

/-- The values never rise, stay above the floor, and stay on it once they have reached it. -/
def Settles (p : RealSchedule initial rate floor) : Prop :=
  ∀ j k, j ≤ k → p.closed k ≤ p.closed j ∧ p.least ≤ p.closed k ∧
    (p.closed j = p.least → p.closed k = p.least)

theorem settles (p : RealSchedule initial rate floor) : p.Settles := by
  have hanti {j k : ℕ} (hjk : j ≤ k) : p.closed k ≤ p.closed j := by
    refine max_le_max_left _ (mul_le_mul_of_nonneg_left ?_ (p.least_pos.le.trans p.least_le))
    exact pow_le_pow_of_le_one p.factor_pos.le p.factor_le hjk
  intro j k hjk
  refine ⟨hanti hjk, le_max_left _ _, fun hj => ?_⟩
  refine le_antisymm ?_ (le_max_left _ _)
  rw [← hj]
  exact hanti hjk

end RealSchedule

/-! ## The schedules of a run -/

variable {σ τ : Type} {n : Nat}

theorem Options.Valid.exists_realSchedules {o : Options Exact} (h : o.Valid) :
    Nonempty (RealSchedule o.muMax o.rho o.muMin) ∧
      Nonempty (RealSchedule o.initialGtol o.gtolRate o.minGtol) ∧
      Nonempty (RealSchedule o.initialStol o.stolRate o.minStol) := by
  refine ⟨?_, ?_, ?_⟩
  · exact RealSchedule.exists_of_checks h.muMin_pos h.muMin_le h.muMax_finite h.rho.1
      (lt_iff_le_not_le.mp h.rho.2).1
  · exact RealSchedule.exists_of_checks h.minGtol_pos h.initialGtol.1 h.initialGtol.2
      h.gtolRate.1 h.gtolRate.2
  · exact RealSchedule.exists_of_checks h.minStol_pos h.initialStol.1 h.initialStol.2
      h.stolRate.1 h.stolRate.2

/-- The augmented objective and the stopping rules of subproblem `k`. -/
structure OnSchedule.Subproblem (o : Options Exact) (f : Objective Exact) (B : Box Exact n)
    (mu : RealSchedule o.muMax o.rho o.muMin)
    (gtol : RealSchedule o.initialGtol o.gtolRate o.minGtol)
    (stol : RealSchedule o.initialStol o.stolRate o.minStol) (k : ℕ) (A : Augmented Exact n)
    (tol : Tolerances Exact) : Prop where
  objective : A.objective = f
  box : A.box = B
  mu : A.mu = .real (mu.closed k)
  kappa : A.kappa = o.kappa
  damping : A.damping = o.linearDamping
  tolerances : tol = ⟨.real (gtol.closed k), .real (stol.closed k), o.maxInner⟩

/-- What the session `t` of a run of `M` has shown to observers and handed to the solver follows
the schedules in lockstep. -/
structure OnSchedule (o : Options Exact) (M : Method Exact σ τ) (f : Objective Exact)
    (B : Box Exact n) (mu : RealSchedule o.muMax o.rho o.muMin)
    (gtol : RealSchedule o.initialGtol o.gtolRate o.minGtol)
    (stol : RealSchedule o.initialStol o.stolRate o.minStol) (t : Session Exact σ τ n) : Prop where
  shown (k : ℕ) (u : State Exact) : t.journal.snapshots[k]? = some u →
    u.iteration = k ∧ u.mu = .real (mu.closed k) ∧ u.gtol = .real (gtol.closed k) ∧
      u.stol = .real (stol.closed k)
  handed (k : ℕ) (p : Tolerances Exact × Exact × Exact) : t.journal.handed[k]? = some p →
    p = (⟨.real (gtol.closed k), .real (stol.closed k), o.maxInner⟩, .real (mu.closed k), o.kappa)
  solves : M.solver.Reaches (OnSchedule.Subproblem o f B mu gtol stol) M.memory
    t.journal.handed.length t.method.memory

variable [Numeral Exact] [Secant Exact τ]

/-- Whatever the objective, the box and the solver, and whether the run succeeds or not, a run
keeps to the schedules, and they settle on their floors. A successful run shows one state more than
it has iterations. -/
theorem Method.run_on_schedule {o : Options Exact} {M : Method Exact σ τ} (hM : M.From o)
    (f : Objective Exact) (B : Box Exact n) (x g : Array Exact) (k : Sink) :
    ∃ (mu : RealSchedule o.muMax o.rho o.muMin)
      (gtol : RealSchedule o.initialGtol o.gtolRate o.minGtol)
      (stol : RealSchedule o.initialStol o.stolRate o.minStol),
      OnSchedule o M f B mu gtol stol (Session.after (M.run f B x g k)) ∧
      (mu.Settles ∧ gtol.Settles ∧ stol.Settles) ∧
      ∀ v t, M.run f B x g k = .ok v t →
        t.journal.snapshots.length = t.method.state.iteration + 1 := by
  have hkeeps := hM.keeps
  obtain ⟨⟨mu⟩, ⟨gtol⟩, ⟨stol⟩⟩ := hkeeps.valid.exists_realSchedules
  refine ⟨mu, gtol, stol, ?_⟩
  have hafter (i : ℕ) : ((M.session f B x g k).method.schedules.after i).mu.value =
        .real (mu.closed i) ∧
      ((M.session f B x g k).method.schedules.after i).gtol.value = .real (gtol.closed i) ∧
      ((M.session f B x g k).method.schedules.after i).stol.value = .real (stol.closed i) := by
    have hplan : (M.session f B x g k).method.schedules.after i = _ := hkeeps.after i
    rw [hplan]
    exact ⟨(mu.value_after i).1, (gtol.value_after i).1, (stol.value_after i).1⟩
  have hinner : (M.session f B x g k).method.options.maxInner = o.maxInner :=
    congrArg Options.maxInner hkeeps.options
  have hkappa : (M.session f B x g k).augmented.kappa = o.kappa :=
    congrArg Options.kappa hkeeps.options
  have hfollows := M.run_follows (f := f) (B := B) (x := x) (g := g) (k := k)
  refine ⟨⟨fun i u hu => ?_, fun i p hp => ?_, ?_⟩, ⟨mu.settles, gtol.settles, stol.settles⟩, ?_⟩
  · have hshown := hfollows.shown i u hu
    obtain ⟨hmu, hgtol, hstol⟩ := hafter i
    exact ⟨hshown.iteration, hshown.mu.trans hmu, hshown.gtol.trans hgtol, hshown.stol.trans hstol⟩
  · have hhanded := hfollows.handed i p hp
    obtain ⟨hmu, hgtol, hstol⟩ := hafter i
    rw [hhanded, Schedules.tolerances, hmu, hgtol, hstol, hinner, hkappa]
  · refine hfollows.solves.mono fun i A tol hA => ?_
    obtain ⟨hmu, hgtol, hstol⟩ := hafter i
    have htol := hA.tolerances
    rw [Schedules.tolerances, hgtol, hstol, hinner] at htol
    exact {
      objective := hA.objective
      box := hA.box
      mu := hA.mu.trans hmu
      kappa := hA.kappa.trans hkappa
      damping := hA.damping.trans (congrArg Options.linearDamping hkeeps.options)
      tolerances := htol }
  · intro v u hu
    obtain ⟨last, hended, -⟩ := run_ended hu
    exact hended.snapshots_length

omit [Numeral Exact] [Secant Exact τ] in
theorem Method.run_on_schedule_standard :
    letI := Exact.unwritten
    Method.standard.From .standard ∧
    ∃ mu gtol stol,
      OnSchedule .standard Method.standard .zero (.free 1) mu gtol stol
        (Session.after (Method.standard.run .zero (.free 1) #[1] #[0] .unlimited)) ∧
      (mu.Settles ∧ gtol.Settles ∧ stol.Settles) ∧
      ∀ v t, Method.standard.run .zero (.free 1) #[1] #[0] .unlimited = .ok v t →
        t.journal.snapshots.length = t.method.state.iteration + 1 :=
  letI := Exact.unwritten
  ⟨Method.from_standard, Method.run_on_schedule Method.from_standard ..⟩

end LogBarrier

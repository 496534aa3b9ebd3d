import LogBarrier.Proofs.Course
import LogBarrier.Proofs.Numbers
import LogBarrier.Proofs.Verdict

/-!
# Honest reports

What the report of a solver says of the point it returns. The point lies in the box, and the solve
is called converged exactly if the projected gradient there is within the tolerance. A solve that
did not converge has used up its iterations, made a short step, or found no acceptable trial.
-/

namespace LogBarrier

open Scalar

variable {α τ : Type} [Scalar α] [Secant α τ] {n : Nat}

/-- At `it`, with the secant `k`, every search that the solver makes is rejected. -/
def SolverChoice.SearchFails (o : Options α) (F : Oracle α n) (B : Box α n) (k : Option τ)
    (it : Iterate α n) : SolverChoice → Prop
  | .spectral =>
    ((LineSearch.ofOptions o).trial F B it (spectralDirection B it)).accepted = false
  | .quasiNewton => ∃ d, secantDirection? B it k = .ok d ∧
    ((LineSearch.ofOptions o).trial F B it (it.firstDirection B d)).accepted = false ∧
    ((LineSearch.ofOptions o).trial F B it (-it.scale * it.gradient)).accepted = false

/-- What the report of a solve from `x` with the secant `h` promises of the iterate that the solve
returns. -/
structure SolverChoice.Honest (c : SolverChoice) (o : Options α) (F : Oracle α n) (B : Box α n)
    (tol : Tolerances α) (x : Vector α n) (h : Option τ) (earlier : List (Iterate α n))
    (it : Iterate α n) (k : Option τ) (report : SolveReport) : Prop where
  visits : (c.descent o F B).Visits F B x h earlier it k
  sound : it.Sound F B
  feasible : B.Feasible it.x
  iterations : report.iterations = earlier.length
  le_limit : report.iterations ≤ tol.maxIterations
  converged_iff : report.converged = true ↔ norm (B.residual it.x it.gradient) ≤ tol.gradient
  unconverged : report.converged = false →
    report.iterations = tol.maxIterations ∨
      (∃ prev, earlier.getLast? = some prev ∧ norm (it.x - prev.x) ≤ tol.step) ∨
      c.SearchFails o F B k it

namespace SolverChoice

variable {c : SolverChoice} {o : Options α} {F : Oracle α n} {B : Box α n} {tol : Tolerances α}
  {x : Vector α n} {h k : Option τ} {it : Iterate α n} {earlier : List (Iterate α n)}

theorem searchFails_of_rejected {t : Trial α n}
    (hsearch : ((c.descent o F B).search k it).run.result = .ok t)
    (hrejected : t.accepted = false) : c.SearchFails o F B k it := by
  cases c with
  | spectral =>
    cases hsearch
    exact hrejected
  | quasiNewton =>
    obtain ⟨d, hd, rfl⟩ := quasiNewtonSearch_eq_ok hsearch
    exact ⟨d, hd, LineSearch.quasiNewtonTrial_rejected hrejected⟩

/-- A report agrees with the way the solve has ended. -/
theorem honest_of_halts (hvisits : (c.descent o F B).Visits F B x h earlier it k)
    (hlength : earlier.length ≤ tol.maxIterations) (hfeasible : B.Feasible it.x)
    {report : SolveReport} (hhalts : (c.descent o F B).Halts F B tol earlier it k (.ok report)) :
    c.Honest o F B tol x h earlier it k report := by
  have hsound := hvisits.sound_last (c.searches o F B)
  have hiff : it.Stationary tol.gradient ↔
      norm (B.residual it.x it.gradient) ≤ tol.gradient := by
    rw [Iterate.Stationary, hsound.residual_at]
  refine ⟨hvisits, hsound, hfeasible, ?_, ?_, ?_, ?_⟩
  · cases hhalts <;> rfl
  · cases hhalts <;> exact hlength
  · rw [← hiff]
    cases hhalts with
    | stationary hstationary => exact iff_of_true rfl hstationary
    | exhausted => exact decide_eq_true_iff
    | short => exact decide_eq_true_iff
    | rejected hgoing => exact iff_of_false Bool.false_ne_true hgoing
  · intro hunconverged
    cases hhalts with
    | stationary => cases hunconverged
    | exhausted hall => exact .inl hall
    | short hprev hshort => exact .inr (.inl ⟨_, hprev, hshort⟩)
    | rejected _ hsearch hrejected =>
      exact .inr (.inr (searchFails_of_rejected hsearch hrejected))

variable [OrderedScalar α] [StrictScalar α]

/-- An accepted trial has no `nan` in it, since the gradient predicts a decrease, and so it was
projected into the box. -/
theorem feasible_of_visits (hB : ∀ i : Fin n, ¬ (B.side i).IsEmpty) (hx : AllNumbers x)
    (hvisits : (c.descent o F B).Visits F B x h earlier it k) : B.Feasible it.x := by
  cases hvisits with
  | start hstart =>
    rw [(Iterate.start_eq_ok hstart).1]
    exact Box.feasible_project hB hx
  | @step _ it _ t g _ hsearch haccepted =>
    have htrial := c.searches o F B _ it t hsearch haccepted
    have hnumber : IsNumber (dot it.gradient (t.x - it.x)) :=
      OrderedScalar.le_refl_left (OrderedScalar.le_of_lt htrial.descends)
    have ht : AllNumbers t.x := (allNumbers_of_sub (allNumbers_of_dot hnumber).2).1
    obtain ⟨z, hz⟩ := htrial.projected
    show B.Feasible t.x
    rw [hz] at ht ⊢
    exact Box.feasible_project hB (Box.allNumbers_of_project ht)

theorem honest_of_leaves (hB : ∀ i : Fin n, ¬ (B.side i).IsEmpty) (hx : AllNumbers x)
    {e : Exit α τ n} (hleaves : (c.descent o F B).Leaves F B tol x h e) {report : SolveReport}
    (hok : e.outcome = .ok report) :
    ∃ earlier it, e.x = it.x ∧ c.Honest o F B tol x h earlier it e.secant report := by
  cases hleaves with
  | unstarted => cases hok
  | halted hvisits hlength hhalts =>
    obtain rfl : _ = Except.ok report := hok
    exact ⟨_, _, rfl, honest_of_halts hvisits hlength (feasible_of_visits hB hx hvisits) hhalts⟩

/-- Whatever either solver reports is so, at the point that it returns. -/
theorem solve_honest (hB : ∀ i : Fin n, ¬ (B.side i).IsEmpty) (hx : AllNumbers x)
    {report : SolveReport}
    (hrun : ((c.solver o).solve F B tol x () h).result.outcome = .ok report) :
    ∃ earlier it k, ((c.solver o).solve F B tol x () h).result.x = it.x.toArray ∧
      c.Honest o F B tol x h earlier it k report := by
  rw [solve_result] at hrun ⊢
  obtain ⟨earlier, it, hend, hhonest⟩ :=
    honest_of_leaves hB hx ((c.descent o F B).solve_leaves F B tol x h) hrun
  exact ⟨earlier, it, _, congrArg Vector.toArray hend, hhonest⟩

/-- One step down the slope leads to the end of the interval, and the solve has converged. -/
theorem exists_honest_solve :
    ∃ r : Solved Float Unit (LimitedMemory Float),
      r = ((quasiNewton.solver .standard).solve Objective.slope.oracle (.between #v[0] #v[1])
        ⟨1e-6, 1e-8, 10⟩ #v[0.5] () none).result ∧
      r.outcome = .ok ⟨1, true⟩ ∧
      ∃ (earlier : List (Iterate Float 1)) (it : Iterate Float 1)
        (k : Option (LimitedMemory Float)), r.x = it.x.toArray ∧
          quasiNewton.Honest .standard Objective.slope.oracle (.between #v[0] #v[1])
            ⟨1e-6, 1e-8, 10⟩ #v[0.5] none earlier it k ⟨1, true⟩ := by
  refine ⟨_, rfl, ?_⟩
  have hB : ∀ i : Fin 1, ¬ ((Box.between #v[0] #v[1] : Box Float 1).side i).IsEmpty := by
    decide +kernel
  have hx : AllNumbers (#v[0.5] : Vector Float 1) := by decide +kernel
  have hrun : ((quasiNewton.solver .standard).solve Objective.slope.oracle
      (.between #v[0] #v[1]) ⟨1e-6, 1e-8, 10⟩ #v[0.5] ()
      (none : Option (LimitedMemory Float))).result.outcome = .ok ⟨1, true⟩ := by
    decide +kernel
  exact ⟨hrun, solve_honest hB hx hrun⟩

end SolverChoice

end LogBarrier

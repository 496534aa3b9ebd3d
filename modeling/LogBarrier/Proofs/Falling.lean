import LogBarrier.Proofs.Segment
import LogBarrier.Proofs.Standard
import Mathlib.Data.List.Chain

/-!
# Falling values

With exact arithmetic every iterate of a solve has a smaller value than the one before it, by no
less than a fixed fraction of what the gradient there predicts for the step. A solve that fails
leaves the last iterate with a finite value and gradient behind, not the trial at which it failed,
and the secant has been offered the steps up to that iterate, in order.
-/

namespace LogBarrier

open Scalar Exact

variable {n : ℕ}

/-! ## One step -/

/-- A positive multiple of a decrease is a decrease. The finite value below the sum keeps it from
being infinite. -/
theorem Exact.add_mul_lt {a v c d : Exact} (ha : IsFinite a) (hv : IsFinite v) (hc : 0 < c)
    (hd : d < 0) (hle : v ≤ a + c * d) : a + c * d < a := by
  obtain ⟨a, rfl⟩ := isFinite_iff.mp ha
  obtain ⟨v, rfl⟩ := isFinite_iff.mp hv
  have hscaled {r : ℝ} (hr : r < 0) : scaledInf r = negInf := by
    rw [scaledInf, if_neg (not_lt.mpr hr.le), if_pos hr]
  cases c with
  | nan => exact hc.elim
  | negInf => exact hc.elim
  | real c =>
    cases d with
    | nan => exact hd.elim
    | negInf =>
      change real v ≤ real a + scaledInf (-c) at hle
      rw [hscaled (neg_neg_of_pos hc)] at hle
      exact hle.elim
    | real d => exact add_lt_of_neg_right a (mul_neg_of_pos_of_neg hc hd)
    | posInf => exact hd.elim
  | posInf =>
    cases d with
    | nan => exact hd.elim
    | negInf => exact hle.elim
    | real d =>
      change real v ≤ real a + scaledInf d at hle
      rw [hscaled hd] at hle
      exact hle.elim
    | posInf => exact hd.elim

/-- From `a` to `b` the value falls, by no less than the fraction `c` of what the gradient at `a`
predicts. -/
structure Iterate.FallsTo (c : Exact) (a b : Iterate Exact n) : Prop where
  le : b.value ≤ a.value + c * dot a.gradient (b.x - a.x)
  lt : a.value + c * dot a.gradient (b.x - a.x) < a.value

theorem Iterate.FallsTo.value_lt {c : Exact} {a b : Iterate Exact n} (h : a.FallsTo c b) :
    b.value < a.value :=
  Exact.lt_of_le_of_lt h.le h.lt

theorem LineSearch.Accepts.fallsTo {P : LineSearch Exact} {F : Oracle Exact n} {B : Box Exact n}
    {it : Iterate Exact n} {t : Trial Exact n} (h : P.Accepts F B it t) (hP : 0 < P.fraction)
    (hit : IsFinite it.value) (g : Vector Exact n) : it.FallsTo P.fraction (it.next B t g) :=
  ⟨h.enough, add_mul_lt hit h.value_finite hP h.descends h.enough⟩

/-! ## The course -/

namespace Descent

variable {τ : Type} {D : Descent Exact τ n} {P : LineSearch Exact} {F : Oracle Exact n}
  {B : Box Exact n} {x : Vector Exact n} {h k : Option τ} {it : Iterate Exact n}
  {earlier : List (Iterate Exact n)}

theorem Visits.falls (hD : D.Searches P F B) (hP : 0 < P.fraction)
    (hvisits : D.Visits F B x h earlier it k) :
    List.IsChain (Iterate.FallsTo P.fraction) (earlier ++ [it]) := by
  induction hvisits with
  | start hstart => exact List.isChain_singleton _
  | @step earlier it k t g hvisits hsearch haccepted hgradient ih =>
    have hit := (hvisits.sound_last hD).value_finite
    have hfalls := (hD k it t hsearch haccepted).fallsTo hP hit g
    refine List.isChain_append.mpr ⟨ih, List.isChain_singleton _, ?_⟩
    intro a ha b hb
    rw [List.getLast?_concat, Option.mem_some] at ha
    rw [List.head?_singleton, Option.mem_some] at hb
    rwa [← ha, ← hb]

/-- Each step takes the value below the one that the solve starts from. -/
theorem Visits.value_le (hD : D.Searches P F B) (hP : 0 < P.fraction)
    (hvisits : D.Visits F B x h earlier it k) :
    it.value ≤ (F.value (B.project x)).result ∧
      (earlier ≠ [] → it.value < (F.value (B.project x)).result) := by
  induction hvisits with
  | start hstart =>
    obtain ⟨hx, hsound⟩ := Iterate.start_eq_ok hstart
    rw [← hx, hsound.value_at]
    refine ⟨le_refl_of_ne ?_, fun hne => absurd rfl hne⟩
    intro hnan
    have hfinite := hsound.value_finite
    rw [hnan] at hfinite
    exact hfinite.1.elim
  | @step earlier it k t g hvisits hsearch haccepted hgradient ih =>
    have hit := (hvisits.sound_last hD).value_finite
    have hfalls := (hD k it t hsearch haccepted).fallsTo hP hit g
    have hlt := Exact.lt_of_lt_of_le hfalls.value_lt ih.1
    exact ⟨(lt_iff_le_not_le.mp hlt).1, fun _ => hlt⟩

end Descent

/-! ## A whole solve -/

/-- Secants that report no error. Applying one can only fail because lengths do not match. -/
class QuietSecant {α : Type} (τ : Type) [Secant α τ] : Prop where
  apply_ne_error {n : ℕ} (h : τ) (v : Vector α n) (e : Error) :
    Secant.apply h v ≠ .error (.error e)

instance {α : Type} [Scalar α] : QuietSecant (LimitedMemory α) where
  apply_ne_error {n} h v e := by
    unfold Secant.apply LimitedMemory.instSecant
    dsimp only
    split <;> simp

namespace SolverChoice

variable {τ : Type} [Secant Exact τ] {c : SolverChoice} {o : Options Exact} {F : Oracle Exact n}
  {B : Box Exact n} {tol : Tolerances Exact} {x : Vector Exact n} {h k : Option τ}
  {it : Iterate Exact n} {earlier : List (Iterate Exact n)}

theorem secantDirection?_of_empty {j : τ} (hj : Secant.count j = 0) :
    secantDirection? B it (some j) = .ok none := by
  rw [secantDirection?, if_pos hj]

theorem secantDirection?_ne_error [QuietSecant τ] (e : Error) :
    secantDirection? B it k ≠ .error (.error e) := by
  intro hd
  cases k with
  | none => cases hd
  | some k =>
    change (if Secant.count k = 0 then .ok none
      else (Secant.apply k (B.freePart it.x it.gradient it.gradient)).map _) = _ at hd
    split at hd
    · cases hd
    · cases hv : Secant.apply k (B.freePart it.x it.gradient it.gradient) with
      | ok v =>
        rw [hv] at hd
        cases hd
      | error e' =>
        rw [hv] at hd
        cases hd
        exact QuietSecant.apply_ne_error k _ e hv

theorem search_ne_error [QuietSecant τ] (e : Error) :
    ((c.descent o F B).search k it).run.result ≠ .error (.error e) := by
  intro hsearch
  cases c with
  | spectral => cases hsearch
  | quasiNewton =>
    exact secantDirection?_ne_error e (quasiNewtonSearch_eq_error hsearch)

/-- The course of a solve from `x` with the secant `h` that leaves the iterate `it` and the secant
`k` behind. -/
structure Falls (c : SolverChoice) (o : Options Exact) (F : Oracle Exact n) (B : Box Exact n)
    (x : Vector Exact n) (h : Option τ) (earlier : List (Iterate Exact n)) (it : Iterate Exact n)
    (k : Option τ) (outcome : Except Failure SolveReport) : Prop where
  visits : (c.descent o F B).Visits F B x h earlier it k
  sound : ∀ a ∈ earlier ++ [it], a.Sound F B
  first : (earlier ++ [it]).head?.map Iterate.x = some (B.project x)
  falls : List.IsChain (Iterate.FallsTo o.armijo) (earlier ++ [it])
  value_le : it.value ≤ (F.value (B.project x)).result
  value_lt : earlier ≠ [] → it.value < (F.value (B.project x)).result
  unmoved : earlier = [] → it.x = B.project x
  taught : k = c.teach h (Iterate.changes (earlier ++ [it]))
  iterations : ∀ report, outcome = .ok report → report.iterations = earlier.length
  fault : ∀ e, outcome = .error (.error e) →
    ∃ t, ((c.descent o F B).search k it).run.result = .ok t ∧ t.accepted = true ∧
      ¬ F.HasFiniteGradient t.x ∧ t.x ≠ it.x

/-- What a solve from `x` with the secant `h` leaves behind: a fault at the first evaluation leaves
the projection of `x`, any other end the last iterate of a course. -/
inductive LeavesFalling (c : SolverChoice) (o : Options Exact) (F : Oracle Exact n)
    (B : Box Exact n) (x : Vector Exact n) (h : Option τ) : Solved Exact Unit τ → Prop
  | unstarted {notes : List (Message Exact)} {e : Failure} (hfault : ¬ F.FiniteAt (B.project x)) :
      LeavesFalling c o F B x h ⟨(B.project x).toArray, (), h, notes, .error e⟩
  | halted {earlier : List (Iterate Exact n)} {it : Iterate Exact n} {k : Option τ}
      {notes : List (Message Exact)} {outcome : Except Failure SolveReport}
      (hfalls : c.Falls o F B x h earlier it k outcome) :
      LeavesFalling c o F B x h ⟨it.x.toArray, (), k, notes, outcome⟩

theorem falls_of_halts [QuietSecant τ] (ho : 0 < o.armijo)
    (hvisits : (c.descent o F B).Visits F B x h earlier it k)
    {outcome : Except Failure SolveReport}
    (hhalts : (c.descent o F B).Halts F B tol earlier it k outcome) :
    c.Falls o F B x h earlier it k outcome := by
  have hD := c.searches (τ := τ) o F B
  obtain ⟨hle, hlt⟩ := hvisits.value_le hD ho
  have hfirst := hvisits.head_eq
  refine ⟨hvisits, hvisits.sound hD, hfirst, hvisits.falls hD ho, hle, hlt, ?_,
    hvisits.secant_eq.trans (c.foldl_learn _ h), ?_, ?_⟩
  · rintro rfl
    exact Option.some.inj hfirst
  · rintro report rfl
    cases hhalts <;> rfl
  · rintro e rfl
    cases hhalts with
    | unsearched hsearch => exact absurd hsearch (search_ne_error e)
    | @unevaluated t _ hsearch haccepted hgradient =>
      have hnot := finiteGradient_eq_error hgradient
      refine ⟨t, hsearch, haccepted, hnot, ?_⟩
      -- There is a finite gradient at the iterate, so the trial is another point.
      intro heq
      rw [heq] at hnot
      exact hnot (hvisits.sound_last hD).finiteAt.2

/-- Both solvers descend, and leave the last iterate of the descent behind whichever way they
end. -/
theorem solve_leaves_falling [QuietSecant τ] (c : SolverChoice) (ho : 0 < o.armijo)
    (F : Oracle Exact n) (B : Box Exact n) (tol : Tolerances Exact) (x : Vector Exact n)
    (h : Option τ) : c.LeavesFalling o F B x h ((c.solver o).solve F B tol x () h).result := by
  rw [solve_result]
  have hleaves := (c.descent o F B).solve_leaves F B tol x h
  generalize ((c.descent o F B).solve F B tol x h).result = e at hleaves ⊢
  cases hleaves with
  | unstarted hstart => exact .unstarted (Iterate.start_eq_error hstart)
  | halted hvisits hlength hhalts => exact .halted (falls_of_halts ho hvisits hhalts)

end SolverChoice

/-! ## The squares -/

/-- From one, the first trial for the squares lies nearer to zero and is accepted. -/
theorem Objective.accepted_squares {P : LineSearch Exact} (hP : P.fraction = real 1e-4)
    {it : Iterate Exact 1} {t : ℝ} (hit : it.StandsAt Box.unit (fun _ => 1) (fun _ => 2) t)
    (hvalue : it.value = real 1) :
    ∃ c : ℝ, 0 ≤ c ∧ c < 1 ∧
      P.trial squares.oracle Box.unit it (-it.scale * it.gradient) =
        ⟨1, vec fun _ => c, real (c * c), true⟩ := by
  obtain ⟨c, hc⟩ : ∃ c, min 1 (max 0 (1 - t * 2)) = c := ⟨_, rfl⟩
  have hlow : 0 ≤ c := hc ▸ le_min zero_le_one (le_max_left _ _)
  have hhigh : c < 1 := by
    have ht := hit.scale_pos
    rw [← hc]
    exact min_lt_of_right_lt (max_lt one_pos (by linarith))
  have harc : LineSearch.arc Box.unit it.x (-it.scale * it.gradient) 1 = vec fun _ => c := by
    rw [hit.point, hit.scale, hit.gradient, neg_real, real_mul_vec, one_eq,
      Box.regular_unit.arc_vec]
    refine congrArg vec (funext fun i => ?_)
    rw [Box.nearest_unit, ← hc, one_smul]
    show min 1 (max 0 (1 + -t * 2)) = _
    ring_nf
  have hdot (a b : ℝ) : (fun _ : Fin 1 => a) ⬝ᵥ (fun _ => b) = a * b := by simp [dotProduct]
  have hmoved : vec (fun _ : Fin 1 => c) - vec (fun _ => 1) = vec fun _ => c - 1 := vec_sub_vec ..
  have hpromises : LineSearch.Promises it.x it.gradient
      (LineSearch.arc Box.unit it.x (-it.scale * it.gradient) 1) := by
    rw [LineSearch.Promises, harc, hit.point, hit.gradient, hmoved, norm_vec, dot_vec, hdot,
      zero_lt_real, length_pos_iff, real_lt_zero]
    exact ⟨fun hzero => (sub_neg.mpr hhigh).ne (congrFun hzero 0), by linarith⟩
  have hsuffices : P.Suffices squares.oracle it.x it.value it.gradient
      (LineSearch.arc Box.unit it.x (-it.scale * it.gradient) 1) := by
    rw [LineSearch.Suffices, harc, hit.point, hit.gradient, hvalue, hP, value_squares, hmoved,
      dot_vec, hdot, hdot, real_mul_real, real_add_real, real_le_real]
    have hsquare : c * c ≤ c := mul_le_of_le_one_right hlow hhigh.le
    exact ⟨isFinite_real _, by linarith⟩
  have hsearch := (LineSearch.go_of_suffices hpromises hsuffices P.maxBacktracks inf).1
  rw [harc, value_squares, hdot] at hsearch
  exact ⟨c, hlow, hhigh, hsearch⟩

/-- The quasi-Newton solver accepts that trial, as long as it has no pairs. -/
theorem Objective.quasiNewtonSearch_squares {P : LineSearch Exact} (hP : P.fraction = real 1e-4)
    {it : Iterate Exact 1} {t : ℝ} (hit : it.StandsAt Box.unit (fun _ => 1) (fun _ => 2) t)
    (hvalue : it.value = real 1) {k : LimitedMemory Exact} (hk : Secant.count k = 0) :
    ∃ c : ℝ, 0 ≤ c ∧ c < 1 ∧
      (quasiNewtonSearch P squares.oracle Box.unit (some k) it).run.result =
        .ok ⟨1, vec fun _ => c, real (c * c), true⟩ := by
  obtain ⟨c, hlow, hhigh, htrial⟩ := accepted_squares hP hit hvalue
  have hfree : Box.unit.freePart it.x it.gradient it.gradient = it.gradient := by
    rw [hit.point, hit.gradient]
    refine eq_vec_iff.mpr fun i => (Vector.getElem_ofFn i.isLt).trans ?_
    show (if (Box.unit.side i).Holds ((vec _).get i) ((vec _).get i) then 0 else (vec _).get i) = _
    rw [Box.unit, Box.side_between, get_vec, get_vec, get_vec, if_neg]
    rintro (⟨hlower, -⟩ | ⟨-, hdown⟩)
    · exact absurd (real_le_real.mp hlower) (by norm_num)
    · exact absurd (real_lt_zero.mp hdown) (by norm_num)
  have hfirst : it.firstDirection Box.unit none = -it.scale * it.gradient := by
    show -it.scale * Box.unit.freePart it.x it.gradient it.gradient = _
    rw [hfree]
  refine ⟨c, hlow, hhigh, ?_⟩
  rw [quasiNewtonSearch_result, SolverChoice.secantDirection?_of_empty hk]
  refine congrArg Except.ok ?_
  rw [LineSearch.quasiNewtonTrial, hfirst, htrial]
  rfl

namespace SolverChoice

/-- The squares over the unit interval, from its right end, with a secant that has no pairs yet. A
step of at most one ends the solve, so there is one step, and one pair to learn. -/
theorem solve_leaves_falling_squares :
    let F : Oracle Exact 1 := Objective.squares.oracle
    let tol : Tolerances Exact := ⟨real 0, real 1, 10⟩
    let h : Option (LimitedMemory Exact) := some (.empty 10)
    let r := ((quasiNewton.solver .standard).solve F .unit tol (vec fun _ => 3) () h).result
    0 < (Options.standard : Options Exact).armijo ∧
      (∃ converged, r.outcome = .ok ⟨1, converged⟩) ∧
      quasiNewton.LeavesFalling .standard F .unit (vec fun _ => 3) h r := by
  intro F tol h r
  have ho := Options.standard_valid.armijo.1
  refine ⟨ho, ?_, solve_leaves_falling quasiNewton ho ..⟩
  obtain ⟨it, t, hstart, hit, hvalue, hresidual⟩ := Descent.exists_start_unit
  obtain ⟨c, hlow, hhigh, hsearch⟩ :=
    Objective.quasiNewtonSearch_squares (P := .ofOptions .standard) rfl hit hvalue
      (show Secant.count (LimitedMemory.empty 10 : LimitedMemory Exact) = 0 from rfl)
  have hgradient : (finiteGradient F (vec fun _ => c)).run.result =
      .ok (vec ((2 : ℝ) • fun _ => c)) :=
    finiteGradient_eq_ok_iff.mpr ⟨Objective.gradient_squares _, allFinite_vec _⟩
  have hshort : norm ((vec fun _ => c) - it.x) ≤ tol.step := by
    have hlength : length ((fun _ : Fin 1 => c) - fun _ => 1) = 1 - c := by
      refine length_eq (sub_nonneg.mpr hhigh.le) ?_
      rw [dotProduct, Fin.sum_univ_one]
      show (c - 1) * (c - 1) = (1 - c) ^ 2
      ring
    rw [hit.point, vec_sub_vec, norm_vec, hlength, real_le_real]
    linarith
  have hloop : ((quasiNewton.descent .standard F .unit).loop F .unit tol 10 0 it h).result = _ :=
    Descent.loop_of_accepted (hit.not_stationary hresidual) hsearch rfl hgradient
  have hsolve : r = _ := solve_result quasiNewton tol h
  rw [hsolve]
  dsimp only
  rw [Descent.solve, Metered.result_bind, hstart]
  dsimp only
  rw [hloop, if_pos hshort]
  exact ⟨_, rfl⟩

end SolverChoice

end LogBarrier

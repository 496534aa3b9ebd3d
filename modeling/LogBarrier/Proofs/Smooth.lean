import LogBarrier.Proofs.Falling
import LogBarrier.Proofs.Honest
import LogBarrier.Proofs.Segment
import LogBarrier.Proofs.Starts

/-!
# Smooth functions

A function that stays below parabolas of a fixed curvature falls along every steep arc, as long as
the length is short. A search that tries short enough lengths then succeeds, and both solvers make
such a search from every point that is not stationary.
-/

namespace LogBarrier

open Scalar Exact

variable {n : ℕ} {F : Oracle Exact n} {B : Box Exact n} {f : (Fin n → ℝ) → ℝ}
  {f' : (Fin n → ℝ) → Fin n → ℝ} {L : ℝ}

/-- Over the box the function has the real values `f` and the real gradients `f'`, and lies below
each parabola of curvature `L` that touches it. -/
structure Oracle.Smooth (F : Oracle Exact n) (B : Box Exact n) (f : (Fin n → ℝ) → ℝ)
    (f' : (Fin n → ℝ) → Fin n → ℝ) (L : ℝ) : Prop where
  value_at (a : Fin n → ℝ) (ha : B.Feasible (vec a)) : (F.value (vec a)).result = real (f a)
  gradient_at (a : Fin n → ℝ) (ha : B.Feasible (vec a)) :
    (F.gradient (vec a)).run.result = .ok (vec (f' a)).toArray
  below (a c : Fin n → ℝ) (ha : B.Feasible (vec a)) (hc : B.Feasible (vec c)) :
    f c ≤ f a + f' a ⬝ᵥ (c - a) + L / 2 * length (c - a) ^ 2

namespace Oracle.Smooth

variable {a : Fin n → ℝ}

theorem finiteAt (hF : F.Smooth B f f' L) (ha : B.Feasible (vec a)) : F.FiniteAt (vec a) := by
  refine ⟨?_, _, hF.gradient_at a ha, allFinite_vec _⟩
  rw [hF.value_at a ha]
  exact isFinite_real _

theorem value_eq (hF : F.Smooth B f f' L) {it : Iterate Exact n} (hsound : it.Sound F B)
    (hx : it.x = vec a) (ha : B.Feasible (vec a)) : it.value = real (f a) := by
  rw [← hsound.value_at, hx, hF.value_at a ha]

theorem gradient_eq (hF : F.Smooth B f f' L) {it : Iterate Exact n} (hsound : it.Sound F B)
    (hx : it.x = vec a) (ha : B.Feasible (vec a)) : it.gradient = vec (f' a) := by
  have hgradient := hsound.gradient_at
  rw [hx, hF.gradient_at a ha] at hgradient
  exact (Vector.toArray_inj.mp (Except.ok.inj hgradient)).symm

end Oracle.Smooth

/-! ## Steep arcs -/

/-- From `a` along `d`, up to the length one, the arc leads down as a gradient step of the length
`t` does. -/
def Box.Steep (B : Box Exact n) (a b d : Fin n → ℝ) (t : ℝ) : Prop :=
  ∀ s, 0 < s → s ≤ 1 → ∃ w, LineSearch.arc B (vec a) (vec d) (real s) = vec (a + w) ∧
    B.Feasible (vec (a + w)) ∧ w ≠ 0 ∧ s * t * (b ⬝ᵥ w) ≤ -(w ⬝ᵥ w)

namespace Box.Regular

variable {a b : Fin n → ℝ} {t : ℝ}

theorem steep_step (hB : B.Regular) (ha : B.Feasible (vec a)) (hgoing : B.step a b 1 ≠ 0)
    (ht : 0 < t) : B.Steep a b (B.step a b t) t := by
  intro s hs hs1
  have hmoves : B.step a b t ≠ 0 := fun h =>
    hgoing ((hB.step_eq_zero_iff_of_pos ha ht one_pos).mp h)
  refine ⟨s • B.step a b t, hB.arc_step ha b t hs.le hs1, ?_, smul_ne_zero hs.ne' hmoves, ?_⟩
  · have hsegment := feasible_segment ha (hB.feasible_add_step a b t) hs.le hs1
    rwa [add_sub_cancel_left] at hsegment
  · have hdown := mul_le_mul_of_nonneg_left (hB.step_descends ha b t) (sq_nonneg s)
    simp only [dotProduct_smul, smul_dotProduct, smul_eq_mul]
    linarith

theorem steep_gradient (hB : B.Regular) (ha : B.Feasible (vec a)) (hgoing : B.step a b 1 ≠ 0)
    (ht : 0 < t) : B.Steep a b (-t • b) t := by
  intro s hs hs1
  have hst := mul_pos hs ht
  refine ⟨B.step a b (s * t), ?_, hB.feasible_add_step a b _, ?_, hB.step_descends ha b _⟩
  · rw [hB.arc_vec, add_step, smul_smul, mul_neg, neg_smul, ← sub_eq_add_neg]
  · exact fun h => hgoing ((hB.step_eq_zero_iff_of_pos ha hst one_pos).mp h)

end Box.Regular

/-! ## Searches that succeed -/

namespace LineSearch

variable {P : LineSearch Exact} {c r : ℝ}

/-- If every short length is acceptable, a search that comes to one succeeds, at its first length or
at one that is not much shorter than necessary. -/
theorem go_accepts {x g d : Vector Exact n} {fx : Exact} (last : Exact) {alpha bound : ℝ}
    (hr : P.rate = real r) (hr_pos : 0 < r) (hr_le : r ≤ 1) (halpha : 0 < alpha)
    (hpass : ∀ s, 0 < s → s ≤ alpha → s ≤ bound → P.Passes F B x fx g d (real s)) {left : ℕ}
    (hlast : alpha * r ^ left ≤ bound) :
    let t := (P.go F B x fx g d (left + 1) (real alpha) last).result
    t.accepted = true ∧ ∃ s, t.alpha = real s ∧ (s = alpha ∨ r * bound < s) := by
  induction left generalizing alpha last with
  | zero =>
    rw [pow_zero, mul_one] at hlast
    have hpasses := hpass alpha halpha le_rfl hlast
    rw [(go_of_suffices hpasses.predicts hpasses.suffices 0 last).1]
    exact ⟨rfl, alpha, rfl, .inl rfl⟩
  | succ left ih =>
    by_cases hpasses : P.Passes F B x fx g d (real alpha)
    · rw [(go_of_suffices hpasses.predicts hpasses.suffices (left + 1) last).1]
      exact ⟨rfl, alpha, rfl, .inl rfl⟩
    · have hlong : bound < alpha := not_le.mp fun hle => hpasses (hpass alpha halpha le_rfl hle)
      have hshorter : alpha * r ≤ alpha := mul_le_of_le_one_right halpha.le hr_le
      rw [(go_of_rejected (fun hpredicts hvalue => hpasses ⟨hpredicts, hvalue.1, hvalue.2⟩)
        (left + 1) last).1, hr, real_mul_real]
      obtain ⟨haccepted, s, hs, hlength⟩ := ih _ (mul_pos halpha hr_pos)
        (fun s hs hle => hpass s hs (hle.trans hshorter))
        (by rwa [mul_assoc, ← pow_succ'])
      refine ⟨haccepted, s, hs, .inr ?_⟩
      rcases hlength with rfl | hlt
      · rw [mul_comm]
        exact mul_lt_mul_of_pos_right hlong hr_pos
      · exact hlt

/-- The search asks for the fraction `c` and shortens at the rate `r`, both between zero and one as
the options require, and it tries lengths short enough for functions of the curvature `L`, whatever
the step length. -/
structure Suits (P : LineSearch Exact) (c r L : ℝ) : Prop where
  fraction : P.fraction = real c
  rate : P.rate = real r
  fraction_pos : 0 < c
  fraction_lt : c < 1
  rate_pos : 0 < r
  rate_lt : r < 1
  short : L * 1e10 * r ^ P.maxBacktracks ≤ 2 * (1 - c)

end LineSearch

namespace Oracle.Smooth

variable {P : LineSearch Exact} {c r t : ℝ} {a d : Fin n → ℝ}

/-- Along a steep arc short trials are acceptable. -/
theorem passes (hF : F.Smooth B f f' L) (hL : 0 ≤ L) (hP : P.fraction = real c)
    (ha : B.Feasible (vec a)) (ht : 0 < t) (hsteep : B.Steep a (f' a) d t) {s : ℝ} (hs : 0 < s)
    (hs1 : s ≤ 1) (hshort : L * (s * t) ≤ 2 * (1 - c)) :
    P.Passes F B (vec a) (real (f a)) (vec (f' a)) (vec d) (real s) := by
  obtain ⟨w, harc, hw, hmoves, hdown⟩ := hsteep s hs hs1
  have hst := mul_pos hs ht
  have hsquare : 0 < w ⬝ᵥ w := by
    rw [← sq_length]
    exact pow_pos (length_pos_iff.mpr hmoves) 2
  have hneg : f' a ⬝ᵥ w < 0 := neg_of_mul_neg_right (by linarith) hst.le
  refine ⟨LineSearch.predicts_of_arc harc hmoves hneg, ?_, ?_⟩
  · rw [harc, hF.value_at _ hw]
    exact isFinite_real _
  · have hbelow := hF.below a (a + w) ha hw
    rw [add_sub_cancel_left, sq_length] at hbelow
    have hcurve : L / 2 * (w ⬝ᵥ w) ≤ (1 - c) * -(f' a ⬝ᵥ w) := by
      calc L / 2 * (w ⬝ᵥ w) ≤ L / 2 * (s * t * -(f' a ⬝ᵥ w)) :=
            mul_le_mul_of_nonneg_left (by linarith) (by linarith)
        _ = L * (s * t) / 2 * -(f' a ⬝ᵥ w) := by ring
        _ ≤ (1 - c) * -(f' a ⬝ᵥ w) :=
            mul_le_mul_of_nonneg_right (by linarith) (by linarith)
    rw [harc, hF.value_at _ hw, hP, vec_sub_vec, add_sub_cancel_left, dot_vec, real_mul_real,
      real_add_real, real_le_real]
    linarith

/-- Along a steep arc the search from an iterate succeeds. -/
theorem trial_accepted (hF : F.Smooth B f f' L) (hL : 0 < L) (hP : P.Suits c r L)
    {it : Iterate Exact n} (hsound : it.Sound F B) {b : Fin n → ℝ} (hit : it.StandsAt B a b t)
    (hsteep : B.Steep a b d t) :
    (P.trial F B it (vec d)).accepted = true ∧ ∃ s, (P.trial F B it (vec d)).alpha = real s ∧
      (s = 1 ∨ 2 * r * (1 - c) / (L * t) < s) := by
  have hslope : b = f' a := by
    refine vec_injective (hit.gradient.symm.trans ?_)
    exact hF.gradient_eq hsound hit.point hit.feasible
  subst hslope
  have ht := hit.scale_pos
  have hLt := mul_pos hL ht
  have hpass (s : ℝ) (hs : 0 < s) (hs1 : s ≤ 1) (hle : s ≤ 2 * (1 - c) / (L * t)) :
      P.Passes F B it.x it.value it.gradient (vec d) (real s) := by
    rw [hit.point, hit.gradient, hF.value_eq hsound hit.point hit.feasible]
    refine hF.passes hL.le hP.fraction hit.feasible ht hsteep hs hs1 ?_
    rw [le_div_iff₀ hLt] at hle
    linarith
  have hlast : 1 * r ^ P.maxBacktracks ≤ 2 * (1 - c) / (L * t) := by
    rw [le_div_iff₀ hLt, one_mul]
    have hpow := pow_nonneg hP.rate_pos.le P.maxBacktracks
    calc r ^ P.maxBacktracks * (L * t) ≤ r ^ P.maxBacktracks * (L * 1e10) :=
          mul_le_mul_of_nonneg_left (mul_le_mul_of_nonneg_left hit.scale_le hL.le) hpow
      _ = L * 1e10 * r ^ P.maxBacktracks := mul_comm ..
      _ ≤ 2 * (1 - c) := hP.short
  obtain ⟨haccepted, s, hs, hlength⟩ :=
    LineSearch.go_accepts inf hP.rate hP.rate_pos hP.rate_lt.le one_pos hpass hlast
  refine ⟨haccepted, s, hs, hlength.imp_right fun hlt => ?_⟩
  rwa [mul_comm 2 r, mul_assoc, mul_div_assoc]

end Oracle.Smooth

/-! ## Both solvers -/

/-- With a positive fraction, a finite value at a trial tells of a finite trial. -/
theorem LineSearch.Accepts.allFinite {P : LineSearch Exact} {it : Iterate Exact n}
    {t : Trial Exact n} (h : P.Accepts F B it t) (hP : 0 < P.fraction) (hit : IsFinite it.value) :
    AllFinite t.x := by
  have hlt := add_mul_lt hit h.value_finite hP h.descends h.enough
  have hsum : IsFinite (it.value + P.fraction * dot it.gradient (t.x - it.x)) :=
    ⟨Exact.lt_of_lt_of_le h.value_finite.1 h.enough,
      Exact.lt_of_le_of_lt (OrderedScalar.le_of_lt hlt) hit.2⟩
  have hdot := (isFinite_of_mul (isFinite_of_add hsum).2).2
  exact (allFinite_of_sub (forall_of_dot isFinite_of_add isFinite_of_mul hdot).2).1

theorem Descent.acceptsReal_of_fraction {τ : Type} {D : Descent Exact τ n} {P : LineSearch Exact}
    (hD : D.Searches P F B) (hP : 0 < P.fraction) : D.AcceptsReal F B :=
  fun k it _ _ _ t _ hsound hsearch haccepted =>
    (hD k it t hsearch haccepted).allFinite hP hsound.value_finite

namespace SolverChoice

variable {τ : Type} [Secant Exact τ] {o : Options Exact} {c r : ℝ} {tol : Tolerances Exact}
  {it : Iterate Exact n} {x : Fin n → ℝ} {h k : Option τ} {earlier : List (Iterate Exact n)}

theorem exists_rejected_of_searchFails {s : SolverChoice} (h : s.SearchFails o F B k it) :
    ∃ t, ((s.descent o F B).search k it).run.result = .ok t ∧ t.accepted = false := by
  cases s with
  | spectral => exact ⟨_, rfl, h⟩
  | quasiNewton =>
    obtain ⟨d, hd, hfirst, hsecond⟩ := h
    refine ⟨(LineSearch.ofOptions o).quasiNewtonTrial F B it d, ?_, ?_⟩
    · exact (quasiNewtonSearch_result _ k it).trans (congrArg _ hd)
    · unfold LineSearch.quasiNewtonTrial
      dsimp only
      rw [hfirst]
      exact hsecond

/-- No search of a solve from `x` with the secant `h` fails: the solve goes on until it converges,
is out of iterations, or makes a short step. -/
structure Persists (s : SolverChoice) (o : Options Exact) (F : Oracle Exact n) (B : Box Exact n)
    (tol : Tolerances Exact) (x : Vector Exact n) (h : Option τ) : Prop where
  accepted {earlier : List (Iterate Exact n)} {it : Iterate Exact n} {k : Option τ}
    {t : Trial Exact n} (hvisits : (s.descent o F B).Visits F B x h earlier it k)
    (hgoing : ¬ it.Stationary tol.gradient)
    (hsearch : ((s.descent o F B).search k it).run.result = .ok t) : t.accepted = true
  unconverged {report : SolveReport}
    (hrun : ((s.solver o).solve F B tol x () h).result.outcome = .ok report) :
    ∃ earlier it k, ((s.solver o).solve F B tol x () h).result.x = it.x.toArray ∧
      s.Honest o F B tol x h earlier it k report ∧
      (report.converged = false → report.iterations = tol.maxIterations ∨
        ∃ prev, earlier.getLast? = some prev ∧ norm (it.x - prev.x) ≤ tol.step)

section

variable (hB : B.Regular) (hL : 0 < L) (hF : F.Smooth B f f' L)
  (hP : (LineSearch.ofOptions o).Suits c r L) (hgtol : 0 ≤ tol.gradient)

include hB hP hgtol

/-- The solver stands at a real point, with a projected gradient that is not zero. -/
theorem exists_standsAt (s : SolverChoice)
    (hvisits : (s.descent o F B).Visits F B (vec x) h earlier it k)
    (hgoing : ¬ it.Stationary tol.gradient) :
    ∃ a b t, it.StandsAt B a b t ∧ B.step a b 1 ≠ 0 := by
  have hfraction : 0 < (LineSearch.ofOptions o).fraction := by
    rw [hP.fraction]
    exact hP.fraction_pos
  have hsearches := s.searches (τ := τ) o F B
  obtain ⟨a, b, t, hit⟩ :=
    hvisits.standsAt hB hsearches (Descent.acceptsReal_of_fraction hsearches hfraction)
  refine ⟨a, b, t, hit, fun hzero => hgoing ?_⟩
  show norm it.residual ≤ tol.gradient
  rw [hit.norm_residual_eq_zero_iff.mpr hzero]
  exact hgtol

include hL hF

/-- The spectral search succeeds where the solver goes on, at its first length or at one that is not
much shorter than the curvature asks for. -/
theorem exists_spectral_trial
    (hvisits : (spectral.descent o F B).Visits F B (vec x) h earlier it k)
    (hgoing : ¬ it.Stationary tol.gradient) :
    let u := (LineSearch.ofOptions o).trial F B it (spectralDirection B it)
    ∃ a b t s, it.StandsAt B a b t ∧ u.accepted = true ∧ u.alpha = real s ∧
      (s = 1 ∨ 2 * r * (1 - c) / (L * t) < s) := by
  have hsound := hvisits.sound_last (spectral.searches o F B)
  obtain ⟨a, b, t, hit, hmoves⟩ := exists_standsAt hB hP hgtol _ hvisits hgoing
  have hsteep := hB.steep_step hit.feasible hmoves hit.scale_pos
  obtain ⟨haccepted, s, halpha, hlength⟩ := hF.trial_accepted hL hP hsound hit hsteep
  rw [← hit.spectralDirection_eq hB] at haccepted halpha
  exact ⟨a, b, t, s, hit, haccepted, halpha, hlength⟩

/-- A search succeeds where the solver goes on. The quasi-Newton solver has a second try along
steepest descent, which succeeds whatever the direction of the first one. -/
theorem search_accepted (s : SolverChoice)
    (hvisits : (s.descent o F B).Visits F B (vec x) h earlier it k)
    (hgoing : ¬ it.Stationary tol.gradient) {t : Trial Exact n}
    (hsearch : ((s.descent o F B).search k it).run.result = .ok t) : t.accepted = true := by
  cases s with
  | spectral =>
    cases hsearch
    obtain ⟨-, -, -, -, -, haccepted, -⟩ := exists_spectral_trial hB hL hF hP hgtol hvisits hgoing
    exact haccepted
  | quasiNewton =>
    have hsound := hvisits.sound_last (quasiNewton.searches o F B)
    obtain ⟨a, b, scale, hit, hmoves⟩ := exists_standsAt hB hP hgtol _ hvisits hgoing
    obtain ⟨d, -, rfl⟩ := quasiNewtonSearch_eq_ok hsearch
    by_contra hrejected
    obtain ⟨-, hsecond⟩ := LineSearch.quasiNewtonTrial_rejected (Bool.eq_false_iff.mpr hrejected)
    have hsteep := hB.steep_gradient hit.feasible hmoves hit.scale_pos
    have htrial := (hF.trial_accepted hL hP hsound hit hsteep).1
    rw [hit.scale, hit.gradient, neg_real, real_mul_vec, htrial] at hsecond
    cases hsecond

theorem persists (s : SolverChoice) (x : Fin n → ℝ) (h : Option τ) :
    s.Persists o F B tol (vec x) h where
  accepted hvisits hgoing hsearch := s.search_accepted hB hL hF hP hgtol hvisits hgoing hsearch
  unconverged {report} hrun := by
    rw [solve_result] at hrun ⊢
    obtain ⟨earlier, it, hend, hhonest⟩ :=
      honest_of_leaves hB.not_isEmpty (allNumbers_vec x)
        ((s.descent o F B).solve_leaves F B tol (vec x) h) hrun
    refine ⟨earlier, it, _, congrArg Vector.toArray hend, hhonest, fun hunconverged => ?_⟩
    have hgoing : ¬ it.Stationary tol.gradient := by
      rw [Iterate.Stationary, hhonest.sound.residual_at, ← hhonest.converged_iff, hunconverged]
      exact Bool.false_ne_true
    rcases hhonest.unconverged hunconverged with hlimit | hshort | hfails
    · exact .inl hlimit
    · exact .inr hshort
    · obtain ⟨t, hsearch, hrejected⟩ := exists_rejected_of_searchFails hfails
      rw [s.search_accepted hB hL hF hP hgtol hhonest.visits hgoing hsearch] at hrejected
      cases hrejected

end

/-- Nothing that the spectral solver evaluates is infinite, so it reports. -/
theorem exists_spectral_report (hB : B.Regular) (hF : F.Smooth B f f' L)
    (hr : (LineSearch.ofOptions o).rate = real r) (x : Fin n → ℝ) (h : Option τ) :
    ∃ report, ((spectral.solver o).solve F B tol (vec x) () h).result.outcome = .ok report := by
  rw [solve_result]
  have hleaves := (spectral.descent o F B).solve_leaves F B tol (vec x) h
  generalize ((spectral.descent o F B).solve F B tol (vec x) h).result = e at hleaves ⊢
  cases hleaves with
  | unstarted hstart =>
    rw [hB.project_vec] at hstart
    exact absurd (hF.finiteAt (hB.feasible_nearest x)) (Iterate.start_eq_error hstart)
  | halted hvisits hlength hhalts =>
    cases hhalts with
    | stationary => exact ⟨_, rfl⟩
    | exhausted => exact ⟨_, rfl⟩
    | short => exact ⟨_, rfl⟩
    | rejected => exact ⟨_, rfl⟩
    | unsearched hsearch => cases hsearch
    | unevaluated hsearch haccepted hgradient =>
      have hsearches := spectral.searches (τ := τ) o F B
      have hreal := Descent.acceptsReal_spectral (τ := τ) (F := F) hB hr
      obtain ⟨a, b, t, hit⟩ := hvisits.standsAt hB hsearches hreal
      have hfinite := hreal _ _ a b t _ hit (hvisits.sound_last hsearches) hsearch haccepted
      obtain ⟨z, hz⟩ := (hsearches _ _ _ hsearch haccepted).projected
      have hfeasible := hB.feasible_of_project hz hfinite
      obtain ⟨w, hw⟩ := allFinite_iff.mp hfinite
      rw [hw] at hgradient hfeasible
      exact absurd (hF.finiteAt hfeasible).2 (finiteGradient_eq_error hgradient)

/-- Neither solver ends because a search failed, if the function is smooth and the search tries
lengths that are short enough for it. The lengths that the spectral solver accepts are not much
shorter than the curvature asks for. -/
theorem solve_persists (hB : B.Regular) (hL : 0 < L) (hF : F.Smooth B f f' L)
    (hP : (LineSearch.ofOptions o).Suits c r L) (hgtol : 0 ≤ tol.gradient) (x : Fin n → ℝ)
    (h : Option τ) :
    (∀ s : SolverChoice, s.Persists o F B tol (vec x) h) ∧
    ∀ earlier it k, (spectral.descent o F B).Visits F B (vec x) h earlier it k →
      ¬ it.Stationary tol.gradient →
      let u := (LineSearch.ofOptions o).trial F B it (spectralDirection B it)
      ∃ scale alpha, it.scale = real scale ∧ u.accepted = true ∧ u.alpha = real alpha ∧
        (alpha = 1 ∨ 2 * r * (1 - c) / (L * scale) < alpha) := by
  refine ⟨fun s => s.persists hB hL hF hP hgtol x h, fun earlier it k hvisits hgoing => ?_⟩
  obtain ⟨a, b, t, s, hit, haccepted, halpha, hlength⟩ :=
    exists_spectral_trial hB hL hF hP hgtol hvisits hgoing
  exact ⟨t, s, hit.scale, haccepted, halpha, hlength⟩

end SolverChoice

/-! ## The squares -/

theorem Objective.smooth_squares :
    (squares.oracle : Oracle Exact n).Smooth B (fun a => a ⬝ᵥ a) (fun a => (2 : ℝ) • a) 2 where
  value_at a _ := value_squares a
  gradient_at a _ := gradient_squares a
  below a c _ _ := by
    rw [sq_length]
    simp only [smul_dotProduct, dotProduct_sub, sub_dotProduct, smul_eq_mul, dotProduct_comm c a]
    linarith

/-- By default a search tries lengths that are short enough for them. -/
theorem Options.suits_standard :
    (LineSearch.ofOptions (.standard : Options Exact)).Suits 1e-4 0.5 2 where
  fraction := rfl
  rate := rfl
  fraction_pos := by norm_num
  fraction_lt := by norm_num
  rate_pos := by norm_num
  rate_lt := by norm_num
  short := by
    show (2 : ℝ) * 1e10 * 0.5 ^ 60 ≤ 2 * (1 - 1e-4)
    norm_num

namespace SolverChoice

/-- The squares over the unit interval, from its right end and with the tolerance zero. -/
theorem solve_persists_squares :
    let F : Oracle Exact 1 := Objective.squares.oracle
    let tol : Tolerances Exact := ⟨real 0, real 0, 100⟩
    let h : Option (LimitedMemory Exact) := none
    Box.unit.Regular ∧ F.Smooth .unit (fun a => a ⬝ᵥ a) (fun a => (2 : ℝ) • a) 2 ∧
      (LineSearch.ofOptions (.standard : Options Exact)).Suits 1e-4 0.5 2 ∧ 0 ≤ tol.gradient ∧
      (∀ s : SolverChoice, s.Persists .standard F .unit tol (vec fun _ => 3) h) ∧
      (∃ report,
        ((spectral.solver .standard).solve F .unit tol (vec fun _ => 3) () h).result.outcome =
          .ok report) ∧
      ∃ it, (spectral.descent .standard F .unit).Visits F .unit (vec fun _ => 3) h [] it h ∧
        ¬ it.Stationary tol.gradient ∧
        let u := (LineSearch.ofOptions .standard).trial F .unit it (spectralDirection .unit it)
        ∃ scale alpha, it.scale = real scale ∧ u.accepted = true ∧ u.alpha = real alpha ∧
          (alpha = 1 ∨ 2 * 0.5 * (1 - 1e-4) / (2 * scale) < alpha) := by
  intro F tol h
  have hB := Box.regular_unit
  have hF : F.Smooth .unit (fun a => a ⬝ᵥ a) (fun a => (2 : ℝ) • a) 2 := Objective.smooth_squares
  have hP := Options.suits_standard
  have hgtol : 0 ≤ tol.gradient := le_refl (0 : ℝ)
  obtain ⟨hpersists, hlengths⟩ := solve_persists hB two_pos hF hP hgtol (fun _ => 3) h
  obtain ⟨it, t, hstart, hit, -, hresidual⟩ := Descent.exists_start_unit
  have hvisits : (spectral.descent .standard F .unit).Visits F .unit (vec fun _ => 3) h [] it h :=
    .start hstart
  have hgoing : ¬ it.Stationary tol.gradient := hit.not_stationary hresidual
  exact ⟨hB, hF, hP, hgtol, hpersists, exists_spectral_report hB hF hP.rate _ h, it, hvisits,
    hgoing, hlengths _ _ _ hvisits hgoing⟩

end SolverChoice

end LogBarrier

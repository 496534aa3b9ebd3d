import LogBarrier.Proofs.Inside
import LogBarrier.Proofs.Positions
import LogBarrier.Proofs.Terms
import Mathlib.Analysis.Calculus.Deriv.Inv
import Mathlib.Analysis.Calculus.Deriv.Pi
import Mathlib.Analysis.SpecialFunctions.Log.Deriv

/-!
# The derivatives of the augmented objective

Slopes and curvatures are what their names say: along a variable that is not fixed, the slope of a
barrier term is the derivative of its value and the curvature that of its slope. The augmented
objective inherits this from the caller's objective, sum by sum and scaled by `mu`. An interior
point has interior points all around it once the fixed variables are held, so what happens outside
the domain of the barrier does not matter.
-/

namespace LogBarrier

open Scalar Exact Filter Topology

variable {n : ℕ}

/-! ## One variable -/

namespace Interval

variable {I : Interval Exact} {κ l u r : ℝ}

theorem hasDerivAt_neg_log_sub (h : 0 < r - l) :
    HasDerivAt (fun s : ℝ => -Real.log (s - l)) (-1 / (r - l)) r := by
  have hdistance : HasDerivAt (fun s : ℝ => s - l) 1 r := (hasDerivAt_id r).sub_const l
  exact (hdistance.log h.ne').neg.congr_deriv (neg_div _ _).symm

theorem hasDerivAt_neg_log_from (h : 0 < u - r) :
    HasDerivAt (fun s : ℝ => -Real.log (u - s)) (1 / (u - r)) r := by
  have hdistance : HasDerivAt (fun s : ℝ => u - s) (-1) r := (hasDerivAt_id r).const_sub u
  exact (hdistance.log h.ne').neg.congr_deriv (by rw [neg_div, neg_neg])

theorem hasDerivAt_neg_inv_sub (h : 0 < r - l) :
    HasDerivAt (fun s : ℝ => -1 / (s - l)) (1 / ((r - l) * (r - l))) r := by
  have hdistance : HasDerivAt (fun s : ℝ => s - l) 1 r := (hasDerivAt_id r).sub_const l
  exact ((hasDerivAt_const r (-1)).div hdistance h.ne').congr_deriv (by rw [sq]; ring)

theorem hasDerivAt_inv_from (h : 0 < u - r) :
    HasDerivAt (fun s : ℝ => 1 / (u - s)) (1 / ((u - r) * (u - r))) r := by
  have hdistance : HasDerivAt (fun s : ℝ => u - s) (-1) r := (hasDerivAt_id r).const_sub u
  exact ((hasDerivAt_const r 1).div hdistance h.ne').congr_deriv (by rw [sq]; ring)

/-- The slope of a term is the derivative of its value. -/
theorem Regular.hasDerivAt_value (hI : I.Regular) (h : I.Interior (real r)) :
    HasDerivAt (fun s => (I.realTerm κ s).value) (I.realTerm κ r).slope r := by
  cases hI with
  | free => exact hasDerivAt_const r 0
  | above l =>
    have hpos : 0 < r - l := sub_pos.mpr (h.between nofun).1
    have hlinear : HasDerivAt (fun s : ℝ => κ * (s - l)) κ r :=
      (((hasDerivAt_id r).sub_const l).const_mul κ).congr_deriv (mul_one κ)
    exact (hasDerivAt_neg_log_sub hpos).add hlinear
  | below u =>
    have hpos : 0 < u - r := sub_pos.mpr (h.between nofun).2
    have hlinear : HasDerivAt (fun s : ℝ => κ * (u - s)) (-κ) r :=
      (((hasDerivAt_id r).const_sub u).const_mul κ).congr_deriv (mul_neg_one κ)
    exact ((hasDerivAt_neg_log_from hpos).add hlinear).congr_deriv (sub_eq_add_neg _ _).symm
  | @between l u hle =>
    unfold realTerm
    dsimp only
    by_cases hfixed : l = u
    · simp only [if_pos hfixed]
      exact hasDerivAt_const r 0
    · obtain ⟨hlow, hhigh⟩ := h.pos_of_between hfixed
      simp only [if_neg hfixed]
      exact (hasDerivAt_neg_log_sub hlow).add (hasDerivAt_neg_log_from hhigh)

/-- The curvature of a term is the derivative of its slope. -/
theorem Regular.hasDerivAt_slope (hI : I.Regular) (h : I.Interior (real r)) :
    HasDerivAt (fun s => (I.realTerm κ s).slope) (I.realTerm κ r).curvature r := by
  cases hI with
  | free => exact hasDerivAt_const r 0
  | above l =>
    have hpos : 0 < r - l := sub_pos.mpr (h.between nofun).1
    exact (hasDerivAt_neg_inv_sub hpos).add_const κ
  | below u =>
    have hpos : 0 < u - r := sub_pos.mpr (h.between nofun).2
    exact (hasDerivAt_inv_from hpos).sub_const κ
  | @between l u hle =>
    unfold realTerm
    dsimp only
    by_cases hfixed : l = u
    · simp only [if_pos hfixed]
      exact hasDerivAt_const r 0
    · obtain ⟨hlow, hhigh⟩ := h.pos_of_between hfixed
      simp only [if_neg hfixed]
      exact (hasDerivAt_neg_inv_sub hlow).add (hasDerivAt_inv_from hhigh)

/-- Unless the variable is fixed, the numbers around an interior one are interior. -/
theorem Regular.eventually_interior (hI : I.Regular) (h : I.Interior (real r))
    (hfree : ¬ I.IsFixed) : ∀ᶠ s in 𝓝 r, I.Interior (real s) := by
  have hne : I.lower ≠ I.upper := fun heq => hfree ((isFixed_iff hI).mpr heq)
  obtain ⟨hlow, hhigh⟩ := h.between hne
  have hbetween : ∀ᶠ s in 𝓝 r, I.lower < real s ∧ real s < I.upper := by
    cases hI with
    | free => exact Eventually.of_forall fun s => ⟨trivial, trivial⟩
    | above l => exact (eventually_gt_nhds hlow).mono fun s hs => ⟨hs, trivial⟩
    | below u => exact (eventually_lt_nhds hhigh).mono fun s hs => ⟨trivial, hs⟩
    | between => exact (eventually_gt_nhds hlow).and (eventually_lt_nhds hhigh)
  exact hbetween.mono fun s hs => ⟨fun _ => hs, fun heq => absurd heq hne⟩

end Interval

/-! ## Derivatives of exact functions -/

/-- Around `r` the values of `f` are real, and `d` is their derivative at `r`. -/
def Exact.HasSlopeAt (f : ℝ → Exact) (d r : ℝ) : Prop :=
  ∃ φ : ℝ → ℝ, (∀ᶠ s in 𝓝 r, f s = real (φ s)) ∧ HasDerivAt φ d r

namespace Objective

/-- The objective is real around `a` and differentiable there, and its gradient is `b`. -/
structure SmoothAt (f : Objective Exact) (a b : Fin n → ℝ) : Prop where
  value : ∃ (φ : (Fin n → ℝ) → ℝ) (D : (Fin n → ℝ) →L[ℝ] ℝ),
    (∀ᶠ c in 𝓝 a, f.value (vec c).toArray = real (φ c)) ∧ HasFDerivAt φ D a ∧ ∀ v, D v = b ⬝ᵥ v
  gradient : f.gradient (vec a).toArray = (vec b).toArray

/-- The gradient of the objective is real around `a` and differentiable there, and the exact product
is that with the second derivative. -/
structure TwiceAt (f : Objective Exact) (a : Fin n → ℝ) (D : (Fin n → ℝ) →L[ℝ] (Fin n → ℝ)) :
    Prop where
  gradient : ∃ G : (Fin n → ℝ) → Fin n → ℝ,
    (∀ᶠ c in 𝓝 a, f.gradient (vec c).toArray = (vec (G c)).toArray) ∧ HasFDerivAt G D a
  product : ∃ p, f.product? = some p ∧
    ∀ v, p (vec a).toArray (vec v).toArray = (vec (D v)).toArray

end Objective

/-! ## The augmented objective -/

namespace Box

variable {B : Box Exact n} {a v : Fin n → ℝ}

/-- Moving one variable that is not fixed by a little leaves the point interior. -/
theorem Regular.eventually_interior_update (hB : B.Regular) (ha : B.Interior (vec a)) {i : Fin n}
    (hi : ¬ (B.side i).IsFixed) :
    ∀ᶠ s in 𝓝 (a i), B.Interior (vec (Function.update a i s)) := by
  have hat (j : Fin n) : (B.side j).Interior (real (a j)) := by
    have hj := ha j
    rwa [get_vec] at hj
  refine ((hB i).eventually_interior (hat i) hi).mono fun s hs j => ?_
  rw [get_vec]
  by_cases hj : j = i
  · subst hj
    rwa [Function.update_self]
  · rw [Function.update_of_ne hj]
    exact hat j

/-- So does moving all of them a little along `v`. -/
theorem Regular.eventually_interior_line (hB : B.Regular) (ha : B.Interior (vec a))
    (hv : ∀ i, (B.side i).IsFixed → v i = 0) : ∀ᶠ s in 𝓝 (0 : ℝ), B.Interior (vec (a + s • v)) := by
  refine (eventually_all.mpr fun i => ?_).mono fun s hs => hs
  have hi := ha i
  rw [get_vec] at hi
  by_cases hfixed : (B.side i).IsFixed
  · refine Eventually.of_forall fun s => ?_
    rw [get_vec, Pi.add_apply, Pi.smul_apply, hv i hfixed, smul_zero, add_zero]
    exact hi
  · have hline : Tendsto (fun s : ℝ => a i + s * v i) (𝓝 0) (𝓝 (a i)) := by
      have hcontinuous : Continuous fun s : ℝ => a i + s * v i := by fun_prop
      have htendsto := hcontinuous.tendsto 0
      rwa [zero_mul, add_zero] at htendsto
    refine (hline.eventually ((hB i).eventually_interior hi hfixed)).mono fun s hs => ?_
    rwa [get_vec]

/-- The barrier changes with one variable as that variable's term does. -/
theorem Regular.hasDerivAt_barrier (hB : B.Regular) (ha : B.Interior (vec a)) (κ : ℝ) (i : Fin n) :
    HasDerivAt (fun s => ∑ j, (B.realTerm κ (Function.update a i s) j).value)
      (B.realTerm κ a i).slope (a i) := by
  -- The terms of the other variables stay as they are.
  have hterm (j : Fin n) : HasDerivAt (fun s => (B.realTerm κ (Function.update a i s) j).value)
      (if j = i then (B.realTerm κ a i).slope else 0) (a i) := by
    unfold realTerm
    by_cases hj : j = i
    · subst hj
      simp only [Function.update_self, if_true]
      have hi := ha j
      rw [get_vec] at hi
      exact (hB j).hasDerivAt_value hi
    · simp only [Function.update_of_ne hj, if_neg hj]
      exact hasDerivAt_const _ _
  have hsum := HasDerivAt.fun_sum fun j (_ : j ∈ Finset.univ) => hterm j
  rwa [Finset.sum_ite_eq' Finset.univ i, if_pos (Finset.mem_univ i)] at hsum

/-- Along `v` the slopes change by the curvatures. -/
theorem Regular.hasDerivAt_slopes (hB : B.Regular) (ha : B.Interior (vec a)) (κ : ℝ)
    (v : Fin n → ℝ) :
    HasDerivAt (fun (s : ℝ) i => (B.realTerm κ (a + s • v) i).slope)
      ((fun i => (B.realTerm κ a i).curvature) * v) 0 := by
  refine hasDerivAt_pi.mpr fun i => ?_
  have hi := ha i
  rw [get_vec] at hi
  have hline : HasDerivAt (fun s : ℝ => a i + s * v i) (v i) 0 :=
    (((hasDerivAt_id (0 : ℝ)).mul_const (v i)).const_add (a i)).congr_deriv (one_mul _)
  have hslope : HasDerivAt (fun s => ((B.side i).realTerm κ s).slope)
      ((B.side i).realTerm κ (a i)).curvature (a i + 0 * v i) := by
    rw [zero_mul, add_zero]
    exact (hB i).hasDerivAt_slope hi
  exact hslope.comp 0 hline

end Box

namespace Augmented

variable {A : Augmented Exact n} {μ κ : ℝ} {a b : Fin n → ℝ}

/-- The partial derivatives of the value are the entries of the gradient. -/
theorem RealCoefficients.hasSlopeAt_value (h : A.RealCoefficients μ κ) (hB : A.box.Regular)
    (ha : A.box.Interior (vec a)) (hf : A.objective.SmoothAt a b) {i : Fin n}
    (hi : ¬ (A.box.side i).IsFixed) :
    HasSlopeAt (fun s => (A.value (vec (Function.update a i s))).result)
      ((b + μ • fun i => (A.box.realTerm κ a i).slope) i) (a i) := by
  obtain ⟨φ, D, hreal, hderivative, hgradient⟩ := hf.value
  have hmove := hasDerivAt_update a i (a i)
  have hself : Function.update a i (a i) = a := Function.update_eq_self i a
  refine ⟨fun s => φ (Function.update a i s) +
    μ * ∑ j, (A.box.realTerm κ (Function.update a i s) j).value, ?_, ?_⟩
  · have hnear : Tendsto (Function.update a i) (𝓝 (a i)) (𝓝 a) := by
      have hcontinuous := hmove.continuousAt.tendsto
      rwa [hself] at hcontinuous
    filter_upwards [hnear.eventually hreal, hB.eventually_interior_update ha hi] with s hs hin
    exact h.value_vec hB hin hs
  · rw [← hself] at hderivative
    have hobjective := hderivative.comp_hasDerivAt (a i) hmove
    rw [hgradient, dotProduct_single, mul_one] at hobjective
    exact hobjective.add ((hB.hasDerivAt_barrier ha κ i).const_mul μ)

/-- Along its own variable the slope of the barrier changes by the curvature. -/
theorem RealCoefficients.hasSlopeAt_slopes (h : A.RealCoefficients μ κ) (hB : A.box.Regular)
    (ha : A.box.Interior (vec a)) {i : Fin n} (hi : ¬ (A.box.side i).IsFixed) :
    HasSlopeAt (fun s => (A.barrierSlopes (vec (Function.update a i s))).get i)
      (A.box.realTerm κ a i).curvature (a i) := by
  refine ⟨fun s => ((A.box.side i).realTerm κ s).slope, ?_, ?_⟩
  · filter_upwards [hB.eventually_interior_update ha hi] with s hin
    rw [barrierSlopes, h.kappa, hB.barrierSlopes_vec hin, get_vec, Box.realTerm,
      Function.update_self]
  · have hi := ha i
    rw [get_vec] at hi
    exact (hB i).hasDerivAt_slope hi

/-- The product is the derivative of the gradient along its direction. -/
theorem RealCoefficients.hasDerivAt_gradient (h : A.RealCoefficients μ κ) (hB : A.box.Regular)
    (ha : A.box.Interior (vec a)) {D : (Fin n → ℝ) →L[ℝ] (Fin n → ℝ)}
    (hf : A.objective.TwiceAt a D) {v : Fin n → ℝ}
    (hv : ∀ i, (A.box.side i).IsFixed → v i = 0) :
    ∃ G : ℝ → Fin n → ℝ,
      (∀ᶠ s in 𝓝 (0 : ℝ), (A.gradient (vec (a + s • v))).run.result = .ok (vec (G s)).toArray) ∧
      HasDerivAt G (D v + μ • ((fun i => (A.box.realTerm κ a i).curvature) * v)) 0 := by
  obtain ⟨G, hreal, hderivative⟩ := hf.gradient
  have hline : HasDerivAt (fun s : ℝ => a + s • v) v 0 :=
    (((hasDerivAt_id (0 : ℝ)).smul_const v).const_add a).congr_deriv (one_smul ℝ v)
  have hstart : a + (0 : ℝ) • v = a := by rw [zero_smul, add_zero]
  refine ⟨fun s => G (a + s • v) + μ • fun i => (A.box.realTerm κ (a + s • v) i).slope, ?_, ?_⟩
  · have hnear : Tendsto (fun s : ℝ => a + s • v) (𝓝 0) (𝓝 a) := by
      have hcontinuous := hline.continuousAt.tendsto
      rwa [hstart] at hcontinuous
    filter_upwards [hnear.eventually hreal, hB.eventually_interior_line ha hv] with s hs hin
    exact h.gradient_vec hB hin hs
  · rw [← hstart] at hderivative
    exact (hderivative.comp_hasDerivAt 0 hline).add ((hB.hasDerivAt_slopes ha κ v).const_smul μ)

/-- What the augmented objective computes at an interior point fits together: the entries of the
gradient are the partial derivatives of the value, the curvatures of the barrier are the derivatives
of its slopes, and a product is the derivative of the gradient along its direction. All of this is
about the variables that are not fixed. -/
theorem derivatives_agree (hB : A.box.Regular) (hmu : A.mu = real μ) (hkappa : A.kappa = real κ)
    (ha : A.box.Interior (vec a)) :
    (∀ b, A.objective.SmoothAt a b → ∃ g : Fin n → ℝ,
      (A.gradient (vec a)).run.result = .ok (vec g).toArray ∧
      ∀ i, ¬ (A.box.side i).IsFixed →
        HasSlopeAt (fun s => (A.value (vec (Function.update a i s))).result) (g i) (a i)) ∧
    (∃ c : Fin n → ℝ, A.barrierCurvatures (vec a) = vec c ∧
      ∀ i, ¬ (A.box.side i).IsFixed →
        HasSlopeAt (fun s => (A.barrierSlopes (vec (Function.update a i s))).get i) (c i) (a i)) ∧
    ∀ D, A.objective.TwiceAt a D → ∀ v : Fin n → ℝ, (∀ i, (A.box.side i).IsFixed → v i = 0) →
      ∃ w : Fin n → ℝ, (A.product (vec a) (vec v).toArray).run.result = .ok (vec w).toArray ∧
      ∃ G : ℝ → Fin n → ℝ,
        (∀ᶠ s in 𝓝 (0 : ℝ), (A.gradient (vec (a + s • v))).run.result = .ok (vec (G s)).toArray) ∧
        HasDerivAt G w 0 := by
  obtain ⟨κ', hactive⟩ := exists_activeKappa hkappa
  have h : A.RealCoefficients μ κ' := ⟨hmu, hactive⟩
  refine ⟨fun b hf => ?_, ?_, fun D hf v hv => ?_⟩
  · exact ⟨_, h.gradient_vec hB ha hf.gradient, fun i hi => h.hasSlopeAt_value hB ha hf hi⟩
  · refine ⟨fun i => (A.box.realTerm κ' a i).curvature, ?_, fun i hi => ?_⟩
    · rw [barrierCurvatures, hactive, hB.barrierCurvatures_vec ha]
    · exact h.hasSlopeAt_slopes hB ha hi
  · obtain ⟨p, hexact, hproduct⟩ := hf.product
    exact ⟨_, h.product_vec hB ha hexact (hproduct v), h.hasDerivAt_gradient hB ha hf hv⟩

end Augmented

/-! ## Squares -/

namespace Objective

/-- The squares with an exact product. -/
noncomputable def exactSquares : Objective Exact :=
  { squares with product? := some fun _ v => (v.toVector + v.toVector).toArray }

theorem smoothAt_exactSquares (a : Fin n → ℝ) : exactSquares.SmoothAt a ((2 : ℝ) • a) where
  value := by
    have hentry (i : Fin n) : HasFDerivAt (fun c : Fin n → ℝ => c i)
        (ContinuousLinearMap.proj i : (Fin n → ℝ) →L[ℝ] ℝ) a := hasFDerivAt_apply i a
    refine ⟨fun c => c ⬝ᵥ c, _, Eventually.of_forall value_squares,
      HasFDerivAt.fun_sum fun i _ => (hentry i).mul (hentry i), fun v => ?_⟩
    simp only [sum_apply, add_apply, smul_apply, ContinuousLinearMap.proj_apply, smul_eq_mul,
      dotProduct, Pi.smul_apply]
    exact Finset.sum_congr rfl fun i _ => by ring
  gradient := Except.ok.inj (gradient_squares a)

theorem twiceAt_exactSquares (a : Fin n → ℝ) :
    exactSquares.TwiceAt a ((2 : ℝ) • ContinuousLinearMap.id ℝ (Fin n → ℝ)) where
  gradient := by
    refine ⟨fun c => (2 : ℝ) • c, Eventually.of_forall fun c => ?_, ?_⟩
    · exact Except.ok.inj (gradient_squares c)
    · exact ((2 : ℝ) • ContinuousLinearMap.id ℝ (Fin n → ℝ)).hasFDerivAt
  product := by
    refine ⟨_, rfl, fun v => ?_⟩
    have hdouble (x : Vector Exact n) :
        (x.toArray.toVector + x.toArray.toVector).toArray = (x + x).toArray := by
      obtain ⟨xs, rfl⟩ := x
      rfl
    rw [hdouble, vec_add_vec, ← two_smul ℝ v]
    rfl

end Objective

/-- The squares over an interval and a fixed variable. -/
theorem Augmented.derivatives_agree_squares :
    let A : Augmented Exact 2 :=
      .start .exactSquares (.between (vec ![0, 1]) (vec ![1, 1])) (real 0.1) (real 1e-4) true
    let a : Fin 2 → ℝ := ![0.5, 1]
    let v : Fin 2 → ℝ := ![1, 0]
    let D := (2 : ℝ) • ContinuousLinearMap.id ℝ (Fin 2 → ℝ)
    A.box.Regular ∧ A.mu = real 0.1 ∧ A.kappa = real 1e-4 ∧ A.box.Interior (vec a) ∧
      A.objective.SmoothAt a ((2 : ℝ) • a) ∧ A.objective.TwiceAt a D ∧
      ¬ (A.box.side 0).IsFixed ∧ (A.box.side 1).IsFixed ∧ v 1 = 0 ∧
      (∃ g : Fin 2 → ℝ, (A.gradient (vec a)).run.result = .ok (vec g).toArray ∧
        HasSlopeAt (fun s => (A.value (vec (Function.update a 0 s))).result) (g 0) (a 0)) ∧
      (∃ c : Fin 2 → ℝ, A.barrierCurvatures (vec a) = vec c ∧
        HasSlopeAt (fun s => (A.barrierSlopes (vec (Function.update a 0 s))).get 0) (c 0) (a 0)) ∧
      ∃ w : Fin 2 → ℝ, (A.product (vec a) (vec v).toArray).run.result = .ok (vec w).toArray ∧
      ∃ G : ℝ → Fin 2 → ℝ,
        (∀ᶠ s in 𝓝 (0 : ℝ), (A.gradient (vec (a + s • v))).run.result = .ok (vec (G s)).toArray) ∧
        HasDerivAt G w 0 := by
  intro A a v D
  have hB : A.box.Regular := Box.regular_between fun i => by fin_cases i <;> simp
  have hside (i : Fin 2) : A.box.side i = ⟨real (![0, 1] i), real (![1, 1] i)⟩ := by
    show (Box.between _ _).side i = _
    rw [Box.side_between, get_vec, get_vec]
  have ha : A.box.Interior (vec a) := by
    intro i
    rw [hside, get_vec]
    fin_cases i
    · exact ⟨fun _ => ⟨by norm_num [a], by norm_num [a]⟩, fun heq => by simp at heq⟩
    · exact ⟨fun hne => absurd rfl hne, fun _ => rfl⟩
  have hfree : ¬ (A.box.side 0).IsFixed := by
    rw [hside]
    exact fun hfixed => absurd (real_le_real.mp hfixed.2) (by norm_num)
  have hfixed : (A.box.side 1).IsFixed := by
    rw [hside]
    exact ⟨real_le_real.mpr le_rfl, real_le_real.mpr le_rfl⟩
  have hv (i : Fin 2) (hi : (A.box.side i).IsFixed) : v i = 0 := by
    fin_cases i
    · exact absurd hi hfree
    · rfl
  have hsmooth := Objective.smoothAt_exactSquares a
  have htwice := Objective.twiceAt_exactSquares a
  obtain ⟨hvalue, ⟨c, hc, hslopes⟩, hproduct⟩ := derivatives_agree hB rfl rfl ha
  obtain ⟨g, hg, hpartial⟩ := hvalue _ hsmooth
  exact ⟨hB, rfl, rfl, ha, hsmooth, htwice, hfree, hfixed, rfl, ⟨g, hg, hpartial 0 hfree⟩,
    ⟨c, hc, hslopes 0 hfree⟩, hproduct D htwice v hv⟩

end LogBarrier

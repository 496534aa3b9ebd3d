import LogBarrier.Proofs.Nearest
import LogBarrier.Proofs.Positions
import LogBarrier.Proofs.Terms

/-!
# Products by differences

Where an objective has no exact product, the product of its second derivative with a vector is a
forward difference of the gradient. With exact arithmetic the difference misses the product by no
more than half the curvature of the gradient along the step, and the length of the step does not
depend on that of the vector. An augmented objective takes the difference of the caller's gradient
alone and adds the curvatures of the barrier as they are, so the bounds of the box do not add to the
error, however near they are.
-/

namespace LogBarrier

open Scalar Exact

variable {n : ℕ} {a v : Fin n → ℝ}

/-! ## The step -/

theorem Exact.length_smul (c : ℝ) (a : Fin n → ℝ) : length (c • a) = |c| * length a := by
  rw [length, length, smul_dotProduct, dotProduct_smul, smul_eq_mul, smul_eq_mul, ← mul_assoc,
    Real.sqrt_mul (mul_self_nonneg c), Real.sqrt_mul_self_eq_abs]

/-- How far from `a` a difference asks for the gradient the second time. -/
noncomputable def shiftLength (a : Fin n → ℝ) : ℝ :=
  Real.sqrt ((2 : ℕ) ^ (-52 : ℤ)) * max 1 (length a)

/-- The error that is allowed a difference at `a` along `v` where the gradient has the curvature
`M`. -/
noncomputable def differenceError (M : ℝ) (a v : Fin n → ℝ) : ℝ :=
  M / (2 : ℕ) * Real.sqrt ((2 : ℕ) ^ (-52 : ℤ)) * max 1 (length a) * length v

theorem shiftLength_pos (a : Fin n → ℝ) : 0 < shiftLength a :=
  mul_pos (Real.sqrt_pos.mpr (zpow_pos (Nat.cast_pos.mpr two_pos) _)) (lt_max_of_lt_left one_pos)

theorem differenceError_eq (M : ℝ) (a v : Fin n → ℝ) :
    differenceError M a v = M / 2 * shiftLength a * length v := by
  rw [differenceError, shiftLength, ← mul_assoc, Nat.cast_ofNat]

theorem differenceStep_vec (a : Fin n → ℝ) (hv : v ≠ 0) :
    differenceStep (vec a) (norm (vec v)) = real (shiftLength a / length v) := by
  have hepsilon : (epsilon : Exact) = real (2 ^ (-52 : ℤ)) := rfl
  rw [differenceStep, hepsilon, sqrt_real (zpow_pos two_pos _).le, norm_vec, norm_vec, one_eq,
    max_real, real_mul_real, real_div_real _ (length_pos_iff.mpr hv).ne']
  rfl

/-! ## Differences over the real numbers -/

/-- The gradient has the real values `G`. -/
def Grades (gradient : Vector Exact n → Trying Exact (Array Exact))
    (G : (Fin n → ℝ) → Fin n → ℝ) : Prop :=
  ∀ c, (gradient (vec c)).run.result = .ok (vec (G c)).toArray

/-- Away from `a` the map `G` changes as the linear map `A` does, up to half of `M` times the square
of the distance. -/
def LinearNear (G : (Fin n → ℝ) → Fin n → ℝ) (A : (Fin n → ℝ) →ₗ[ℝ] (Fin n → ℝ))
    (a : Fin n → ℝ) (M : ℝ) : Prop :=
  ∀ w, length (G (a + w) - G a - A w) ≤ M / (2 : ℕ) * length w ^ 2

section

variable {gradient : Vector Exact n → Trying Exact (Array Exact)} {G : (Fin n → ℝ) → Fin n → ℝ}
  {A : (Fin n → ℝ) →ₗ[ℝ] (Fin n → ℝ)} {M : ℝ}

theorem forwardDifference_zero (gradient : Vector Exact n → Trying Exact (Array Exact))
    (a : Fin n → ℝ) :
    (forwardDifference gradient (vec a) (vec (0 : Fin n → ℝ)).toArray).run.result =
      .ok (vec (0 : Fin n → ℝ)).toArray := by
  have hsame : Same (norm (vec (0 : Fin n → ℝ))) 0 := by
    rw [norm_vec, length_eq_zero_iff.mpr rfl]
    exact ⟨real_le_real.mpr le_rfl, real_le_real.mpr le_rfl⟩
  have hzero : (0 : Vector Exact n) = vec 0 := eq_vec_iff.mpr fun i => Vector.getElem_replicate i.isLt
  rw [forwardDifference_of_same gradient _ hsame, hzero]
  rfl

theorem Grades.forwardDifference_vec (h : Grades gradient G) (a : Fin n → ℝ) (hv : v ≠ 0) :
    let t := shiftLength a / length v
    (forwardDifference gradient (vec a) (vec v).toArray).run.result =
      .ok (vec ((1 / t) • (G (a + t • v) - G a))).toArray := by
  intro t
  have hpos := length_pos_iff.mpr hv
  have ht : t ≠ 0 := (div_pos (shiftLength_pos a) hpos).ne'
  have hmoving : ¬ Same (norm (vec v)) 0 := by
    rw [norm_vec]
    exact fun hsame => hpos.not_ge (real_le_zero.mp hsame.1)
  have hshifted : (gradient (vec a + differenceStep (vec a) (norm (vec v)) * vec v)).run.result =
      .ok (vec (G (a + t • v))).toArray := by
    rw [differenceStep_vec a hv, real_mul_vec, vec_add_vec]
    exact h _
  rw [forwardDifference_of_not_same hmoving (h a) hshifted, differenceStep_vec a hv, one_eq,
    real_div_real 1 ht, vec_sub_vec, real_mul_vec]

/-- Along any step the quotient of the difference misses the linear map by half of `M` times the
length of the step, once for each unit of the direction. -/
theorem LinearNear.length_quotient_sub_le (h : LinearNear G A a M) (v : Fin n → ℝ) {t : ℝ}
    (ht : 0 < t) :
    length ((1 / t) • (G (a + t • v) - G a) - A v) ≤ M / 2 * (t * length v) * length v := by
  have hmap : A v = (1 / t) • A (t • v) := by
    rw [map_smul, smul_smul, one_div_mul_cancel ht.ne', one_smul]
  calc length ((1 / t) • (G (a + t • v) - G a) - A v)
      = 1 / t * length (G (a + t • v) - G a - A (t • v)) := by
        rw [hmap, ← smul_sub, length_smul, abs_of_pos (one_div_pos.mpr ht)]
    _ ≤ 1 / t * (M / 2 * length (t • v) ^ 2) :=
        mul_le_mul_of_nonneg_left (h (t • v)) (one_div_pos.mpr ht).le
    _ = M / 2 * (t * length v) * length v := by
        rw [length_smul, abs_of_pos ht]
        field_simp

/-- The forward difference misses the linear map by no more than the allowed error. -/
theorem LinearNear.exists_forwardDifference_near (hA : LinearNear G A a M)
    (h : Grades gradient G) (v : Fin n → ℝ) :
    ∃ d, (forwardDifference gradient (vec a) (vec v).toArray).run.result = .ok (vec d).toArray ∧
      length (d - A v) ≤ differenceError M a v := by
  rw [differenceError_eq]
  by_cases hv : v = 0
  · subst hv
    refine ⟨0, forwardDifference_zero gradient a, ?_⟩
    rw [map_zero, sub_zero, length_eq_zero_iff.mpr rfl, mul_zero]
  · have hpos := length_pos_iff.mpr hv
    refine ⟨_, h.forwardDifference_vec a hv, ?_⟩
    have hquotient := hA.length_quotient_sub_le v (div_pos (shiftLength_pos a) hpos)
    rwa [div_mul_cancel₀ _ hpos.ne'] at hquotient

theorem linearNear_affine (A : (Fin n → ℝ) →ₗ[ℝ] (Fin n → ℝ)) (b a : Fin n → ℝ) :
    LinearNear (fun c => A c + b) A a 0 := by
  intro w
  show length (A (a + w) + b - (A a + b) - A w) ≤ 0 / 2 * length w ^ 2
  rw [map_add, add_sub_add_right_eq_sub, add_sub_cancel_left, sub_self,
    length_eq_zero_iff.mpr rfl, zero_div, zero_mul]

/-- There is no error where the gradient is affine. -/
theorem Grades.forwardDifference_affine {b : Fin n → ℝ}
    (h : Grades gradient fun c => A c + b) (a v : Fin n → ℝ) :
    (forwardDifference gradient (vec a) (vec v).toArray).run.result = .ok (vec (A v)).toArray := by
  obtain ⟨d, hd, herror⟩ := (linearNear_affine A b a).exists_forwardDifference_near h v
  rw [differenceError, zero_div, zero_mul, zero_mul, zero_mul] at herror
  have hzero := length_eq_zero_iff.mp (le_antisymm herror (length_nonneg _))
  rwa [sub_eq_zero.mp hzero] at hd

end

/-! ## The curvatures of the barrier -/

namespace Interval

variable {I : Interval Exact} {r : ℝ}

/-- Only an interval with its infinite ends on their sides has real numbers inside. -/
theorem Interior.regular (h : I.Interior (real r)) : I.Regular := by
  obtain ⟨l, u⟩ := I
  by_cases hfixed : l = u
  · subst hfixed
    obtain rfl : real r = l := h.fixed rfl
    exact .between le_rfl
  · obtain ⟨hlow, hhigh⟩ := h.between hfixed
    cases l with
    | nan => exact hlow.elim
    | posInf => exact hlow.elim
    | negInf =>
      cases u with
      | nan => exact hhigh.elim
      | negInf => exact hhigh.elim
      | real u => exact .below u
      | posInf => exact .free
    | real l =>
      cases u with
      | nan => exact hhigh.elim
      | negInf => exact hhigh.elim
      | real u => exact .between ((real_lt_real.mp hlow).trans (real_lt_real.mp hhigh)).le
      | posInf => exact .above l

/-- The damping bends no term. -/
theorem barrierCurvature_congr {α : Type} [Scalar α] (k k' : α) (I : Interval α) (x : α) :
    I.barrierCurvature k x = I.barrierCurvature k' x := by
  unfold barrierCurvature barrier?
  dsimp only
  split_ifs <;> rfl

end Interval

namespace Box

variable {B : Box Exact n}

/-- The second derivatives of the barrier at `a`. -/
noncomputable def realCurvatures (B : Box Exact n) (a : Fin n → ℝ) (i : Fin n) : ℝ :=
  (B.realTerm 0 a i).curvature

theorem Interior.barrierCurvatures_vec (h : B.Interior (vec a)) (k : Exact) :
    B.barrierCurvatures k (vec a) = vec (B.realCurvatures a) := by
  have hB : B.Regular := fun i => by
    have hi := h i
    rw [get_vec] at hi
    exact hi.regular
  have hcongr : B.barrierCurvatures k (vec a) = B.barrierCurvatures (real 0) (vec a) := by
    unfold barrierCurvatures
    congr 1
    funext I x
    exact I.barrierCurvature_congr k (real 0) x
  exact hcongr.trans (hB.barrierCurvatures_vec h)

end Box

/-! ## Both kinds of objectives -/

/-- For every gradient that is linear up to a remainder of the second order, the forward difference
is as near to the linear map as its step is short, for every direction and without an error where
the gradient is affine. An augmented objective whose caller has no exact product adds the curvatures
of the barrier to it, and no error, at every interior point. -/
theorem differences_near_linear (A : (Fin n → ℝ) →ₗ[ℝ] (Fin n → ℝ)) (a v : Fin n → ℝ) :
    (∀ gradient G M, Grades gradient G → LinearNear G A a M →
      ∃ d, (forwardDifference gradient (vec a) (vec v).toArray).run.result = .ok (vec d).toArray ∧
        length (d - A v) ≤ differenceError M a v) ∧
    (∀ gradient b, (Grades gradient fun c => A c + b) →
      (forwardDifference gradient (vec a) (vec v).toArray).run.result = .ok (vec (A v)).toArray) ∧
    ∀ (F : Augmented Exact n) G M μ, F.objective.product? = none →
      Grades F.objective.gradientAt G → LinearNear G A a M → F.mu = real μ →
      F.box.Interior (vec a) →
      ∃ d, (F.product (vec a) (vec v).toArray).run.result = .ok (vec d).toArray ∧
        F.barrierCurvatures (vec a) = vec (F.box.realCurvatures a) ∧
        length (d - (A v + μ • (F.box.realCurvatures a * v))) ≤ differenceError M a v := by
  refine ⟨fun gradient G M h hA => hA.exists_forwardDifference_near h v,
    fun gradient b h => h.forwardDifference_affine a v, ?_⟩
  intro F G M μ hproduct h hA hmu ha
  obtain ⟨d, hd, herror⟩ := hA.exists_forwardDifference_near h v
  have hcurvatures := ha.barrierCurvatures_vec F.activeKappa
  have hcaller : (F.objective.productAt (vec a) (vec v).toArray).run.result =
      .ok (vec d).toArray := by
    unfold Objective.productAt
    rwa [hproduct]
  refine ⟨_, Augmented.product_of_productAt hmu hcurvatures hcaller, hcurvatures, ?_⟩
  rwa [add_sub_add_right_eq_sub]

/-! ## A cube beside a bound -/

/-- A third of the sum of the cubes of the coordinates. -/
noncomputable def Objective.cubes : Objective Exact where
  value x := real (1 / (3 : ℕ)) * dot (x.toVector.zipWith (· * ·) x.toVector) x.toVector
  gradient x := (x.toVector.zipWith (· * ·) x.toVector).toArray
  product? := none

namespace Objective

theorem grades_cubes : Grades (cubes.gradientAt (n := n)) fun c => c * c := by
  intro c
  have hsquare (x : Vector Exact n) :
      cubes.gradient x.toArray = (x.zipWith (· * ·) x).toArray := by
    obtain ⟨xs, rfl⟩ := x
    rfl
  refine congrArg Except.ok ((hsquare (vec c)).trans ?_)
  rw [zipWith_mul_vec]

theorem grades_squares : Grades (squares.gradientAt (n := n)) fun c => (2 : ℝ) • c :=
  gradient_squares

end Objective

theorem linearNear_cube (a : Fin 1 → ℝ) :
    LinearNear (fun c => c * c) ((2 : ℝ) • LinearMap.mulLeft ℝ a) a 2 := by
  intro w
  have hremainder : (a + w) * (a + w) - a * a - (2 : ℝ) • (a * w) = w * w := by
    rw [two_smul]
    ring
  have hlength : length (w * w) = w ⬝ᵥ w := by
    refine length_eq (dotProduct_self_nonneg w) ?_
    simp only [dotProduct, Fin.sum_univ_one, Pi.mul_apply]
    ring
  show length ((a + w) * (a + w) - a * a - (2 : ℝ) • (a * w)) ≤ _
  rw [hremainder, hlength, sq_length, Nat.cast_ofNat, div_self two_ne_zero, one_mul]

/-- The second point at which the gradient is asked lies outside of the box. -/
theorem differences_near_linear_cube :
    let F : Augmented Exact 1 := .start .cubes (.atLeast (vec ![0])) (real 0.1) (real 1e-4) true
    let a : Fin 1 → ℝ := ![1e-20]
    let v : Fin 1 → ℝ := ![-1]
    let G : (Fin 1 → ℝ) → Fin 1 → ℝ := fun c => c * c
    let A := (2 : ℝ) • LinearMap.mulLeft ℝ a
    F.objective.product? = none ∧ Grades F.objective.gradientAt G ∧ LinearNear G A a 2 ∧
      F.mu = real 0.1 ∧ F.box.Interior (vec a) ∧
      ¬ F.box.Interior (vec (a + (shiftLength a / length v) • v)) ∧
      (∃ d, (forwardDifference F.objective.gradientAt (vec a) (vec v).toArray).run.result =
        .ok (vec d).toArray ∧ length (d - A v) ≤ differenceError 2 a v) ∧
      (forwardDifference Objective.squares.gradientAt (vec a) (vec v).toArray).run.result =
        .ok (vec ((2 : ℝ) • v)).toArray ∧
      ∃ d, (F.product (vec a) (vec v).toArray).run.result = .ok (vec d).toArray ∧
        F.barrierCurvatures (vec a) = vec (F.box.realCurvatures a) ∧
        length (d - (A v + (0.1 : ℝ) • (F.box.realCurvatures a * v))) ≤
          differenceError 2 a v := by
  intro F a v G A
  have hside : F.box.side 0 = ⟨real 0, posInf⟩ := by
    show (Box.between _ _).side 0 = _
    rw [Box.side_between, get_vec]
    rfl
  have ha : F.box.Interior (vec a) := by
    intro i
    fin_cases i
    show (F.box.side 0).Interior ((vec a).get 0)
    rw [hside, get_vec]
    exact ⟨fun _ => ⟨by norm_num [a], trivial⟩, nofun⟩
  have hlength : length v = 1 := length_eq zero_le_one (by simp [v, dotProduct])
  have hshift : (1e-20 : ℝ) < shiftLength a := by
    have hroot : (1e-20 : ℝ) < Real.sqrt (2 ^ (-52 : ℤ)) :=
      (Real.lt_sqrt (by norm_num)).mpr (by norm_num)
    exact hroot.trans_le (le_mul_of_one_le_right (Real.sqrt_nonneg _) (le_max_left _ _))
  have houtside : ¬ F.box.Interior (vec (a + (shiftLength a / length v) • v)) := by
    intro h
    have hin := h 0
    rw [hside, get_vec, hlength, div_one] at hin
    have hpos : (0 : ℝ) < 1e-20 + shiftLength a * -1 := real_lt_real.mp (hin.between nofun).1
    linarith
  have hlinear := linearNear_cube a
  have hsquares : Grades Objective.squares.gradientAt
      fun c : Fin 1 → ℝ => ((2 : ℝ) • LinearMap.id : (Fin 1 → ℝ) →ₗ[ℝ] (Fin 1 → ℝ)) c + 0 := by
    intro c
    show _ = Except.ok (vec ((2 : ℝ) • c + 0)).toArray
    rw [add_zero]
    exact Objective.grades_squares c
  obtain ⟨hdifference, -, hproduct⟩ := differences_near_linear A a v
  exact ⟨rfl, Objective.grades_cubes, hlinear, rfl, ha, houtside,
    hdifference _ _ _ Objective.grades_cubes hlinear,
    (differences_near_linear _ a v).2.1 _ 0 hsquares,
    hproduct F _ 2 0.1 rfl Objective.grades_cubes hlinear rfl ha⟩

end LogBarrier

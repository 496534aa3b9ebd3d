import LogBarrier.Augmented
import LogBarrier.Proofs.Interior
import Mathlib.Algebra.BigOperators.Fin

/-!
# The barrier over the real numbers

At an interior point nothing that the barrier computes leaves the real numbers. Its terms have
closed forms, one for each way in which an interval can be bounded, and the augmented objective adds
them up coordinate by coordinate.
-/

namespace LogBarrier

open Scalar Exact

variable {n : ℕ}

/-! ## One variable -/

namespace Interval

/-- The term of an interval with the given ends at `r`, for `r` inside. The coefficient `κ` counts
where one end is finite. -/
noncomputable def realTerm (κ : ℝ) (I : Interval Exact) (r : ℝ) : BarrierTerm ℝ :=
  match I.lower, I.upper with
  | .real l, .real u =>
    if l = u then ⟨0, 0, 0⟩
    else ⟨-Real.log (r - l) - Real.log (u - r), -1 / (r - l) + 1 / (u - r),
      1 / ((r - l) * (r - l)) + 1 / ((u - r) * (u - r))⟩
  | .real l, _ => ⟨-Real.log (r - l) + κ * (r - l), -1 / (r - l) + κ, 1 / ((r - l) * (r - l))⟩
  | _, .real u => ⟨-Real.log (u - r) + κ * (u - r), 1 / (u - r) - κ, 1 / ((u - r) * (u - r))⟩
  | _, _ => ⟨0, 0, 0⟩

variable {I : Interval Exact} {κ l u r : ℝ}

theorem Interior.pos_of_between (h : (⟨real l, real u⟩ : Interval Exact).Interior (real r))
    (hne : l ≠ u) : 0 < r - l ∧ 0 < u - r := by
  obtain ⟨hlow, hhigh⟩ := h.between fun heq => hne (Exact.real.inj heq)
  exact ⟨sub_pos.mpr hlow, sub_pos.mpr hhigh⟩

/-- Inside the interval, its barrier term is the closed form. -/
theorem Regular.barrier?_real (hI : I.Regular) (h : I.Interior (real r)) :
    I.barrier? (real κ) (real r) =
      some ⟨real (I.realTerm κ r).value, real (I.realTerm κ r).slope,
        real (I.realTerm κ r).curvature⟩ := by
  unfold barrier?
  cases hI with
  | free =>
    rw [if_neg fun hfixed => hfixed.2.elim]
    dsimp only
    rw [if_neg not_isFinite_negInf, if_neg not_isFinite_posInf]
    rfl
  | above l =>
    have hpos : 0 < r - l := sub_pos.mpr (h.between nofun).1
    rw [if_neg fun hfixed => hfixed.2.elim]
    dsimp only
    rw [if_pos (isFinite_real l), if_neg not_isFinite_posInf, real_sub_real,
      if_pos (zero_lt_real.mpr hpos), log_real hpos, one_eq, neg_real, neg_real, real_mul_real,
      real_mul_real, real_div_real _ hpos.ne', real_div_real _ (mul_pos hpos hpos).ne']
    rfl
  | below u =>
    have hpos : 0 < u - r := sub_pos.mpr (h.between nofun).2
    rw [if_neg fun hfixed => hfixed.2.elim]
    dsimp only
    rw [if_neg not_isFinite_negInf, if_pos (isFinite_real u), real_sub_real,
      if_pos (zero_lt_real.mpr hpos), log_real hpos, one_eq, neg_real, real_mul_real,
      real_mul_real, real_div_real _ hpos.ne', real_div_real _ (mul_pos hpos hpos).ne',
      real_sub_real]
    rfl
  | @between l u hle =>
    unfold realTerm
    dsimp only
    by_cases hfixed : l = u
    · subst hfixed
      have hr : real r = real l := h.fixed rfl
      rw [if_pos ⟨real_le_real.mpr le_rfl, real_le_real.mpr le_rfl⟩, hr,
        if_pos ⟨real_le_real.mpr le_rfl, real_le_real.mpr le_rfl⟩, if_pos rfl]
      rfl
    · obtain ⟨hlow, hhigh⟩ := h.pos_of_between hfixed
      rw [if_neg fun hsame => hfixed (le_antisymm hsame.1 hsame.2), if_pos (isFinite_real l),
        if_pos (isFinite_real u), real_sub_real, real_sub_real,
        if_pos ⟨zero_lt_real.mpr hlow, zero_lt_real.mpr hhigh⟩, log_real hlow, log_real hhigh,
        one_eq, neg_real, neg_real, real_sub_real, real_mul_real, real_mul_real,
        real_div_real _ hlow.ne', real_div_real _ hhigh.ne',
        real_div_real _ (mul_pos hlow hlow).ne', real_div_real _ (mul_pos hhigh hhigh).ne',
        if_neg hfixed]
      rfl

end Interval

/-! ## The box -/

namespace Box

variable {B : Box Exact n} {κ : ℝ} {a : Fin n → ℝ}

/-- The barrier term of variable `i` at the point `a`. -/
noncomputable def realTerm (κ : ℝ) (B : Box Exact n) (a : Fin n → ℝ) (i : Fin n) : BarrierTerm ℝ :=
  (B.side i).realTerm κ (a i)

theorem Regular.side_barrier?_vec (hB : B.Regular) (ha : B.Interior (vec a)) (i : Fin n) :
    (B.side i).barrier? (real κ) ((vec a).get i) =
      some ⟨real (B.realTerm κ a i).value, real (B.realTerm κ a i).slope,
        real (B.realTerm κ a i).curvature⟩ := by
  have hi := ha i
  rw [get_vec] at hi ⊢
  exact (hB i).barrier?_real hi

theorem Regular.barrier_vec (hB : B.Regular) (ha : B.Interior (vec a)) :
    B.barrier (real κ) (vec a) = real (∑ i, (B.realTerm κ a i).value) := by
  have hfold (l : List (Fin n)) (c : ℝ) :
      l.foldlM (fun total i => ((B.side i).barrier? (real κ) ((vec a).get i)).map fun t =>
        total + t.value) (real c) =
      some (real (c + (l.map fun i => (B.realTerm κ a i).value).sum)) := by
    induction l generalizing c with
    | nil => rw [List.foldlM_nil, List.map_nil, List.sum_nil, add_zero]; rfl
    | cons i l ih =>
      rw [List.foldlM_cons, hB.side_barrier?_vec ha i]
      refine (ih (c + (B.realTerm κ a i).value)).trans ?_
      rw [List.map_cons, List.sum_cons, add_assoc]
  unfold barrier barrier?
  rw [zero_eq, hfold, zero_add, ← Fin.sum_univ_def]
  rfl

theorem Regular.barrierSlopes_vec (hB : B.Regular) (ha : B.Interior (vec a)) :
    B.barrierSlopes (real κ) (vec a) = vec fun i => (B.realTerm κ a i).slope := by
  refine eq_vec_iff.mpr fun i => (Vector.getElem_zipWith i.isLt).trans ?_
  show (B.side i).barrierSlope (real κ) ((vec a).get i) = _
  rw [Interval.barrierSlope, hB.side_barrier?_vec ha i]

theorem Regular.barrierCurvatures_vec (hB : B.Regular) (ha : B.Interior (vec a)) :
    B.barrierCurvatures (real κ) (vec a) = vec fun i => (B.realTerm κ a i).curvature := by
  refine eq_vec_iff.mpr fun i => (Vector.getElem_zipWith i.isLt).trans ?_
  show (B.side i).barrierCurvature (real κ) ((vec a).get i) = _
  rw [Interval.barrierCurvature, hB.side_barrier?_vec ha i]

end Box

/-! ## The augmented objective -/

namespace Augmented

/-- The coefficients of an augmented objective are the real numbers `μ` and `κ`, the latter after it
has been decided whether there is damping. -/
structure RealCoefficients (A : Augmented Exact n) (μ κ : ℝ) : Prop where
  mu : A.mu = real μ
  kappa : A.activeKappa = real κ

variable {A : Augmented Exact n} {μ κ r : ℝ} {a b v : Fin n → ℝ}

theorem exists_activeKappa {κ : ℝ} (h : A.kappa = real κ) : ∃ κ', A.activeKappa = real κ' := by
  unfold activeKappa
  rw [h]
  cases A.damping with
  | true => exact ⟨κ, rfl⟩
  | false => exact ⟨0, rfl⟩

theorem RealCoefficients.value_vec (h : A.RealCoefficients μ κ) (hB : A.box.Regular)
    (ha : A.box.Interior (vec a)) (hvalue : A.objective.value (vec a).toArray = real r) :
    (A.value (vec a)).result = real (r + μ * ∑ i, (A.box.realTerm κ a i).value) := by
  have hbarrier : A.barrier (vec a) = real (∑ i, (A.box.realTerm κ a i).value) := by
    rw [barrier, h.kappa, hB.barrier_vec ha]
  unfold value
  dsimp only
  rw [hbarrier, if_neg fun hsame => hsame.2.elim, Metered.result_bind, result_plainValue, hvalue,
    h.mu, Metered.result_pure, real_mul_real, real_add_real]

theorem RealCoefficients.gradient_vec (h : A.RealCoefficients μ κ) (hB : A.box.Regular)
    (ha : A.box.Interior (vec a))
    (hgradient : A.objective.gradient (vec a).toArray = (vec b).toArray) :
    (A.gradient (vec a)).run.result =
      .ok (vec (b + μ • fun i => (A.box.realTerm κ a i).slope)).toArray := by
  have hslopes : A.barrierSlopes (vec a) = vec fun i => (A.box.realTerm κ a i).slope := by
    rw [barrierSlopes, h.kappa, hB.barrierSlopes_vec ha]
  refine Trying.bind_eq_ok_iff.mpr ⟨_, congrArg Except.ok hgradient, ?_⟩
  rw [sized_toArray, Trying.of_ok, pure_bind, Trying.result_pure, hslopes, h.mu, real_mul_vec,
    vec_add_vec]

theorem product_of_productAt {c : Fin n → ℝ} (hmu : A.mu = real μ)
    (hcurvatures : A.barrierCurvatures (vec a) = vec c)
    (hproduct : (A.objective.productAt (vec a) (vec v).toArray).run.result =
      .ok (vec b).toArray) :
    (A.product (vec a) (vec v).toArray).run.result = .ok (vec (b + μ • (c * v))).toArray := by
  refine Trying.bind_eq_ok_iff.mpr ⟨_, hproduct, ?_⟩
  rw [sized_toArray, sized_toArray, Trying.of_ok, Trying.of_ok, pure_bind, pure_bind,
    Trying.result_pure, hcurvatures, hmu, zipWith_mul_vec, real_mul_vec, vec_add_vec]

theorem RealCoefficients.product_vec (h : A.RealCoefficients μ κ) (hB : A.box.Regular)
    (ha : A.box.Interior (vec a)) {p : Array Exact → Array Exact → Array Exact}
    (hexact : A.objective.product? = some p)
    (hp : p (vec a).toArray (vec v).toArray = (vec b).toArray) :
    (A.product (vec a) (vec v).toArray).run.result =
      .ok (vec (b + μ • ((fun i => (A.box.realTerm κ a i).curvature) * v))).toArray := by
  refine product_of_productAt h.mu ?_ ?_
  · rw [barrierCurvatures, h.kappa, hB.barrierCurvatures_vec ha]
  · unfold Objective.productAt
    rw [hexact]
    exact congrArg Except.ok hp

end Augmented

end LogBarrier

import LogBarrier.Exact.Vector
import LogBarrier.Proofs.Interior
import LogBarrier.Proofs.Numbers
import Mathlib.Data.List.TFAE

/-!
# The nearest point of a box

The projection of a real point, and the step from a point of the box to the projection of a gradient
step. Both are known by one inequality: what the projection takes away points away from every point
of the box. The step is downhill, it is zero at the same points for every length, and its own length
follows that of the gradient step in proportion at least.
-/

namespace LogBarrier

open Scalar Exact

variable {n : ℕ}

/-! ## Clamping -/

namespace Interval

variable {I : Interval Exact}

/-- What clamping takes away points away from every number of the interval. -/
theorem Regular.clamp_obtuse (hI : I.Regular) {r q c : ℝ}
    (hq : I.clamp (real r) = real q) (hc : I.Contains (real c)) : (r - q) * (c - q) ≤ 0 := by
  have hlow {l : ℝ} (hl : l ≤ c) : (r - max l r) * (c - max l r) ≤ 0 := by
    rcases le_total l r with h | h
    · rw [max_eq_right h, sub_self, zero_mul]
    · rw [max_eq_left h]
      exact mul_nonpos_of_nonpos_of_nonneg (sub_nonpos.mpr h) (sub_nonneg.mpr hl)
  have hhigh {u : ℝ} (hu : c ≤ u) : (r - min u r) * (c - min u r) ≤ 0 := by
    rcases le_total r u with h | h
    · rw [min_eq_right h, sub_self, zero_mul]
    · rw [min_eq_left h]
      exact mul_nonpos_of_nonneg_of_nonpos (sub_nonneg.mpr h) (sub_nonpos.mpr hu)
  unfold clamp at hq
  cases hI with
  | free =>
    rw [raise_negInf, cut_posInf] at hq
    cases hq
    rw [sub_self, zero_mul]
  | above l =>
    rw [raise_real, cut_posInf] at hq
    cases hq
    exact hlow hc.1
  | below u =>
    rw [raise_negInf, cut_real] at hq
    cases hq
    exact hhigh hc.2
  | @between l u hle =>
    rw [raise_real, cut_real] at hq
    cases hq
    -- At most one of the two ends is in the way.
    rcases le_total (max l r) u with h | h
    · rw [min_eq_right h]
      exact hlow hc.1
    · rcases le_total l r with hr | hr
      · rw [max_eq_right hr]
        exact hhigh hc.2
      · have hl : l = u := le_antisymm hle (by rwa [max_eq_left hr] at h)
        have hcu : c = u := le_antisymm hc.2 (hl ▸ hc.1)
        rw [min_eq_left h, hcu, sub_self, mul_zero]

/-- A number stays where it is if it is at the end that it is pushed to. -/
theorem Regular.clamp_sub_eq_iff (hI : I.Regular) {r s : ℝ} (hr : I.Contains (real r)) :
    I.clamp (real (r - s)) = real r ↔
      s = 0 ∨ (real r = I.lower ∧ 0 < s) ∨ (real r = I.upper ∧ s < 0) := by
  unfold clamp
  cases hI with
  | free =>
    rw [raise_negInf, cut_posInf, Exact.real.injEq, sub_eq_self]
    simp
  | above l =>
    have hl : l ≤ r := hr.1
    rw [raise_real, cut_posInf, Exact.real.injEq, Exact.real.injEq]
    grind
  | below u =>
    have hu : r ≤ u := hr.2
    rw [raise_negInf, cut_real, Exact.real.injEq, Exact.real.injEq]
    grind
  | @between l u hle =>
    have hl : l ≤ r := hr.1
    have hu : r ≤ u := hr.2
    rw [raise_real, cut_real, Exact.real.injEq, Exact.real.injEq, Exact.real.injEq]
    grind

/-- With two numbers the interval contains those between them. -/
theorem contains_segment {r c s : ℝ} (hr : I.Contains (real r)) (hc : I.Contains (real c))
    (hs : 0 ≤ s) (hs1 : s ≤ 1) : I.Contains (real (r + s * (c - r))) := by
  have hbetween : min r c ≤ r + s * (c - r) ∧ r + s * (c - r) ≤ max r c := by
    rcases le_total r c with h | h
    · rw [min_eq_left h, max_eq_right h]
      constructor <;> nlinarith
    · rw [min_eq_right h, max_eq_left h]
      constructor <;> nlinarith
  constructor
  · refine Exact.le_trans ?_ (real_le_real.mpr hbetween.1)
    rcases min_choice r c with h | h
    · rw [h]
      exact hr.1
    · rw [h]
      exact hc.1
  · refine Exact.le_trans (real_le_real.mpr hbetween.2) ?_
    rcases max_choice r c with h | h
    · rw [h]
      exact hr.2
    · rw [h]
      exact hc.2

end Interval

/-! ## Lengths -/

namespace Exact

variable {a b : Fin n → ℝ}

theorem allNumbers_vec (a : Fin n → ℝ) : AllNumbers (vec a) := by
  intro i
  rw [get_vec]
  exact real_le_real.mpr le_rfl

theorem dotProduct_le (a b : Fin n → ℝ) : a ⬝ᵥ b ≤ length a * length b := by
  have hcauchy := Real.sum_mul_le_sqrt_mul_sqrt Finset.univ a b
  simp only [sq] at hcauchy
  exact hcauchy

theorem sq_length (a : Fin n → ℝ) : length a ^ 2 = a ⬝ᵥ a :=
  Real.sq_sqrt (dotProduct_self_nonneg a)

theorem length_eq_zero_iff : length a = 0 ↔ a = 0 := by
  rw [length, Real.sqrt_eq_zero (dotProduct_self_nonneg a)]
  exact dotProduct_self_eq_zero

theorem length_pos_iff : 0 < length a ↔ a ≠ 0 := by
  rw [Ne, ← length_eq_zero_iff]
  exact (length_nonneg a).lt_iff_ne.trans ne_comm

/-- The real number that a finite scalar is. -/
def toReal : Exact → ℝ
  | real r => r
  | _ => 0

end Exact

/-! ## Projection -/

namespace Box

variable {B : Box Exact n} {a b c : Fin n → ℝ} {s t : ℝ}

theorem Regular.feasible_project (hB : B.Regular) (a : Fin n → ℝ) :
    B.Feasible (B.project (vec a)) :=
  Box.feasible_project hB.not_isEmpty (allNumbers_vec a)

theorem Regular.exists_project (hB : B.Regular) (a : Fin n → ℝ) :
    ∃ p, B.project (vec a) = vec p :=
  allFinite_iff.mp (hB.allFinite_project (allFinite_vec a))

theorem Regular.project_obtuse (hB : B.Regular) {d p c : Fin n → ℝ}
    (hp : B.project (vec d) = vec p) (hc : B.Feasible (vec c)) : (d - p) ⬝ᵥ (c - p) ≤ 0 := by
  refine Finset.sum_nonpos fun i _ => ?_
  refine (hB i).clamp_obtuse ?_ ?_
  · rw [← get_vec d, ← get_project, hp, get_vec]
  · have hi := hc i
    rwa [get_vec] at hi

/-- The real point to which `a` is projected. -/
noncomputable def nearest (B : Box Exact n) (a : Fin n → ℝ) : Fin n → ℝ :=
  fun i => ((B.project (vec a)).get i).toReal

theorem Regular.project_vec (hB : B.Regular) (a : Fin n → ℝ) :
    B.project (vec a) = vec (B.nearest a) := by
  obtain ⟨p, hp⟩ := hB.exists_project a
  refine hp.trans (congrArg vec (funext fun i => ?_))
  rw [nearest, hp, get_vec]
  rfl

/-- The nearest point is found coordinate by coordinate. -/
theorem Regular.clamp_eq_nearest (hB : B.Regular) (a : Fin n → ℝ) (i : Fin n) :
    (B.side i).clamp (real (a i)) = real (B.nearest a i) := by
  rw [← get_vec (B.nearest a) i, ← hB.project_vec, get_project, get_vec]

theorem Regular.feasible_nearest (hB : B.Regular) (a : Fin n → ℝ) :
    B.Feasible (vec (B.nearest a)) := by
  rw [← hB.project_vec]
  exact hB.feasible_project a

theorem Regular.nearest_of_feasible (hB : B.Regular) (ha : B.Feasible (vec a)) :
    B.nearest a = a := by
  refine vec_injective ((hB.project_vec a).symm.trans (ext_get fun i => ?_))
  rw [get_project]
  exact Interval.clamp_of_contains (ha i)

theorem feasible_segment (ha : B.Feasible (vec a)) (hc : B.Feasible (vec c)) (hs : 0 ≤ s)
    (hs1 : s ≤ 1) : B.Feasible (vec (a + s • (c - a))) := by
  intro i
  have hi := ha i
  have hi' := hc i
  rw [get_vec] at hi hi' ⊢
  exact Interval.contains_segment hi hi' hs hs1

/-! ## Gradient steps -/

/-- The step from `a` to the projection of the gradient step of length `t`, where the gradient is
`b`. -/
noncomputable def step (B : Box Exact n) (a b : Fin n → ℝ) (t : ℝ) : Fin n → ℝ :=
  B.nearest (a - t • b) - a

theorem Regular.project_sub_vec (hB : B.Regular) (a b : Fin n → ℝ) (t : ℝ) :
    B.project (vec a - real t * vec b) - vec a = vec (B.step a b t) := by
  rw [real_mul_vec, vec_sub_vec, hB.project_vec, vec_sub_vec]
  rfl

theorem Regular.residual_vec (hB : B.Regular) (a b : Fin n → ℝ) :
    B.residual (vec a) (vec b) = vec (B.step a b 1) := by
  rw [residual, vec_sub_vec, hB.project_vec, vec_sub_vec, step, one_smul]

theorem add_step (B : Box Exact n) (a b : Fin n → ℝ) (t : ℝ) :
    a + B.step a b t = B.nearest (a - t • b) :=
  add_sub_cancel ..

theorem Regular.feasible_add_step (hB : B.Regular) (a b : Fin n → ℝ) (t : ℝ) :
    B.Feasible (vec (a + B.step a b t)) := by
  rw [add_step]
  exact hB.feasible_nearest _

/-- All that is needed of the projection, seen from `a`. -/
theorem Regular.step_obtuse (hB : B.Regular) (t : ℝ) (hc : B.Feasible (vec (a + c))) :
    (t • b + B.step a b t) ⬝ᵥ (B.step a b t - c) ≤ 0 := by
  have h := hB.project_obtuse (hB.project_vec (a - t • b)) hc
  have hleft : a - t • b - B.nearest (a - t • b) = -(t • b + B.step a b t) := by
    rw [step]
    abel
  have hright : a + c - B.nearest (a - t • b) = -(B.step a b t - c) := by
    rw [step]
    abel
  rwa [hleft, hright, neg_dotProduct_neg] at h

/-- The step is downhill. -/
theorem Regular.step_descends (hB : B.Regular) (ha : B.Feasible (vec a)) (b : Fin n → ℝ) (t : ℝ) :
    t * (b ⬝ᵥ B.step a b t) ≤ -(B.step a b t ⬝ᵥ B.step a b t) := by
  have h := hB.step_obtuse (b := b) (c := 0) t ((add_zero a).symm ▸ ha)
  rw [sub_zero, add_dotProduct, smul_dotProduct, smul_eq_mul] at h
  linarith

/-- There is no step exactly where the gradient leads uphill everywhere in the box, which is the
same for all lengths. -/
theorem Regular.step_eq_zero_iff (hB : B.Regular) (ha : B.Feasible (vec a)) (ht : 0 < t) :
    B.step a b t = 0 ↔ ∀ c, B.Feasible (vec c) → 0 ≤ b ⬝ᵥ (c - a) := by
  constructor
  · intro h c hc
    have hobtuse := hB.step_obtuse (b := b) (c := c - a) t ((add_sub_cancel a c).symm ▸ hc)
    rw [h, add_zero, zero_sub, dotProduct_neg, smul_dotProduct, smul_eq_mul, neg_nonpos] at hobtuse
    exact nonneg_of_mul_nonneg_right hobtuse ht
  · intro h
    have hup := h _ (hB.feasible_add_step a b t)
    rw [add_sub_cancel_left] at hup
    have hdown := hB.step_descends ha b t
    have hzero : B.step a b t ⬝ᵥ B.step a b t ≤ 0 := by
      have := mul_nonneg ht.le hup
      linarith
    exact dotProduct_self_eq_zero.mp (le_antisymm hzero (dotProduct_self_nonneg _))

theorem Regular.step_eq_zero_iff_of_pos (hB : B.Regular) (ha : B.Feasible (vec a)) (hs : 0 < s)
    (ht : 0 < t) : B.step a b s = 0 ↔ B.step a b t = 0 :=
  (hB.step_eq_zero_iff ha hs).trans (hB.step_eq_zero_iff ha ht).symm

/-- The gradient step of length one stays put coordinate by coordinate. -/
theorem Regular.step_one_eq_zero_iff (hB : B.Regular) (ha : B.Feasible (vec a)) :
    B.step a b 1 = 0 ↔ ∀ i, b i = 0 ∨ (real (a i) = (B.side i).lower ∧ 0 < b i) ∨
      (real (a i) = (B.side i).upper ∧ b i < 0) := by
  rw [step, one_smul, sub_eq_zero, ← vec_injective.eq_iff, ← hB.project_vec]
  refine eq_vec_iff.trans (forall_congr' fun i => ?_)
  have hi := ha i
  rw [get_vec] at hi
  rw [get_project, get_vec]
  exact (hB i).clamp_sub_eq_iff hi

/-- A longer gradient step makes the step no shorter, and a shorter one shortens it in proportion at
most. -/
theorem Regular.min_mul_length_le (hB : B.Regular) (ht : 0 < t) (a b : Fin n → ℝ) :
    min 1 t * length (B.step a b 1) ≤ length (B.step a b t) := by
  set d := B.step a b 1 with hd
  set e := B.step a b t with he
  have hone : (b + d) ⬝ᵥ (d - e) ≤ 0 := by
    have h := hB.step_obtuse (b := b) 1 (hB.feasible_add_step a b t)
    rwa [one_smul] at h
  have hlong : (t • b + e) ⬝ᵥ (e - d) ≤ 0 := hB.step_obtuse t (hB.feasible_add_step a b 1)
  -- The two inequalities together leave no room outside the lengths between `d` and `t • d`.
  have hsum : e ⬝ᵥ e - (1 + t) * (d ⬝ᵥ e) + t * (d ⬝ᵥ d) =
      t * ((b + d) ⬝ᵥ (d - e)) + (t • b + e) ⬝ᵥ (e - d) := by
    simp only [add_dotProduct, dotProduct_sub, smul_dotProduct, smul_eq_mul]
    rw [dotProduct_comm e d]
    ring
  have hbetween : (length e - length d) * (length e - t * length d) ≤ 0 := by
    have hcauchy := mul_le_mul_of_nonneg_left (dotProduct_le d e) (by linarith : 0 ≤ 1 + t)
    have hle : e ⬝ᵥ e - (1 + t) * (d ⬝ᵥ e) + t * (d ⬝ᵥ d) ≤ 0 := by
      rw [hsum]
      exact add_nonpos (mul_nonpos_of_nonneg_of_nonpos ht.le hone) hlong
    rw [← sq_length, ← sq_length] at hle
    linarith
  by_contra hshort
  have hd_nonneg := length_nonneg d
  have hlt := not_le.mp hshort
  have hlt_one : length e < length d :=
    hlt.trans_le (mul_le_of_le_one_left hd_nonneg (min_le_left 1 t))
  have hlt_t : length e < t * length d :=
    hlt.trans_le (mul_le_mul_of_nonneg_right (min_le_right 1 t) hd_nonneg)
  exact hbetween.not_gt (mul_pos_of_neg_of_neg (sub_neg.mpr hlt_one) (sub_neg.mpr hlt_t))

end Box

end LogBarrier

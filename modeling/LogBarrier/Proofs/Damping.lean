import LogBarrier.Proofs.Outside
import Mathlib.Analysis.Convex.SpecificFunctions.Basic

/-!
# Linear damping

The logarithm of the distance to a single finite end grows without bound on the free side, and the
barrier falls. The linear term that damping adds there outgrows the logarithm, and their sum has a
least value. With damping the barrier of every box is convex and bounded below; without it the
barrier of a box with a one-sided variable has no lower bound. At interior points the two differ by
the damped distances and nothing else.
-/

namespace LogBarrier

open Scalar Exact

variable {n : ℕ}

/-! ## The logarithm -/

theorem neg_log_combine {t p q : ℝ} (ht : 0 ≤ t) (ht1 : t ≤ 1) (hp : 0 < p) (hq : 0 < q) :
    -Real.log (t * p + (1 - t) * q) ≤ t * -Real.log p + (1 - t) * -Real.log q := by
  have hconcave := strictConcaveOn_log_Ioi.concaveOn.2 hp hq ht (sub_nonneg.mpr ht1)
    (add_sub_cancel t 1)
  simp only [smul_eq_mul] at hconcave
  linarith

/-- Two distances with a given sum have the least sum of logarithms where they are equal. -/
theorem neg_two_log_le {p q : ℝ} (hp : 0 < p) (hq : 0 < q) :
    -2 * Real.log ((p + q) / 2) ≤ -Real.log p - Real.log q := by
  have hmiddle := neg_log_combine (t := 1 / 2) (by norm_num) (by norm_num) hp hq
  rw [show 1 / 2 * p + (1 - 1 / 2) * q = (p + q) / 2 by ring] at hmiddle
  linarith

/-- A linear term is least against the logarithm at the inverse of its coefficient. -/
theorem one_add_log_le {κ p : ℝ} (hκ : 0 < κ) (hp : 0 < p) :
    1 + Real.log κ ≤ -Real.log p + κ * p := by
  have htangent := Real.log_le_sub_one_of_pos (mul_pos hκ hp)
  rw [Real.log_mul hκ.ne' hp.ne'] at htangent
  linarith

/-! ## One variable -/

namespace Interval

/-- The distance of `r` to the only finite end, zero unless there is exactly one. -/
noncomputable def reach (I : Interval Exact) (r : ℝ) : ℝ :=
  match I.lower, I.upper with
  | .real _, .real _ => 0
  | .real l, _ => r - l
  | _, .real u => u - r
  | _, _ => 0

/-- The rate at which that distance grows. -/
noncomputable def growth (I : Interval Exact) : ℝ :=
  match I.lower, I.upper with
  | .real _, .real _ => 0
  | .real _, _ => 1
  | _, .real _ => -1
  | _, _ => 0

/-- A number that the barrier term does not fall below if its damping is `κ`. -/
noncomputable def leastTerm (κ : ℝ) (I : Interval Exact) : ℝ :=
  match I.lower, I.upper with
  | .real l, .real u => if l = u then 0 else -(2 : ℕ) * Real.log ((u - l) / (2 : ℕ))
  | .real _, _ => 1 + Real.log κ
  | _, .real _ => 1 + Real.log κ
  | _, _ => 0

variable {I : Interval Exact} {κ r s t c : ℝ}

theorem Interior.of_le_of_le (hr : I.Interior (real r)) (hs : I.Interior (real s)) (hrc : r ≤ c)
    (hcs : c ≤ s) : I.Interior (real c) where
  between hne := ⟨Exact.lt_of_lt_of_le (hr.between hne).1 hrc,
    Exact.lt_of_le_of_lt hcs (hs.between hne).2⟩
  fixed heq := by
    have hsame : r = s := Exact.real.inj ((hr.fixed heq).trans (hs.fixed heq).symm)
    rw [le_antisymm (hsame ▸ hcs) hrc]
    exact hr.fixed heq

theorem Interior.combine (hr : I.Interior (real r)) (hs : I.Interior (real s)) (ht : 0 ≤ t)
    (ht1 : t ≤ 1) : I.Interior (real (t * r + (1 - t) * s)) := by
  rcases le_total r s with h | h
  · exact hr.of_le_of_le hs (by nlinarith) (by nlinarith)
  · exact hs.of_le_of_le hr (by nlinarith) (by nlinarith)

theorem Regular.convex_value (hI : I.Regular) (hr : I.Interior (real r)) (hs : I.Interior (real s))
    (ht : 0 ≤ t) (ht1 : t ≤ 1) :
    (I.realTerm κ (t * r + (1 - t) * s)).value ≤
      t * (I.realTerm κ r).value + (1 - t) * (I.realTerm κ s).value := by
  have hzero : (0 : ℝ) ≤ t * 0 + (1 - t) * 0 := by rw [mul_zero, mul_zero, add_zero]
  -- The distances to the ends combine as the points do.
  have hfrom (l : ℝ) : t * r + (1 - t) * s - l = t * (r - l) + (1 - t) * (s - l) := by ring
  have hto (u : ℝ) : u - (t * r + (1 - t) * s) = t * (u - r) + (1 - t) * (u - s) := by ring
  cases hI with
  | free => exact hzero
  | above l =>
    have hlog := neg_log_combine ht ht1 (sub_pos.mpr (hr.between nofun).1)
      (sub_pos.mpr (hs.between nofun).1)
    show -Real.log (t * r + (1 - t) * s - l) + κ * (t * r + (1 - t) * s - l) ≤
      t * (-Real.log (r - l) + κ * (r - l)) + (1 - t) * (-Real.log (s - l) + κ * (s - l))
    rw [hfrom]
    linarith
  | below u =>
    have hlog := neg_log_combine ht ht1 (sub_pos.mpr (hr.between nofun).2)
      (sub_pos.mpr (hs.between nofun).2)
    show -Real.log (u - (t * r + (1 - t) * s)) + κ * (u - (t * r + (1 - t) * s)) ≤
      t * (-Real.log (u - r) + κ * (u - r)) + (1 - t) * (-Real.log (u - s) + κ * (u - s))
    rw [hto]
    linarith
  | @between l u hle =>
    unfold realTerm
    dsimp only
    by_cases hfixed : l = u
    · simp only [if_pos hfixed]
      exact hzero
    · obtain ⟨hlow, hhigh⟩ := hr.pos_of_between hfixed
      obtain ⟨hlow', hhigh'⟩ := hs.pos_of_between hfixed
      have hlower := neg_log_combine ht ht1 hlow hlow'
      have hupper := neg_log_combine ht ht1 hhigh hhigh'
      simp only [if_neg hfixed]
      rw [hfrom, hto]
      linarith

theorem Regular.leastTerm_le (hI : I.Regular) (hκ : 0 < κ) (hr : I.Interior (real r)) :
    I.leastTerm κ ≤ (I.realTerm κ r).value := by
  cases hI with
  | free => exact le_refl (0 : ℝ)
  | above l => exact one_add_log_le hκ (sub_pos.mpr (hr.between nofun).1)
  | below u => exact one_add_log_le hκ (sub_pos.mpr (hr.between nofun).2)
  | @between l u hle =>
    unfold leastTerm realTerm
    dsimp only
    by_cases hfixed : l = u
    · rw [if_pos hfixed, if_pos hfixed]
    · obtain ⟨hlow, hhigh⟩ := hr.pos_of_between hfixed
      have hwidth := neg_two_log_le hlow hhigh
      rw [show r - l + (u - r) = u - l by ring] at hwidth
      rw [if_neg hfixed, if_neg hfixed, Nat.cast_ofNat]
      exact hwidth

/-- Without damping the term of a one-sided variable falls below every number. -/
theorem Regular.exists_value_lt (hI : I.Regular) (hone : I.IsOneSided) (m : ℝ) :
    ∃ r, I.Interior (real r) ∧ (I.realTerm 0 r).value < m := by
  have hpos := Real.exp_pos (1 - m)
  have hlog : -Real.log (Real.exp (1 - m)) + 0 * Real.exp (1 - m) < m := by
    rw [Real.log_exp]
    linarith
  cases hI with
  | free =>
    rcases hone with h | h
    · exact absurd h.1 not_isFinite_negInf
    · exact absurd h.2 not_isFinite_posInf
  | above l =>
    refine ⟨l + Real.exp (1 - m), ⟨fun _ => ⟨?_, trivial⟩, nofun⟩, ?_⟩
    · exact lt_add_of_pos_right l hpos
    · show -Real.log (l + Real.exp (1 - m) - l) + 0 * (l + Real.exp (1 - m) - l) < m
      rwa [add_sub_cancel_left]
  | below u =>
    refine ⟨u - Real.exp (1 - m), ⟨fun _ => ⟨trivial, ?_⟩, nofun⟩, ?_⟩
    · exact sub_lt_self u hpos
    · show -Real.log (u - (u - Real.exp (1 - m))) + 0 * (u - (u - Real.exp (1 - m))) < m
      rwa [sub_sub_cancel]
  | between hle =>
    rcases hone with h | h
    · exact absurd (isFinite_real _) h.2
    · exact absurd (isFinite_real _) h.1

/-! ### What damping adds -/

theorem Regular.value_realTerm (hI : I.Regular) (κ r : ℝ) :
    (I.realTerm κ r).value = (I.realTerm 0 r).value + κ * I.reach r := by
  cases hI with
  | free => exact (by ring : (0 : ℝ) = 0 + κ * 0)
  | above l =>
    show -Real.log (r - l) + κ * (r - l) = -Real.log (r - l) + 0 * (r - l) + κ * (r - l)
    ring
  | below u =>
    show -Real.log (u - r) + κ * (u - r) = -Real.log (u - r) + 0 * (u - r) + κ * (u - r)
    ring
  | between hle =>
    unfold realTerm reach
    rw [mul_zero, add_zero]

theorem Regular.slope_realTerm (hI : I.Regular) (κ r : ℝ) :
    (I.realTerm κ r).slope = (I.realTerm 0 r).slope + κ * I.growth := by
  cases hI with
  | free => exact (by ring : (0 : ℝ) = 0 + κ * 0)
  | above l =>
    show -1 / (r - l) + κ = -1 / (r - l) + 0 + κ * 1
    ring
  | below u =>
    show 1 / (u - r) - κ = 1 / (u - r) - 0 + κ * -1
    ring
  | between hle =>
    unfold realTerm growth
    rw [mul_zero, add_zero]

theorem curvature_realTerm (κ : ℝ) (I : Interval Exact) (r : ℝ) :
    (I.realTerm κ r).curvature = (I.realTerm 0 r).curvature := by
  unfold realTerm
  split
  · split <;> rfl
  · rfl
  · rfl
  · rfl

theorem Regular.reach_of_not_isOneSided (hI : I.Regular) (h : ¬ I.IsOneSided) (r : ℝ) :
    I.reach r = 0 := by
  cases hI with
  | free => rfl
  | above l => exact absurd (.inl ⟨isFinite_real l, not_isFinite_posInf⟩) h
  | below u => exact absurd (.inr ⟨not_isFinite_negInf, isFinite_real u⟩) h
  | between hle => rfl

theorem Regular.growth_of_not_isOneSided (hI : I.Regular) (h : ¬ I.IsOneSided) :
    I.growth = 0 := by
  cases hI with
  | free => rfl
  | above l => exact absurd (.inl ⟨isFinite_real l, not_isFinite_posInf⟩) h
  | below u => exact absurd (.inr ⟨not_isFinite_negInf, isFinite_real u⟩) h
  | between hle => rfl

end Interval

/-! ## The box -/

namespace Box

variable {B : Box Exact n} {κ t : ℝ} {a b : Fin n → ℝ}

theorem Interior.combine (ha : B.Interior (vec a)) (hb : B.Interior (vec b)) (ht : 0 ≤ t)
    (ht1 : t ≤ 1) : B.Interior (vec (t • a + (1 - t) • b)) :=
  interior_vec_iff.mpr fun i =>
    (interior_vec_iff.mp ha i).combine (interior_vec_iff.mp hb i) ht ht1

theorem Regular.exists_interior (hB : B.Regular) : ∃ a : Fin n → ℝ, B.Interior (vec a) := by
  choose a ha using fun i => (hB i).exists_interior
  exact ⟨a, interior_vec_iff.mpr ha⟩

theorem Regular.barrier_combine_le (hB : B.Regular) (ha : B.Interior (vec a))
    (hb : B.Interior (vec b)) (ht : 0 ≤ t) (ht1 : t ≤ 1) :
    B.barrier (real κ) (vec (t • a + (1 - t) • b)) ≤
      real t * B.barrier (real κ) (vec a) + real (1 - t) * B.barrier (real κ) (vec b) := by
  rw [hB.barrier_vec ha, hB.barrier_vec hb, hB.barrier_vec (ha.combine hb ht ht1), real_mul_real,
    real_mul_real, real_add_real, real_le_real, Finset.mul_sum, Finset.mul_sum,
    ← Finset.sum_add_distrib]
  exact Finset.sum_le_sum fun i _ => (hB i).convex_value (interior_vec_iff.mp ha i)
    (interior_vec_iff.mp hb i) ht ht1

/-- Outside the interior the barrier is infinite, so that the bound holds everywhere. -/
theorem Regular.leastTerm_le_barrier (hB : B.Regular) (hκ : 0 < κ) (a : Fin n → ℝ) :
    real (∑ i, (B.side i).leastTerm κ) ≤ B.barrier (real κ) (vec a) := by
  by_cases ha : B.Interior (vec a)
  · rw [hB.barrier_vec ha, real_le_real]
    exact Finset.sum_le_sum fun i _ => (hB i).leastTerm_le hκ (interior_vec_iff.mp ha i)
  · rw [hB.barrier_eq_posInf_iff.mpr ha]
    exact trivial

/-- Moving one one-sided variable is enough to bring the undamped barrier below any number. -/
theorem Regular.exists_barrier_lt (hB : B.Regular) {i : Fin n} (hone : (B.side i).IsOneSided)
    (m : ℝ) : ∃ a : Fin n → ℝ, B.Interior (vec a) ∧ B.barrier (real 0) (vec a) < real m := by
  obtain ⟨a, ha⟩ := hB.exists_interior
  obtain ⟨r, hr, hlt⟩ := (hB i).exists_value_lt hone
    (m - ∑ j ∈ Finset.univ.erase i, (B.realTerm 0 a j).value)
  have hmoved : B.Interior (vec (Function.update a i r)) := by
    refine interior_vec_iff.mpr fun j => ?_
    by_cases hj : j = i
    · rw [hj, Function.update_self]
      exact hr
    · rw [Function.update_of_ne hj]
      exact interior_vec_iff.mp ha j
  have hothers : ∑ j ∈ Finset.univ.erase i, (B.realTerm 0 (Function.update a i r) j).value =
      ∑ j ∈ Finset.univ.erase i, (B.realTerm 0 a j).value :=
    Finset.sum_congr rfl fun j hj => by
      rw [realTerm, realTerm, Function.update_of_ne (Finset.ne_of_mem_erase hj)]
  refine ⟨Function.update a i r, hmoved, ?_⟩
  rw [hB.barrier_vec hmoved, real_lt_real, ← Finset.add_sum_erase _ _ (Finset.mem_univ i), hothers,
    realTerm, Function.update_self]
  exact lt_sub_iff_add_lt.mp hlt

/-- A quantity that only one-sided variables have is added up over these. -/
theorem sum_oneSided (B : Box Exact n) {f : Fin n → ℝ}
    (hf : ∀ i, ¬ (B.side i).IsOneSided → f i = 0) : (B.oneSided.map f).sum = ∑ i, f i := by
  have hnodup : B.oneSided.Nodup := (List.nodup_finRange n).filter _
  rw [← List.sum_toFinset f hnodup]
  refine Finset.sum_subset (Finset.subset_univ _) fun i _ hi => hf i ?_
  rwa [List.mem_toFinset, mem_oneSided] at hi

theorem Regular.sum_value (hB : B.Regular) (κ : ℝ) (a : Fin n → ℝ) :
    ∑ i, (B.realTerm κ a i).value =
      ∑ i, (B.realTerm 0 a i).value +
        κ * (B.oneSided.map fun i => (B.side i).reach (a i)).sum := by
  rw [B.sum_oneSided fun i h => (hB i).reach_of_not_isOneSided h (a i), Finset.mul_sum,
    ← Finset.sum_add_distrib]
  exact Finset.sum_congr rfl fun i _ => (hB i).value_realTerm κ (a i)

theorem Regular.slope_eq (hB : B.Regular) (κ : ℝ) (a : Fin n → ℝ) (i : Fin n) :
    (B.realTerm κ a i).slope =
      (B.realTerm 0 a i).slope + if i ∈ B.oneSided then κ * (B.side i).growth else 0 := by
  have hslope := (hB i).slope_realTerm κ (a i)
  by_cases hi : i ∈ B.oneSided
  · rw [if_pos hi]
    exact hslope
  · rw [(hB i).growth_of_not_isOneSided (mem_oneSided.not.mp hi), mul_zero] at hslope
    rw [if_neg hi]
    exact hslope

end Box

/-! ## The augmented objective -/

namespace Augmented

variable {A : Augmented Exact n} {κ : ℝ}

def undamped (A : Augmented Exact n) : Augmented Exact n := { A with damping := false }

/-- What damping with the coefficient `κ` does to the barrier. -/
structure TamedBy (A : Augmented Exact n) (κ : ℝ) : Prop where
  convex {a b : Fin n → ℝ} (ha : A.box.Interior (vec a)) (hb : A.box.Interior (vec b)) {t : ℝ}
    (ht : 0 ≤ t) (ht1 : t ≤ 1) :
    A.barrier (vec (t • a + (1 - t) • b)) ≤
      real t * A.barrier (vec a) + real (1 - t) * A.barrier (vec b)
  bounded (a : Fin n → ℝ) : real (∑ i, (A.box.side i).leastTerm κ) ≤ A.barrier (vec a)
  unbounded (hone : A.box.oneSided ≠ []) (m : ℝ) :
    ∃ a : Fin n → ℝ, A.box.Interior (vec a) ∧ A.undamped.barrier (vec a) < real m
  value {a : Fin n → ℝ} (ha : A.box.Interior (vec a)) :
    ∃ v, A.undamped.barrier (vec a) = real v ∧
      A.barrier (vec a) = real (v + κ * (A.damped.map fun i => (A.box.side i).reach (a i)).sum)
  slopes {a : Fin n → ℝ} (ha : A.box.Interior (vec a)) :
    ∃ s : Fin n → ℝ, A.undamped.barrierSlopes (vec a) = vec s ∧
      A.barrierSlopes (vec a) =
        vec fun i => s i + if i ∈ A.damped then κ * (A.box.side i).growth else 0
  curvatures {a : Fin n → ℝ} (ha : A.box.Interior (vec a)) :
    A.barrierCurvatures (vec a) = A.undamped.barrierCurvatures (vec a)

/-- With damping the barrier is convex on the interior of the box and nowhere below the sum of its
least terms. Without it, a single one-sided variable leaves the barrier without a lower bound. At an
interior point the two differ by the distances of the damped variables to their ends, the slopes by
the rates of these distances, and the curvatures not at all. -/
theorem tamedBy_damping (hB : A.box.Regular) (hdamping : A.damping = true)
    (hkappa : A.kappa = real κ) (hκ : 0 < κ) : A.TamedBy κ := by
  have hactive : A.activeKappa = real κ := by rw [activeKappa, hdamping, if_pos rfl, hkappa]
  have hdamped : A.damped = A.box.oneSided := by rw [damped, hdamping, if_pos rfl]
  constructor
  case convex =>
    intro a b ha hb t ht ht1
    simp only [barrier, hactive]
    exact hB.barrier_combine_le ha hb ht ht1
  case bounded =>
    intro a
    rw [barrier, hactive]
    exact hB.leastTerm_le_barrier hκ a
  case unbounded =>
    intro hone m
    obtain ⟨i, hi⟩ := List.exists_mem_of_ne_nil _ hone
    exact hB.exists_barrier_lt (Box.mem_oneSided.mp hi) m
  case value =>
    intro a ha
    refine ⟨_, hB.barrier_vec ha, ?_⟩
    rw [barrier, hactive, hdamped, hB.barrier_vec ha, hB.sum_value]
  case slopes =>
    intro a ha
    refine ⟨_, hB.barrierSlopes_vec ha, ?_⟩
    rw [barrierSlopes, hactive, hdamped, hB.barrierSlopes_vec ha]
    exact congrArg vec (funext fun i => hB.slope_eq κ a i)
  case curvatures =>
    intro a ha
    have hsame (i : Fin n) : (A.box.realTerm κ a i).curvature = (A.box.realTerm 0 a i).curvature :=
      Interval.curvature_realTerm κ _ _
    rw [barrierCurvatures, hactive, hB.barrierCurvatures_vec ha, funext hsame]
    exact (hB.barrierCurvatures_vec ha).symm

/-- One variable of each kind. Two of them are damped, and without damping the barrier falls. -/
theorem tamedBy_damping_kinds :
    let B : Box Exact 5 :=
      ⟨#v[⟨real 0, posInf⟩, ⟨negInf, real 1⟩, ⟨real 0, real 2⟩, ⟨real 1, real 1⟩, ⟨negInf, posInf⟩]⟩
    let A : Augmented Exact 5 := .start .squares B (real 0.1) (real 1e-4) true
    A.box.Regular ∧ A.damping = true ∧ A.kappa = real 1e-4 ∧ (0 : ℝ) < 1e-4 ∧
      A.TamedBy 1e-4 ∧ 0 ∈ A.damped ∧ 1 ∈ A.damped ∧
      ∃ a : Fin 5 → ℝ, A.box.Interior (vec a) ∧ A.undamped.barrier (vec a) < real 0 := by
  intro B A
  have hB : A.box.Regular := fun i => match i with
    | 0 => .above 0
    | 1 => .below 1
    | 2 => .between zero_le_two
    | 3 => .between le_rfl
    | 4 => .free
  have hlower : 0 ∈ A.damped :=
    Box.mem_oneSided.mpr (.inl ⟨isFinite_real 0, Interval.not_isFinite_posInf⟩)
  have hupper : 1 ∈ A.damped :=
    Box.mem_oneSided.mpr (.inr ⟨Interval.not_isFinite_negInf, isFinite_real 1⟩)
  have hκ : (0 : ℝ) < 1e-4 := by norm_num
  have h := tamedBy_damping hB rfl rfl hκ
  exact ⟨hB, rfl, rfl, hκ, h, hlower, hupper, h.unbounded (List.ne_nil_of_mem hlower) 0⟩

end Augmented

end LogBarrier

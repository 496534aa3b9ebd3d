import LogBarrier.Proofs.Reflected.Vectors

/-!
# The reflected barrier

The barrier of a reflected box has the same value and curvature at the reflected point and the
reflected slope, as long as no term is missing. So a solver that asks for gradients only where the
value is finite sees the reflection of the augmented objective.
-/

namespace LogBarrier

open Scalar Exact

variable {n : ℕ}

/-! ## One term -/

protected theorem Exact.neg_div (x y : Exact) : -x / y = -(x / y) := by
  cases x <;> cases y
  case real.real a b =>
    by_cases hb : b = 0
    · subst hb
      have hzero (c : ℝ) : real c / real 0 = scaledInf c := if_pos rfl
      rw [neg_real, hzero, hzero, scaledInf_neg]
    · rw [neg_real, real_div_real _ hb, real_div_real _ hb, neg_real, neg_div]
  case real.negInf => exact Exact.neg_zero.symm
  case real.posInf => exact Exact.neg_zero.symm
  case posInf.real b =>
    show (if b < 0 then posInf else negInf) = -(if b < 0 then negInf else posInf)
    split <;> rfl
  case negInf.real b =>
    show (if b < 0 then negInf else posInf) = -(if b < 0 then posInf else negInf)
    split <;> rfl
  all_goals rfl

namespace Interval

variable {I : Interval Exact}

theorem barrier?_opposite_of_fixed (hfixed : I.IsFixed) (k x : Exact) :
    I.opposite.barrier? k (-x) = (I.barrier? k x).map BarrierTerm.opposite := by
  have hends : I.upper = I.lower := Exact.le_antisymm hfixed.2 hfixed.1
  have hsame : Same (-x) I.opposite.lower ↔ Same x I.lower := by
    show -x ≤ -I.upper ∧ -I.upper ≤ -x ↔ _
    rw [hends, Exact.neg_le_neg_iff, Exact.neg_le_neg_iff]
    exact and_comm
  have hzero : (⟨0, 0, 0⟩ : BarrierTerm Exact) = BarrierTerm.opposite ⟨0, 0, 0⟩ := by
    unfold BarrierTerm.opposite
    rw [Exact.neg_zero]
  unfold barrier?
  rw [if_pos hfixed, if_pos (isFixed_opposite.mpr hfixed)]
  by_cases hx : Same x I.lower
  · rw [if_pos hx, if_pos (hsame.mpr hx), Option.map_some, ← hzero]
  · rw [if_neg hx, if_neg (mt hsame.mp hx)]
    rfl

/-- The distances to the two ends change places, and with them the one-sided cases. -/
theorem barrier?_opposite (k x : Exact) :
    I.opposite.barrier? k (-x) = (I.barrier? k x).map BarrierTerm.opposite := by
  by_cases hfixed : I.IsFixed
  · exact barrier?_opposite_of_fixed hfixed k x
  have hbelow : -x - I.opposite.lower = I.upper - x := Exact.neg_sub_neg x I.upper
  have habove : I.opposite.upper - -x = x - I.lower := Exact.neg_sub_neg I.lower x
  have hlower : IsFinite I.opposite.lower ↔ IsFinite I.upper := Exact.isFinite_neg_iff
  have hupper : IsFinite I.opposite.upper ↔ IsFinite I.lower := Exact.isFinite_neg_iff
  unfold barrier?
  rw [if_neg hfixed, if_neg (mt isFixed_opposite.mp hfixed)]
  dsimp only
  rw [hbelow, habove]
  generalize x - I.lower = a
  generalize I.upper - x = b
  by_cases hl : IsFinite I.lower
  · by_cases hu : IsFinite I.upper
    · rw [if_pos hl, if_pos hu, if_pos (hlower.mpr hu), if_pos (hupper.mpr hl)]
      by_cases hpos : 0 < a ∧ 0 < b
      · rw [if_pos hpos, if_pos hpos.symm, Option.map_some]
        refine congrArg some ?_
        unfold BarrierTerm.opposite
        congr 1
        · exact Exact.add_comm ..
        · rw [Exact.neg_add, Exact.neg_div, Exact.neg_div, Exact.neg_neg]
          exact Exact.add_comm ..
        · exact Exact.add_comm ..
      · rw [if_neg hpos, if_neg (mt And.symm hpos)]
        rfl
    · rw [if_pos hl, if_neg hu, if_neg (mt hlower.mp hu), if_pos (hupper.mpr hl)]
      by_cases hpos : 0 < a
      · rw [if_pos hpos, if_pos hpos, Option.map_some]
        refine congrArg some ?_
        unfold BarrierTerm.opposite
        congr 1
        rw [Exact.neg_add, Exact.neg_div, Exact.neg_neg]
        rfl
      · rw [if_neg hpos, if_neg hpos]
        rfl
  · by_cases hu : IsFinite I.upper
    · rw [if_neg hl, if_pos hu, if_pos (hlower.mpr hu), if_neg (mt hupper.mp hl)]
      by_cases hpos : 0 < b
      · rw [if_pos hpos, if_pos hpos, Option.map_some]
        refine congrArg some ?_
        unfold BarrierTerm.opposite
        congr 1
        rw [Exact.neg_sub, Exact.neg_div]
      · rw [if_neg hpos, if_neg hpos]
        rfl
    · rw [if_neg hl, if_neg hu, if_neg (mt hlower.mp hu), if_neg (mt hupper.mp hl),
        Option.map_some]
      refine congrArg some ?_
      unfold BarrierTerm.opposite
      rw [Exact.neg_zero]

end Interval

namespace Reflection

variable (R : Reflection)

theorem barrier?_interval (i : ℕ) (I : Interval Exact) (k x : Exact) :
    (R.interval i I).barrier? k (R.entry i x) = (I.barrier? k x).map (R.term i) := by
  unfold interval term entry
  split
  · exact Interval.barrier?_opposite k x
  · exact Option.map_id'.symm

/-! ## The sum -/

variable {B : Box Exact n} {k : Exact} {x : Vector Exact n}

theorem barrier?_box (B : Box Exact n) (k : Exact) (x : Vector Exact n) :
    (R.box B).barrier? k (R.vector x) = B.barrier? k x := by
  unfold Box.barrier?
  simp only [side_box, get_vector, barrier?_interval, Option.map_map]
  rfl

theorem barrier_box (B : Box Exact n) (k : Exact) (x : Vector Exact n) :
    (R.box B).barrier k (R.vector x) = B.barrier k x :=
  congrArg (Option.getD · inf) (R.barrier?_box B k x)

theorem barrierSlopes_box {b : Exact} (hb : B.barrier? k x = some b) :
    (R.box B).barrierSlopes k (R.vector x) = R.vector (B.barrierSlopes k x) := by
  refine ext_get fun i => ?_
  have hget (C : Box Exact n) (y : Vector Exact n) :
      (C.barrierSlopes k y).get i = (C.side i).barrierSlope k (y.get i) :=
    Vector.getElem_zipWith i.isLt
  obtain ⟨t, ht⟩ := Box.exists_term_of_barrier? hb i
  rw [hget, side_box, get_vector, get_vector, hget]
  unfold Interval.barrierSlope
  rw [barrier?_interval, ht]
  rfl

/-! ## The augmented objective -/

/-- `F'` is the reflection of `F`, gradients being compared where the value is finite. -/
structure Reflects (F F' : Oracle Exact n) : Prop where
  value (x : Vector Exact n) : F'.value (R.vector x) = R.metered id (F.value x)
  gradient {x : Vector Exact n} : IsFinite (F.value x).result →
    F'.gradient (R.vector x) = R.trying R.array (F.gradient x)

variable (A : Augmented Exact n)

theorem plainValue_augmented (x : Array Exact) :
    (R.augmented A).plainValue (R.array x) = R.metered id (A.plainValue x) := by
  refine Metered.eq_of_parts ?_ rfl rfl
  exact congrArg A.objective.value (R.array_array x)

theorem plainGradient_augmented (x : Array Exact) :
    (R.augmented A).plainGradient (R.array x) = R.metered R.array (A.plainGradient x) := by
  refine Metered.eq_of_parts ?_ rfl rfl
  exact congrArg (R.array ∘ A.objective.gradient) (R.array_array x)

theorem damped_augmented : (R.augmented A).damped = A.damped := by
  unfold Augmented.damped
  exact congrArg (if A.damping then · else []) (R.oneSided_box A.box)

theorem value_augmented (x : Vector Exact n) :
    (R.augmented A).value (R.vector x) = R.metered id (A.value x) := by
  have hbarrier : (R.augmented A).barrier (R.vector x) = A.barrier x := R.barrier_box A.box _ x
  unfold Augmented.value
  dsimp only
  rw [hbarrier]
  by_cases hinf : Same (A.barrier x) inf
  · rw [if_pos hinf, if_pos hinf]
    rfl
  · rw [if_neg hinf, if_neg hinf, toArray_vector, plainValue_augmented]
    exact metered_bind rfl

/-- Where the value is finite, no term of the barrier is missing. -/
theorem exists_barrier_of_value {A : Augmented Exact n} {x : Vector Exact n}
    (h : IsFinite (A.value x).result) : ∃ b, A.box.barrier? A.activeKappa x = some b := by
  cases hb : A.box.barrier? A.activeKappa x with
  | some b => exact ⟨b, rfl⟩
  | none =>
    have hinf : A.barrier x = inf := congrArg (Option.getD · inf) hb
    have hsame : Same (A.barrier x) inf := by
      rw [hinf]
      exact ⟨trivial, trivial⟩
    unfold Augmented.value at h
    dsimp only at h
    rw [if_pos hsame] at h
    exact absurd h Interval.not_isFinite_posInf

theorem gradient_augmented {x : Vector Exact n} (h : IsFinite (A.value x).result) :
    (R.augmented A).gradient (R.vector x) = R.trying R.array (A.gradient x) := by
  obtain ⟨b, hb⟩ := exists_barrier_of_value h
  have hslopes : (R.augmented A).barrierSlopes (R.vector x) = R.vector (A.barrierSlopes x) :=
    R.barrierSlopes_box hb
  unfold Augmented.gradient
  rw [toArray_vector, plainGradient_augmented, ← trying_ask]
  refine trying_bind fun g _ => ?_
  rw [sized_array, ← trying_of]
  refine trying_bind fun v _ => ?_
  rw [trying_pure, hslopes, ← toArray_vector, vector_add, vector_mul]
  rfl

theorem reflects_augmented : R.Reflects A.oracle (R.augmented A).oracle :=
  ⟨R.value_augmented A, R.gradient_augmented A⟩

end Reflection

end LogBarrier

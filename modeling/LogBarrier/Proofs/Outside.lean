import LogBarrier.Proofs.Inside
import LogBarrier.Proofs.Positions
import LogBarrier.Proofs.Terms

/-!
# Outside the interior

The value, the slopes and the curvatures of the barrier agree on where it is defined: at the
interior points of the box all of them are real numbers, and elsewhere the value is infinite together
with the slopes and curvatures of exactly those variables that are not inside. The infinite slopes
point away from the box, so steepest descent leads back. The augmented objective does not ask the
caller's objective there.
-/

namespace LogBarrier

open Scalar Exact

variable {n : ℕ}

/-- One of the two infinities. -/
def Exact.IsInfinite (x : Exact) : Prop := x = negInf ∨ x = posInf

theorem Exact.not_isInfinite_real (r : ℝ) : ¬ (real r).IsInfinite := by
  rintro (h | h) <;> cases h

theorem Exact.zero_lt_sub_iff {a b : ℝ} : 0 < real a - real b ↔ b < a := by
  rw [real_sub_real, zero_lt_real, sub_pos]

/-! ## One variable -/

namespace Interval

/-- At the lower end or below it, for a fixed variable below its value. -/
def Low (I : Interval Exact) (x : Exact) : Prop :=
  (I.lower ≠ I.upper ∧ x ≤ I.lower) ∨ (I.lower = I.upper ∧ x < I.lower)

/-- At the upper end or above it, for a fixed variable above its value. -/
def High (I : Interval Exact) (x : Exact) : Prop :=
  (I.lower ≠ I.upper ∧ I.upper ≤ x) ∨ (I.lower = I.upper ∧ I.upper < x)

variable {I : Interval Exact} {κ r c : ℝ}

/-- Everything inside lies above what is low. -/
theorem Low.lt_of_interior (h : I.Low (real r)) (hc : I.Interior (real c)) : r < c := by
  rcases h with ⟨hne, hle⟩ | ⟨heq, hlt⟩
  · exact Exact.lt_of_le_of_lt hle (hc.between hne).1
  · rw [← hc.fixed heq] at hlt
    exact hlt

theorem High.lt_of_interior (h : I.High (real r)) (hc : I.Interior (real c)) : c < r := by
  rcases h with ⟨hne, hle⟩ | ⟨heq, hlt⟩
  · exact Exact.lt_of_lt_of_le (hc.between hne).2 hle
  · rw [← heq, ← hc.fixed heq] at hlt
    exact hlt

theorem Low.not_interior (h : I.Low (real r)) : ¬ I.Interior (real r) :=
  fun hr => lt_irrefl r (h.lt_of_interior hr)

theorem High.not_interior (h : I.High (real r)) : ¬ I.Interior (real r) :=
  fun hr => lt_irrefl r (h.lt_of_interior hr)

theorem Regular.exists_interior (hI : I.Regular) : ∃ c, I.Interior (real c) := by
  have hin := hI.interior_inset 0
  obtain ⟨c, hc⟩ := isFinite_iff.mp (hin.isFinite hI)
  exact ⟨c, hc ▸ hin⟩

/-- Nothing is on both sides of an interval with something inside. -/
theorem Regular.not_high_of_low (hI : I.Regular) (h : I.Low (real r)) : ¬ I.High (real r) := by
  obtain ⟨c, hc⟩ := hI.exists_interior
  exact fun hhigh => lt_asymm (h.lt_of_interior hc) (hhigh.lt_of_interior hc)

theorem Regular.barrier?_of_not_interior (hI : I.Regular) (h : ¬ I.Interior (real r))
    (k : Exact) : I.barrier? k (real r) = none := by
  cases hterm : I.barrier? k (real r) with
  | none => rfl
  | some t => exact absurd (hI.interior_of_barrier? hterm) h

/-- Where the barrier has no term, the sign of its slope tells on which side that is. -/
theorem Regular.barrierSlope_of_not_interior (hI : I.Regular) (h : ¬ I.Interior (real r))
    (k : Exact) :
    (I.Low (real r) ∧ I.barrierSlope k (real r) = negInf) ∨
      (I.High (real r) ∧ I.barrierSlope k (real r) = posInf) := by
  unfold barrierSlope
  rw [hI.barrier?_of_not_interior h]
  dsimp only
  cases hI with
  | free => exact absurd ⟨fun _ => ⟨trivial, trivial⟩, nofun⟩ h
  | above l =>
    have hle : r ≤ l := by
      by_contra hlt
      exact h ⟨fun _ => ⟨real_lt_real.mpr (not_le.mp hlt), trivial⟩, nofun⟩
    exact .inl ⟨.inl ⟨nofun, real_le_real.mpr hle⟩,
      if_pos ⟨isFinite_real l, zero_lt_sub_iff.not.mpr hle.not_gt⟩⟩
  | below u =>
    have hle : u ≤ r := by
      by_contra hlt
      exact h ⟨fun _ => ⟨trivial, real_lt_real.mpr (not_le.mp hlt)⟩, nofun⟩
    exact .inr ⟨.inl ⟨nofun, real_le_real.mpr hle⟩, if_neg fun hlow => not_isFinite_negInf hlow.1⟩
  | @between l u hle =>
    by_cases hfixed : l = u
    · subst hfixed
      have hne : r ≠ l := fun heq => h ⟨fun hne => absurd rfl hne, fun _ => congrArg real heq⟩
      rcases lt_or_gt_of_ne hne with hlt | hlt
      · exact .inl ⟨.inr ⟨rfl, hlt⟩,
          if_pos ⟨isFinite_real l, zero_lt_sub_iff.not.mpr hlt.not_gt⟩⟩
      · exact .inr ⟨.inr ⟨rfl, hlt⟩, if_neg fun hlow => hlow.2 (zero_lt_sub_iff.mpr hlt)⟩
    · have hends : real l ≠ real u := fun heq => hfixed (Exact.real.inj heq)
      by_cases hlow : l < r
      · have hhigh : u ≤ r := by
          by_contra hlt
          exact h ⟨fun _ => ⟨hlow, not_le.mp hlt⟩, fun heq => absurd heq hends⟩
        exact .inr ⟨.inl ⟨hends, hhigh⟩, if_neg fun hout => hout.2 (zero_lt_sub_iff.mpr hlow)⟩
      · exact .inl ⟨.inl ⟨hends, not_lt.mp hlow⟩,
          if_pos ⟨isFinite_real l, zero_lt_sub_iff.not.mpr hlow⟩⟩

theorem Regular.barrierSlope_of_interior (hI : I.Regular) (h : I.Interior (real r)) :
    I.barrierSlope (real κ) (real r) = real (I.realTerm κ r).slope := by
  rw [barrierSlope, hI.barrier?_real h]

theorem Regular.barrierSlope_eq_negInf_iff (hI : I.Regular) :
    I.barrierSlope (real κ) (real r) = negInf ↔ I.Low (real r) := by
  by_cases h : I.Interior (real r)
  · rw [hI.barrierSlope_of_interior h]
    exact iff_of_false nofun fun hlow => hlow.not_interior h
  · rcases hI.barrierSlope_of_not_interior h (real κ) with ⟨hlow, hslope⟩ | ⟨hhigh, hslope⟩
    · exact iff_of_true hslope hlow
    · rw [hslope]
      exact iff_of_false nofun fun hlow => hI.not_high_of_low hlow hhigh

theorem Regular.barrierSlope_eq_posInf_iff (hI : I.Regular) :
    I.barrierSlope (real κ) (real r) = posInf ↔ I.High (real r) := by
  by_cases h : I.Interior (real r)
  · rw [hI.barrierSlope_of_interior h]
    exact iff_of_false nofun fun hhigh => hhigh.not_interior h
  · rcases hI.barrierSlope_of_not_interior h (real κ) with ⟨hlow, hslope⟩ | ⟨hhigh, hslope⟩
    · rw [hslope]
      exact iff_of_false nofun (hI.not_high_of_low hlow)
    · exact iff_of_true hslope hhigh

theorem Regular.isInfinite_barrierSlope_iff (hI : I.Regular) :
    (I.barrierSlope (real κ) (real r)).IsInfinite ↔ ¬ I.Interior (real r) := by
  constructor
  · rintro (hslope | hslope)
    · exact (hI.barrierSlope_eq_negInf_iff.mp hslope).not_interior
    · exact (hI.barrierSlope_eq_posInf_iff.mp hslope).not_interior
  · intro h
    rcases hI.barrierSlope_of_not_interior h (real κ) with ⟨-, hslope⟩ | ⟨-, hslope⟩
    · exact .inl hslope
    · exact .inr hslope

theorem Regular.isInfinite_barrierCurvature_iff (hI : I.Regular) :
    (I.barrierCurvature (real κ) (real r)).IsInfinite ↔ ¬ I.Interior (real r) := by
  unfold barrierCurvature
  by_cases h : I.Interior (real r)
  · rw [hI.barrier?_real h]
    exact iff_of_false (not_isInfinite_real _) (not_not.mpr h)
  · rw [hI.barrier?_of_not_interior h]
    exact iff_of_true (.inr rfl) h

end Interval

/-! ## The box -/

namespace Box

variable {B : Box Exact n} {κ : ℝ} {a : Fin n → ℝ}

theorem interior_vec_iff : B.Interior (vec a) ↔ ∀ i, (B.side i).Interior (real (a i)) :=
  forall_congr' fun i => by rw [get_vec]

theorem get_barrierSlopes_vec (B : Box Exact n) (k : Exact) (a : Fin n → ℝ) (i : Fin n) :
    (B.barrierSlopes k (vec a)).get i = (B.side i).barrierSlope k (real (a i)) := by
  rw [← get_vec a i]
  exact Vector.getElem_zipWith i.isLt

theorem get_barrierCurvatures_vec (B : Box Exact n) (k : Exact) (a : Fin n → ℝ) (i : Fin n) :
    (B.barrierCurvatures k (vec a)).get i = (B.side i).barrierCurvature k (real (a i)) := by
  rw [← get_vec a i]
  exact Vector.getElem_zipWith i.isLt

theorem Regular.barrier_eq_posInf_iff (hB : B.Regular) :
    B.barrier (real κ) (vec a) = posInf ↔ ¬ B.Interior (vec a) := by
  constructor
  · intro h ha
    rw [hB.barrier_vec ha] at h
    cases h
  · intro ha
    have hsame : Same (B.barrier (real κ) (vec a)) inf := by
      by_contra h
      exact ha (hB.interior_of_barrier (allFinite_vec a) h)
    exact Exact.le_antisymm hsame.1 hsame.2

theorem Regular.exists_isInfinite_barrierSlopes_iff (hB : B.Regular) :
    (∃ i, ((B.barrierSlopes (real κ) (vec a)).get i).IsInfinite) ↔ ¬ B.Interior (vec a) := by
  rw [interior_vec_iff, not_forall]
  refine exists_congr fun i => ?_
  rw [get_barrierSlopes_vec]
  exact (hB i).isInfinite_barrierSlope_iff

theorem Regular.exists_isInfinite_barrierCurvatures_iff (hB : B.Regular) :
    (∃ i, ((B.barrierCurvatures (real κ) (vec a)).get i).IsInfinite) ↔ ¬ B.Interior (vec a) := by
  rw [interior_vec_iff, not_forall]
  refine exists_congr fun i => ?_
  rw [get_barrierCurvatures_vec]
  exact (hB i).isInfinite_barrierCurvature_iff

end Box

/-! ## The augmented objective -/

namespace Augmented

variable {A : Augmented Exact n} {κ : ℝ}

/-- The value is infinite without a question exactly where the barrier is. -/
theorem value_unasked_iff {x : Vector Exact n} :
    ((A.value x).result = inf ∧ (A.value x).calls = []) ↔ A.barrier x = posInf := by
  constructor
  · rintro ⟨-, hcalls⟩
    by_contra h
    have hinside : ¬ Same (A.barrier x) inf := fun hsame => h (Exact.le_antisymm hsame.1 hsame.2)
    rw [calls_value_of_inside hinside] at hcalls
    cases hcalls
  · intro h
    have houtside : Same (A.barrier x) inf := by
      rw [h]
      exact ⟨trivial, trivial⟩
    refine ⟨?_, calls_value_of_outside houtside⟩
    unfold value
    dsimp only
    rw [if_pos houtside]
    rfl

/-- What the augmented objective computes at `a` is infinite outside the interior of the box, and
only there. -/
structure InfiniteOutside (A : Augmented Exact n) (a : Fin n → ℝ) : Prop where
  barrier : A.barrier (vec a) = posInf ↔ ¬ A.box.Interior (vec a)
  slopes : (∃ i, ((A.barrierSlopes (vec a)).get i).IsInfinite) ↔ ¬ A.box.Interior (vec a)
  curvatures : (∃ i, ((A.barrierCurvatures (vec a)).get i).IsInfinite) ↔ ¬ A.box.Interior (vec a)
  slope (i : Fin n) :
    ((A.barrierSlopes (vec a)).get i).IsInfinite ↔ ¬ (A.box.side i).Interior (real (a i))
  curvature (i : Fin n) :
    ((A.barrierCurvatures (vec a)).get i).IsInfinite ↔ ¬ (A.box.side i).Interior (real (a i))
  slope_low (i : Fin n) :
    (A.barrierSlopes (vec a)).get i = negInf ↔ (A.box.side i).Low (real (a i))
  slope_high (i : Fin n) :
    (A.barrierSlopes (vec a)).get i = posInf ↔ (A.box.side i).High (real (a i))
  /-- Everything inside lies against the slope. -/
  descent (i : Fin n) {c : ℝ} (hc : (A.box.side i).Interior (real c)) :
    ((A.barrierSlopes (vec a)).get i = negInf → a i < c) ∧
      ((A.barrierSlopes (vec a)).get i = posInf → c < a i)
  value : ((A.value (vec a)).result = inf ∧ (A.value (vec a)).calls = []) ↔
    ¬ A.box.Interior (vec a)

/-- The barrier is infinite exactly at the points that are not interior, and so are some of its
slopes and some of its curvatures, those of the variables that are not inside. A slope is minus
infinity on the low side and plus infinity on the high side, so that steepest descent leads back
into the box. Exactly at these points the value is infinite without a question to the caller's
objective. -/
theorem infinite_iff_outside (hB : A.box.Regular) (hkappa : A.kappa = real κ) (a : Fin n → ℝ) :
    A.InfiniteOutside a := by
  obtain ⟨κ', hactive⟩ := exists_activeKappa hkappa
  have hbarrier : A.barrier (vec a) = posInf ↔ ¬ A.box.Interior (vec a) := by
    rw [barrier, hactive]
    exact hB.barrier_eq_posInf_iff
  have hslope (i : Fin n) : (A.barrierSlopes (vec a)).get i =
      (A.box.side i).barrierSlope (real κ') (real (a i)) := by
    rw [barrierSlopes, hactive, Box.get_barrierSlopes_vec]
  have hcurvature (i : Fin n) : (A.barrierCurvatures (vec a)).get i =
      (A.box.side i).barrierCurvature (real κ') (real (a i)) := by
    rw [barrierCurvatures, hactive, Box.get_barrierCurvatures_vec]
  have hlow (i : Fin n) :
      (A.barrierSlopes (vec a)).get i = negInf ↔ (A.box.side i).Low (real (a i)) := by
    rw [hslope]
    exact (hB i).barrierSlope_eq_negInf_iff
  have hhigh (i : Fin n) :
      (A.barrierSlopes (vec a)).get i = posInf ↔ (A.box.side i).High (real (a i)) := by
    rw [hslope]
    exact (hB i).barrierSlope_eq_posInf_iff
  exact {
    barrier := hbarrier
    slopes := by
      rw [barrierSlopes, hactive]
      exact hB.exists_isInfinite_barrierSlopes_iff
    curvatures := by
      rw [barrierCurvatures, hactive]
      exact hB.exists_isInfinite_barrierCurvatures_iff
    slope := fun i => by
      rw [hslope]
      exact (hB i).isInfinite_barrierSlope_iff
    curvature := fun i => by
      rw [hcurvature]
      exact (hB i).isInfinite_barrierCurvature_iff
    slope_low := hlow
    slope_high := hhigh
    descent := fun i c hc => ⟨fun h => ((hlow i).mp h).lt_of_interior hc,
      fun h => ((hhigh i).mp h).lt_of_interior hc⟩
    value := value_unasked_iff.trans hbarrier }

/-- The lower end of an interval, and a number above a fixed value. -/
theorem infinite_iff_outside_square :
    let A : Augmented Exact 2 :=
      .start .squares (.between (vec ![0, 1]) (vec ![1, 1])) (real 0.1) (real 1e-4) true
    let a : Fin 2 → ℝ := ![0, 2]
    A.box.Regular ∧ A.kappa = real 1e-4 ∧ A.InfiniteOutside a ∧
      A.barrier (vec a) = posInf ∧ (A.barrierSlopes (vec a)).get 0 = negInf ∧
      (A.barrierSlopes (vec a)).get 1 = posInf ∧ (A.value (vec a)).calls = [] := by
  intro A a
  have hB : A.box.Regular := Box.regular_between fun i => by fin_cases i <;> simp
  have hside (i : Fin 2) : A.box.side i = ⟨real (![0, 1] i), real (![1, 1] i)⟩ := by
    show (Box.between _ _).side i = _
    rw [Box.side_between, get_vec, get_vec]
  have hlow : (A.box.side 0).Low (real (a 0)) := by
    rw [hside]
    exact .inl ⟨fun heq => by simp at heq, le_refl (0 : ℝ)⟩
  have hhigh : (A.box.side 1).High (real (a 1)) := by
    rw [hside]
    exact .inr ⟨rfl, one_lt_two (α := ℝ)⟩
  have h := infinite_iff_outside hB rfl a
  have houtside : ¬ A.box.Interior (vec a) := fun ha =>
    hlow.not_interior (Box.interior_vec_iff.mp ha 0)
  exact ⟨hB, rfl, h, h.barrier.mpr houtside, (h.slope_low 0).mpr hlow, (h.slope_high 1).mpr hhigh,
    (h.value.mpr houtside).2⟩

end Augmented

end LogBarrier

import LogBarrier.Scalar
import Mathlib.Analysis.Real.Sqrt
import Mathlib.Analysis.SpecialFunctions.Log.Basic

/-!
# Exact scalars

Real numbers with two infinities and a `nan`. Operations on real numbers are exact; the other values
behave as they do for doubles, except that there is one zero, whose reciprocal is positive.
-/

namespace LogBarrier

inductive Exact where
  | nan
  | negInf
  | real (r : ℝ)
  | posInf

namespace Exact

protected def le : Exact → Exact → Prop
  | nan, _ | _, nan => False
  | negInf, _ | _, posInf => True
  | real a, real b => a ≤ b
  | _, _ => False

protected def lt : Exact → Exact → Prop
  | nan, _ | _, nan => False
  | negInf, negInf | posInf, _ => False
  | negInf, _ | _, posInf => True
  | real a, real b => a < b
  | real _, negInf => False

protected def neg : Exact → Exact
  | nan => nan
  | negInf => posInf
  | real a => real (-a)
  | posInf => negInf

protected def add : Exact → Exact → Exact
  | nan, _ | _, nan => nan
  | real a, real b => real (a + b)
  | negInf, posInf | posInf, negInf => nan
  | negInf, _ | _, negInf => negInf
  | posInf, _ | _, posInf => posInf

open Classical in
/-- The infinity with the sign of `a`, `nan` for zero. -/
noncomputable def scaledInf (a : ℝ) : Exact :=
  if 0 < a then posInf else if a < 0 then negInf else nan

protected noncomputable def mul : Exact → Exact → Exact
  | nan, _ | _, nan => nan
  | real a, real b => real (a * b)
  | real a, posInf | posInf, real a => scaledInf a
  | real a, negInf | negInf, real a => scaledInf (-a)
  | posInf, posInf | negInf, negInf => posInf
  | posInf, negInf | negInf, posInf => negInf

open Classical in
protected noncomputable def div : Exact → Exact → Exact
  | nan, _ | _, nan => nan
  | real a, real b => if b = 0 then scaledInf a else real (a / b)
  | real _, _ => real 0
  | posInf, real b => if b < 0 then negInf else posInf
  | negInf, real b => if b < 0 then posInf else negInf
  | _, _ => nan

open Classical in
protected noncomputable def sqrt : Exact → Exact
  | real a => if a < 0 then nan else real (Real.sqrt a)
  | posInf => posInf
  | _ => nan

open Classical in
protected noncomputable def log : Exact → Exact
  | real a => if a < 0 then nan else if a = 0 then negInf else real (Real.log a)
  | posInf => posInf
  | _ => nan

open Classical in
noncomputable instance : Scalar Exact where
  zero := real 0
  one := real 1
  add := Exact.add
  sub a b := Exact.add a b.neg
  mul := Exact.mul
  div := Exact.div
  neg := Exact.neg
  lt := Exact.lt
  le := Exact.le
  ofScientific m s e := real (OfScientific.ofScientific m s e)
  decLt := fun _ _ => inferInstance
  decLe := fun _ _ => inferInstance
  sqrt := Exact.sqrt
  log := Exact.log
  twoPow e := real ((2 : ℝ) ^ e)
  inf := posInf
  nan := nan

variable {a b : ℝ} {x y z : Exact}

/-! ## Real numbers among the exact ones -/

theorem zero_eq : (0 : Exact) = real 0 := rfl

theorem one_eq : (1 : Exact) = real 1 := rfl

theorem twoPow_eq (e : Int) : (Scalar.twoPow e : Exact) = real ((2 : ℝ) ^ e) := rfl

@[simp] theorem real_add_real (a b : ℝ) : real a + real b = real (a + b) := rfl

@[simp] theorem real_sub_real (a b : ℝ) : real a - real b = real (a - b) :=
  congrArg real (sub_eq_add_neg a b).symm

@[simp] theorem real_mul_real (a b : ℝ) : real a * real b = real (a * b) := rfl

@[simp] theorem neg_real (a : ℝ) : -real a = real (-a) := rfl

theorem real_div_real (a : ℝ) (hb : b ≠ 0) : real a / real b = real (a / b) :=
  if_neg hb

@[simp] theorem real_le_real : real a ≤ real b ↔ a ≤ b := Iff.rfl

@[simp] theorem real_lt_real : real a < real b ↔ a < b := Iff.rfl

@[simp] theorem zero_le_real : 0 ≤ real a ↔ 0 ≤ a := Iff.rfl

@[simp] theorem zero_lt_real : 0 < real a ↔ 0 < a := Iff.rfl

@[simp] theorem real_le_zero : real a ≤ 0 ↔ a ≤ 0 := Iff.rfl

@[simp] theorem real_lt_zero : real a < 0 ↔ a < 0 := Iff.rfl

theorem sqrt_real (ha : 0 ≤ a) : Scalar.sqrt (real a) = real (Real.sqrt a) :=
  if_neg (not_lt.mpr ha)

theorem log_real (ha : 0 < a) : Scalar.log (real a) = real (Real.log a) :=
  (if_neg (not_lt.mpr ha.le)).trans (if_neg ha.ne')

/-! ## The order -/

@[simp] theorem not_nan_le (x : Exact) : ¬ nan ≤ x := id

@[simp] theorem not_le_nan (x : Exact) : ¬ x ≤ nan := by
  cases x <;> exact id

theorem isFinite_iff : Scalar.IsFinite x ↔ ∃ r, x = real r := by
  constructor
  · rintro ⟨hlower, hupper⟩
    cases x with
    | nan => exact hupper.elim
    | negInf => exact hlower.elim
    | real r => exact ⟨r, rfl⟩
    | posInf => exact hupper.elim
  · rintro ⟨r, rfl⟩
    exact ⟨trivial, trivial⟩

@[simp] theorem isFinite_real (r : ℝ) : Scalar.IsFinite (real r) := isFinite_iff.mpr ⟨r, rfl⟩

theorem le_refl_of_ne (hx : x ≠ nan) : x ≤ x := by
  cases x with
  | nan => exact hx rfl
  | negInf => trivial
  | real r => exact le_refl r
  | posInf => trivial

theorem lt_iff_le_not_le : x < y ↔ x ≤ y ∧ ¬ y ≤ x := by
  cases x with
  | nan => exact iff_of_false id fun h => h.1
  | negInf =>
    cases y with
    | nan => exact iff_of_false id fun h => h.1
    | negInf => exact iff_of_false id fun h => h.2 trivial
    | real r => exact iff_of_true trivial ⟨trivial, id⟩
    | posInf => exact iff_of_true trivial ⟨trivial, id⟩
  | real a =>
    cases y with
    | nan => exact iff_of_false id fun h => h.1
    | negInf => exact iff_of_false id fun h => h.1
    | real b => exact lt_iff_le_not_ge (a := a) (b := b)
    | posInf => exact iff_of_true trivial ⟨trivial, id⟩
  | posInf =>
    cases y with
    | nan => exact iff_of_false id fun h => h.1
    | negInf => exact iff_of_false id fun h => h.1
    | real r => exact iff_of_false id fun h => h.1
    | posInf => exact iff_of_false id fun h => h.2 trivial

protected theorem le_total (hx : x ≠ nan) (hy : y ≠ nan) : x ≤ y ∨ y ≤ x := by
  cases x with
  | nan => exact absurd rfl hx
  | negInf =>
    cases y with
    | nan => exact absurd rfl hy
    | _ => exact .inl trivial
  | real a =>
    cases y with
    | nan => exact absurd rfl hy
    | negInf => exact .inr trivial
    | real b => exact le_total (α := ℝ) a b
    | posInf => exact .inl trivial
  | posInf =>
    cases y with
    | nan => exact absurd rfl hy
    | _ => exact .inr trivial

protected theorem le_antisymm (hxy : x ≤ y) (hyx : y ≤ x) : x = y := by
  cases x with
  | nan => exact hxy.elim
  | negInf =>
    cases y with
    | negInf => rfl
    | _ => exact hyx.elim
  | real a =>
    cases y with
    | nan => exact hxy.elim
    | negInf => exact hxy.elim
    | real b => exact congrArg real (le_antisymm (α := ℝ) hxy hyx)
    | posInf => exact hyx.elim
  | posInf =>
    cases y with
    | posInf => rfl
    | _ => exact hxy.elim

protected theorem le_trans (hxy : x ≤ y) (hyz : y ≤ z) : x ≤ z := by
  cases y with
  | nan => exact (not_le_nan x hxy).elim
  | negInf =>
    cases x with
    | negInf => exact hyz
    | _ => exact hxy.elim
  | real b =>
    cases x with
    | nan => exact hxy.elim
    | negInf =>
      cases z with
      | nan => exact hyz.elim
      | _ => trivial
    | real a =>
      cases z with
      | nan => exact hyz.elim
      | negInf => exact hyz.elim
      | real c => exact le_trans (α := ℝ) hxy hyz
      | posInf => trivial
    | posInf => exact hxy.elim
  | posInf =>
    cases z with
    | posInf => exact hxy
    | _ => exact hyz.elim

protected theorem lt_of_le_of_lt (hxy : x ≤ y) (hyz : y < z) : x < z := by
  obtain ⟨hle, hnot⟩ := lt_iff_le_not_le.mp hyz
  exact lt_iff_le_not_le.mpr ⟨Exact.le_trans hxy hle, fun hzx => hnot (Exact.le_trans hzx hxy)⟩

protected theorem lt_of_lt_of_le (hxy : x < y) (hyz : y ≤ z) : x < z := by
  obtain ⟨hle, hnot⟩ := lt_iff_le_not_le.mp hxy
  exact lt_iff_le_not_le.mpr ⟨Exact.le_trans hle hyz, fun hzx => hnot (Exact.le_trans hyz hzx)⟩

/-- What lies between two real numbers is real. -/
theorem exists_real_of_le_of_le (hax : real a ≤ x) (hxb : x ≤ real b) : ∃ r, x = real r := by
  cases x with
  | nan => exact hax.elim
  | negInf => exact hax.elim
  | real r => exact ⟨r, rfl⟩
  | posInf => exact hxb.elim

@[simp] theorem max_real (a b : ℝ) : Scalar.max (real a) (real b) = real (max a b) := by
  unfold Scalar.max
  by_cases h : a ≤ b
  · rw [if_pos (real_le_real.mpr h), max_eq_right h]
  · rw [if_neg (mt real_le_real.mp h), if_pos (real_le_real.mpr le_rfl),
      max_eq_left (le_of_not_ge h)]

@[simp] theorem min_real (a b : ℝ) : Scalar.min (real a) (real b) = real (min a b) := by
  unfold Scalar.min
  by_cases h : b ≤ a
  · rw [if_pos (real_le_real.mpr h), min_eq_right h]
  · rw [if_neg (mt real_le_real.mp h), if_pos (real_le_real.mpr le_rfl),
      min_eq_left (le_of_not_ge h)]

@[simp] theorem magnitude_real (a : ℝ) : Scalar.magnitude (real a) = real |a| := by
  unfold Scalar.magnitude
  by_cases h : a < 0
  · rw [if_pos (real_lt_zero.mpr h), neg_real, abs_of_neg h]
  · rw [if_neg (mt real_lt_zero.mp h), abs_of_nonneg (le_of_not_gt h)]

end Exact

end LogBarrier

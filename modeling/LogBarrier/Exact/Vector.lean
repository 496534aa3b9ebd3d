import LogBarrier.Box
import LogBarrier.Exact
import Mathlib.LinearAlgebra.Matrix.DotProduct

/-!
# Vectors of real numbers

Exact vectors without infinite entries, taken for points of a real space. The operations that the
method uses on vectors are those of that space: the inner product is the sum of the products, and
the norm is the root of the sum of the squares whichever way it is scaled.
-/

namespace LogBarrier.Exact

open Scalar

variable {n : ℕ}

def vec (a : Fin n → ℝ) : Vector Exact n := Vector.ofFn fun i => real (a i)

variable {a b : Fin n → ℝ} {x y : Vector Exact n}

@[simp] theorem get_vec (a : Fin n → ℝ) (i : Fin n) : (vec a).get i = real (a i) :=
  Vector.getElem_ofFn i.isLt

theorem eq_vec_iff : x = vec a ↔ ∀ i : Fin n, x.get i = real (a i) := by
  constructor
  · rintro rfl i
    exact get_vec a i
  · intro h
    ext i hi
    exact (h ⟨i, hi⟩).trans (get_vec a ⟨i, hi⟩).symm

theorem allFinite_iff : AllFinite x ↔ ∃ a, x = vec a := by
  constructor
  · intro h
    choose a ha using fun i => isFinite_iff.mp (h i)
    exact ⟨a, eq_vec_iff.mpr ha⟩
  · rintro ⟨a, rfl⟩ i
    rw [get_vec]
    exact isFinite_real _

@[simp] theorem allFinite_vec (a : Fin n → ℝ) : AllFinite (vec a) := allFinite_iff.mpr ⟨a, rfl⟩

theorem vec_injective : Function.Injective (vec (n := n)) := by
  intro a b h
  funext i
  have hi : (vec a).get i = (vec b).get i := congrArg (Vector.get · i) h
  rw [get_vec, get_vec] at hi
  exact real.inj hi

/-! ## Entry by entry -/

@[simp] theorem vec_add_vec (a b : Fin n → ℝ) : vec a + vec b = vec (a + b) := by
  refine eq_vec_iff.mpr fun i => ?_
  show (vec a + vec b)[i] = _
  rw [Fin.getElem_fin, Vector.getElem_add]
  exact congrArg₂ (· + ·) (get_vec a i) (get_vec b i)

@[simp] theorem vec_sub_vec (a b : Fin n → ℝ) : vec a - vec b = vec (a - b) := by
  refine eq_vec_iff.mpr fun i => ?_
  show (vec a - vec b)[i] = _
  rw [Fin.getElem_fin, Vector.getElem_sub]
  exact (congrArg₂ (· - ·) (get_vec a i) (get_vec b i)).trans (real_sub_real ..)

@[simp] theorem neg_vec (a : Fin n → ℝ) : -vec a = vec (-a) := by
  refine eq_vec_iff.mpr fun i => ?_
  show (-vec a)[i] = _
  rw [Fin.getElem_fin, Vector.getElem_neg]
  exact congrArg (- ·) (get_vec a i)

@[simp] theorem real_mul_vec (c : ℝ) (a : Fin n → ℝ) : real c * vec a = vec (c • a) := by
  refine eq_vec_iff.mpr fun i => ?_
  show (real c * vec a)[i] = _
  rw [Fin.getElem_fin, Vector.getElem_hmul]
  exact congrArg (real c * ·) (get_vec a i)

theorem zipWith_mul_vec (a b : Fin n → ℝ) :
    (vec a).zipWith (· * ·) (vec b) = vec (a * b) := by
  refine eq_vec_iff.mpr fun i => ?_
  show ((vec a).zipWith (· * ·) (vec b))[i] = _
  rw [Fin.getElem_fin, Vector.getElem_zipWith]
  exact congrArg₂ (· * ·) (get_vec a i) (get_vec b i)

/-! ## Inner product and norm -/

theorem foldl_add_real (l : List ℝ) (c : ℝ) :
    (l.map real).foldl (· + ·) (real c) = real (c + l.sum) := by
  induction l generalizing c with
  | nil => rw [List.map_nil, List.foldl_nil, List.sum_nil, add_zero]
  | cons r l ih => rw [List.map_cons, List.foldl_cons, real_add_real, ih, List.sum_cons, add_assoc]

@[simp] theorem dot_vec (a b : Fin n → ℝ) : dot (vec a) (vec b) = real (a ⬝ᵥ b) := by
  have hprod : ((vec a).zipWith (· * ·) (vec b)).toList =
      (List.ofFn fun i => a i * b i).map real := by
    rw [zipWith_mul_vec, vec, Vector.toList_ofFn, List.map_ofFn]
    rfl
  unfold dot
  rw [← Vector.foldl_toList, hprod, zero_eq, foldl_add_real, zero_add, List.sum_ofFn]
  rfl

/-- The Euclidean length of `a`. -/
noncomputable def length (a : Fin n → ℝ) : ℝ := Real.sqrt (a ⬝ᵥ a)

theorem dotProduct_self_nonneg (a : Fin n → ℝ) : 0 ≤ a ⬝ᵥ a :=
  Finset.sum_nonneg fun i _ => mul_self_nonneg (a i)

theorem length_nonneg (a : Fin n → ℝ) : 0 ≤ length a := Real.sqrt_nonneg _

theorem length_eq {t : ℝ} (ht : 0 ≤ t) (h : a ⬝ᵥ a = t ^ 2) : length a = t := by
  rw [length, h, Real.sqrt_sq ht]

theorem energy_vec (c : ℝ) (a : Fin n → ℝ) :
    energy (real c) (vec a) = real (c ^ 2 * (a ⬝ᵥ a)) := by
  rw [energy, real_mul_vec, dot_vec, smul_dotProduct, dotProduct_smul, smul_eq_mul, smul_eq_mul,
    ← mul_assoc, sq]

theorem sqrt_energy_vec {c : ℝ} (hc : 0 < c) (a : Fin n → ℝ) :
    sqrt (energy (real c) (vec a)) = real (c * length a) := by
  rw [energy_vec, sqrt_real (mul_nonneg (sq_nonneg c) (dotProduct_self_nonneg a)),
    Real.sqrt_mul (sq_nonneg c), Real.sqrt_sq hc.le]
  rfl

@[simp] theorem norm_vec (a : Fin n → ℝ) : norm (vec a) = real (length a) := by
  have hscale (e : ℤ) : (2 : ℝ) ^ e * length a * 2 ^ (-e) = length a := by
    rw [mul_right_comm, ← zpow_add₀ two_ne_zero, add_neg_cancel, zpow_zero, one_mul]
  have hpos (e : ℤ) : (0 : ℝ) < 2 ^ e := zpow_pos two_pos e
  unfold norm
  split
  · rw [twoPow_eq, twoPow_eq, sqrt_energy_vec (hpos _), real_mul_real]
    exact congrArg real (hscale (-511))
  · split
    · rw [one_eq, sqrt_energy_vec one_pos, one_mul]
    · rw [twoPow_eq, twoPow_eq, sqrt_energy_vec (hpos _), real_mul_real]
      exact congrArg real (hscale 511)

theorem dotProduct_self_pos (h : a ⬝ᵥ b ≠ 0) : 0 < b ⬝ᵥ b := by
  refine lt_of_le_of_ne (dotProduct_self_nonneg b) fun hzero => h ?_
  rw [dotProduct_self_eq_zero.mp hzero.symm, dotProduct_zero]

/-! ## Finite results -/

theorem isFinite_div_real {t : Exact} (ht : IsFinite t) {c : ℝ} (hc : c ≠ 0) :
    IsFinite (t / real c) := by
  obtain ⟨r, rfl⟩ := isFinite_iff.mp ht
  rw [real_div_real r hc]
  exact isFinite_real _

theorem isFinite_mul {s t : Exact} (hs : IsFinite s) (ht : IsFinite t) : IsFinite (s * t) := by
  obtain ⟨a, rfl⟩ := isFinite_iff.mp hs
  obtain ⟨b, rfl⟩ := isFinite_iff.mp ht
  exact isFinite_real (a * b)

theorem isFinite_sub {s t : Exact} (hs : IsFinite s) (ht : IsFinite t) : IsFinite (s - t) := by
  obtain ⟨a, rfl⟩ := isFinite_iff.mp hs
  obtain ⟨b, rfl⟩ := isFinite_iff.mp ht
  rw [real_sub_real]
  exact isFinite_real (a - b)

theorem isFinite_neg {t : Exact} (ht : IsFinite t) : IsFinite (-t) := by
  obtain ⟨a, rfl⟩ := isFinite_iff.mp ht
  exact isFinite_real (-a)

theorem allFinite_add (hx : AllFinite x) (hy : AllFinite y) : AllFinite (x + y) := by
  obtain ⟨a, rfl⟩ := allFinite_iff.mp hx
  obtain ⟨b, rfl⟩ := allFinite_iff.mp hy
  rw [vec_add_vec]
  exact allFinite_vec _

theorem allFinite_sub (hx : AllFinite x) (hy : AllFinite y) : AllFinite (x - y) := by
  obtain ⟨a, rfl⟩ := allFinite_iff.mp hx
  obtain ⟨b, rfl⟩ := allFinite_iff.mp hy
  rw [vec_sub_vec]
  exact allFinite_vec _

theorem allFinite_neg (hx : AllFinite x) : AllFinite (-x) := by
  obtain ⟨a, rfl⟩ := allFinite_iff.mp hx
  rw [neg_vec]
  exact allFinite_vec _

theorem allFinite_mul {t : Exact} (ht : IsFinite t) (hx : AllFinite x) : AllFinite (t * x) := by
  obtain ⟨c, rfl⟩ := isFinite_iff.mp ht
  obtain ⟨a, rfl⟩ := allFinite_iff.mp hx
  rw [real_mul_vec]
  exact allFinite_vec _

theorem isFinite_dot (hx : AllFinite x) (hy : AllFinite y) : IsFinite (dot x y) := by
  obtain ⟨a, rfl⟩ := allFinite_iff.mp hx
  obtain ⟨b, rfl⟩ := allFinite_iff.mp hy
  rw [dot_vec]
  exact isFinite_real _

end LogBarrier.Exact

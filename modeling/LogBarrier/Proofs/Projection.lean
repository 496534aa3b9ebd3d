import LogBarrier.Proofs.Nearest
import LogBarrier.Proofs.Starts

/-!
# Projection onto a box

The emptiness test, the feasibility test and the clamp of a box are three programs about one set.
For scalars whose comparison is transitive, infinite ends and `nan` included, the first two agree on
whether the set has points, and the clamp leads to it and moves no point of it. With exact
arithmetic the clamp takes a real point to the nearest one and no two points further apart.
-/

namespace LogBarrier

open Scalar Exact

/-! ## The three tests -/

section

variable {α : Type} [Scalar α]

namespace Interval

variable {I : Interval α} {x : α}

theorem not_isEmpty_iff [TransitiveScalar α] : ¬ I.IsEmpty ↔ ∃ v, I.Contains v := by
  rw [not_not]
  constructor
  · intro hle
    exact ⟨I.lower, OrderedScalar.le_refl_left hle, hle⟩
  · rintro ⟨v, hlower, hupper⟩
    exact TransitiveScalar.le_trans hlower hupper

theorem contains_of_same [TransitiveScalar α] {y : α} (h : I.Contains y) (hxy : Same y x) :
    I.Contains x :=
  ⟨TransitiveScalar.le_trans h.1 hxy.1, TransitiveScalar.le_trans hxy.2 h.2⟩

end Interval

namespace Box

variable {n : Nat} {B : Box α n} {x : Vector α n}

theorem firstEmpty?_eq_some_iff {i : Fin n} :
    B.firstEmpty? = some i ↔ (B.side i).IsEmpty ∧ ∀ j < i, ¬ (B.side j).IsEmpty := by
  rw [firstEmpty?, List.find?_eq_some_iff_getElem]
  constructor
  · rintro ⟨hi, k, hk, hget, hbefore⟩
    rw [List.getElem_finRange] at hget
    refine ⟨of_decide_eq_true hi, fun j hj => ?_⟩
    have hjk : j.val < k := by
      rw [← hget] at hj
      exact hj
    have h := hbefore j.val hjk
    rw [List.getElem_finRange] at h
    simpa using h
  · rintro ⟨hi, hbefore⟩
    refine ⟨decide_eq_true hi, i.val, by simp, by simp, fun j hj => ?_⟩
    rw [List.getElem_finRange]
    simpa using hbefore ⟨j, hj.trans i.isLt⟩ hj

theorem exists_feasible_iff [TransitiveScalar α] :
    (∃ x, B.Feasible x) ↔ ∀ i : Fin n, ¬ (B.side i).IsEmpty := by
  constructor
  · rintro ⟨x, hx⟩ i
    exact Interval.not_isEmpty_iff.mpr ⟨x.get i, hx i⟩
  · intro h
    choose v hv using fun i => Interval.not_isEmpty_iff.mp (h i)
    refine ⟨Vector.ofFn v, fun i => ?_⟩
    have hget : (Vector.ofFn v).get i = v i := Vector.getElem_ofFn i.isLt
    rw [hget]
    exact hv i

theorem project_of_feasible [OrderedScalar α] (hx : B.Feasible x) : B.project x = x := by
  refine ext_get fun i => ?_
  rw [get_project]
  exact Interval.clamp_of_contains (hx i)

/-- The three programs speak of one set of points: the emptiness test of whether it has any and
where it first fails to, the projection of a point that is its own exactly if it is in the set. -/
structure Consistent (B : Box α n) : Prop where
  none_iff : B.firstEmpty? = none ↔ ∃ x, B.Feasible x
  some_iff (i : Fin n) : B.firstEmpty? = some i ↔
    (∀ v, ¬ (B.side i).Contains v) ∧ ∀ j < i, ∃ v, (B.side j).Contains v
  feasible : B.firstEmpty? = none → ∀ x, AllNumbers x → B.Feasible (B.project x)
  idempotent : B.firstEmpty? = none → ∀ x, AllNumbers x → B.project (B.project x) = B.project x
  eq_iff : B.firstEmpty? = none → ∀ x, AllNumbers x → (B.project x = x ↔ B.Feasible x)
  same_iff : B.firstEmpty? = none → ∀ x, AllNumbers x →
    ((∀ i : Fin n, Same ((B.project x).get i) (x.get i)) ↔ B.Feasible x)

theorem consistent [TransitiveScalar α] (B : Box α n) : B.Consistent := by
  have hfeasible (h : B.firstEmpty? = none) (x : Vector α n) (hx : AllNumbers x) :
      B.Feasible (B.project x) :=
    feasible_project (firstEmpty?_eq_none_iff.mp h) hx
  refine ⟨?_, fun i => ?_, hfeasible, fun h x hx => ?_, fun h x hx => ?_, fun h x hx => ?_⟩
  · rw [firstEmpty?_eq_none_iff, exists_feasible_iff]
  · simp only [firstEmpty?_eq_some_iff, Interval.not_isEmpty_iff, ← not_exists]
    rw [← Interval.not_isEmpty_iff, not_not]
  · exact project_of_feasible (hfeasible h x hx)
  · constructor
    · intro heq
      have hproject := hfeasible h x hx
      rwa [heq] at hproject
    · exact project_of_feasible
  · constructor
    · intro hsame i
      exact Interval.contains_of_same (hfeasible h x hx i) (hsame i)
    · intro hfeas i
      rw [project_of_feasible hfeas]
      exact ⟨hx i, hx i⟩

end Box

end

/-! ## Distances -/

namespace Interval

variable {I : Interval Exact}

/-- A nonempty interval without real numbers is a single infinity. -/
theorem regular_or_infinite (hI : ¬ I.IsEmpty) :
    I.Regular ∨ I = ⟨.negInf, .negInf⟩ ∨ I = ⟨.posInf, .posInf⟩ := by
  by_cases hfixed : I.IsFixed
  · obtain ⟨l, u⟩ := I
    obtain rfl : l = u := Exact.le_antisymm hfixed.1 hfixed.2
    cases l with
    | nan => exact (not_nan_le _ hfixed.1).elim
    | negInf => exact .inr (.inl rfl)
    | real r => exact .inl (.between le_rfl)
    | posInf => exact .inr (.inr rfl)
  · exact .inl (regular_of_not_isFixed hI hfixed)

theorem regular_of_contains_real {r : ℝ} (h : I.Contains (real r)) : I.Regular := by
  obtain hI | rfl | rfl := regular_or_infinite (not_isEmpty_iff.mpr ⟨_, h⟩)
  · exact hI
  · exact h.2.elim
  · exact h.1.elim

/-- Clamping keeps distances or shortens them. An infinity to which everything is clamped has none
to itself. -/
theorem exists_clamp_eq_add (hI : ¬ I.IsEmpty) (r s : ℝ) :
    ∃ w, I.clamp (real r) = I.clamp (real s) + real w ∧ |w| ≤ |r - s| := by
  have hreal {p q : ℝ} (hp : I.clamp (real r) = real p) (hq : I.clamp (real s) = real q)
      (h : |p - q| ≤ |r - s|) :
      ∃ w, I.clamp (real r) = I.clamp (real s) + real w ∧ |w| ≤ |r - s| := by
    refine ⟨p - q, ?_, h⟩
    rw [hp, hq, real_add_real, add_sub_cancel]
  have hmax (l : ℝ) : |max l r - max l s| ≤ |r - s| := by
    rw [max_comm l r, max_comm l s]
    exact abs_max_sub_max_le_abs r s l
  have hmin (u p q : ℝ) : |min u p - min u q| ≤ |p - q| := by
    have h := abs_min_sub_min_le_max u p u q
    rwa [sub_self, abs_zero, max_eq_right (abs_nonneg _)] at h
  obtain hregular | rfl | rfl := regular_or_infinite hI
  · unfold clamp at hreal ⊢
    cases hregular with
    | free =>
      simp only [raise_negInf, cut_posInf] at hreal ⊢
      exact hreal rfl rfl le_rfl
    | above l =>
      simp only [raise_real, cut_posInf] at hreal ⊢
      exact hreal rfl rfl (hmax l)
    | below u =>
      simp only [raise_negInf, cut_real] at hreal ⊢
      exact hreal rfl rfl (hmin u r s)
    | @between l u hle =>
      simp only [raise_real, cut_real] at hreal ⊢
      exact hreal rfl rfl ((hmin u _ _).trans (hmax l))
  · have hclamp (t : ℝ) : (⟨.negInf, .negInf⟩ : Interval Exact).clamp (real t) = .negInf := by
      rw [clamp, raise_negInf]
      exact if_pos trivial
    refine ⟨0, ?_, by rw [abs_zero]; exact abs_nonneg _⟩
    rw [hclamp, hclamp]
    rfl
  · have hclamp (t : ℝ) : (⟨.posInf, .posInf⟩ : Interval Exact).clamp (real t) = .posInf := by
      have hraise : raise .posInf (real t) = .posInf := if_pos trivial
      rw [clamp, hraise]
      exact if_neg id
    refine ⟨0, ?_, by rw [abs_zero]; exact abs_nonneg _⟩
    rw [hclamp, hclamp]
    rfl

end Interval

variable {n : ℕ}

theorem Exact.length_le_length {a b : Fin n → ℝ} (h : ∀ i, |a i| ≤ |b i|) :
    length a ≤ length b := by
  refine Real.sqrt_le_sqrt (Finset.sum_le_sum fun i _ => ?_)
  rw [← abs_mul_abs_self (a i), ← abs_mul_abs_self (b i)]
  exact mul_self_le_mul_self (abs_nonneg _) (h i)

namespace Box

variable {B : Box Exact n}

theorem regular_of_feasible_vec {c : Fin n → ℝ} (h : B.Feasible (vec c)) : B.Regular := by
  intro i
  have hi := h i
  rw [get_vec] at hi
  exact Interval.regular_of_contains_real hi

theorem exists_project_eq_add (hB : ∀ i : Fin n, ¬ (B.side i).IsEmpty) (a b : Fin n → ℝ) :
    ∃ w, B.project (vec a) = B.project (vec b) + vec w ∧ length w ≤ length (a - b) := by
  choose w hw hle using fun i => Interval.exists_clamp_eq_add (hB i) (a i) (b i)
  refine ⟨w, ext_get fun i => ?_, length_le_length hle⟩
  have hadd : (B.project (vec b) + vec w).get i = (B.project (vec b)).get i + (vec w).get i :=
    Vector.getElem_add _ _ i.val i.isLt
  rw [hadd, get_project, get_project, get_vec, get_vec, get_vec]
  exact hw i

/-- The projection is the Euclidean one: what it takes away from `z` points away from every feasible
point, and it moves no two points apart. A coordinate that has no real value is the same infinity
for all points. -/
structure Euclidean (B : Box Exact n) : Prop where
  obtuse (z y : Fin n → ℝ) : B.Feasible (vec y) →
    dot (vec z - B.project (vec z)) (vec y - B.project (vec z)) ≤ 0
  nonexpansive (a b : Fin n → ℝ) : ∃ w, B.project (vec a) = B.project (vec b) + vec w ∧
    norm (vec w) ≤ norm (vec a - vec b)
  norm_sub_le (a b : Fin n → ℝ) : (∃ y, B.Feasible (vec y)) →
    norm (B.project (vec a) - B.project (vec b)) ≤ norm (vec a - vec b)

theorem euclidean (h : B.firstEmpty? = none) : B.Euclidean := by
  have hspread (a b : Fin n → ℝ) : ∃ w, B.project (vec a) = B.project (vec b) + vec w ∧
      norm (vec w) ≤ norm (vec a - vec b) := by
    obtain ⟨w, hw, hle⟩ := exists_project_eq_add (firstEmpty?_eq_none_iff.mp h) a b
    refine ⟨w, hw, ?_⟩
    rw [vec_sub_vec, norm_vec, norm_vec]
    exact hle
  refine ⟨fun z y hy => ?_, hspread, fun a b ⟨y, hy⟩ => ?_⟩
  · have hB := regular_of_feasible_vec hy
    rw [hB.project_vec, vec_sub_vec, vec_sub_vec, dot_vec]
    exact hB.project_obtuse (hB.project_vec z) hy
  · have hB := regular_of_feasible_vec hy
    obtain ⟨w, hw, hle⟩ := hspread a b
    have hsub : B.project (vec a) - B.project (vec b) = vec w := by
      rw [hw, hB.project_vec, vec_add_vec, vec_sub_vec, add_sub_cancel_left]
    rwa [hsub]

/-- For every box, with ends that may be infinite or `nan` and for doubles and exact scalars alike,
the emptiness test, the feasibility test and the projection describe one set, and over the real
numbers the projection is the Euclidean one. -/
theorem project_onto_feasible :
    (∀ {α : Type} [Scalar α] [TransitiveScalar α] {n : ℕ} (B : Box α n), B.Consistent) ∧
      ∀ {n : ℕ} (B : Box Exact n), B.firstEmpty? = none → B.Euclidean :=
  ⟨fun B => B.consistent, fun _ h => euclidean h⟩

/-- A quarter of the plane, and doubles of which the third side has no upper end. -/
theorem project_onto_feasible_quarter :
    let doubles : Box Float 3 :=
      between #v[0, -Scalar.inf, 1] #v[Scalar.inf, -Scalar.inf, Scalar.nan]
    let quarter : Box Exact 2 := between #v[.real 0, .negInf] #v[.posInf, .real 0]
    doubles.firstEmpty? = some 2 ∧ doubles.Consistent ∧
      quarter.firstEmpty? = none ∧ quarter.Euclidean := by
  have hquarter : (between #v[Exact.real 0, .negInf] #v[.posInf, .real 0]).firstEmpty? = none :=
    firstEmpty?_eq_none_iff.mpr fun i => by
      rw [side_between]
      refine not_not.mpr ?_
      fin_cases i <;> trivial
  exact ⟨by decide +kernel, project_onto_feasible.1 _, hquarter,
    project_onto_feasible.2 _ hquarter⟩

end Box

end LogBarrier

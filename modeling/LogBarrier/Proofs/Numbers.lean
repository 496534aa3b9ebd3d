import LogBarrier.Box
import LogBarrier.Double.Nan
import LogBarrier.Proofs.Order

/-!
# Numbers and nan

Which results are numbers. Sums, differences and products with `nan` are `nan`, for doubles and
exact scalars alike, so a number tells of what it was computed from; an inner product that is a
number tells of all entries of both vectors. Clamping moves every number into a nonempty interval
and leaves `nan` alone.
-/

namespace LogBarrier

namespace Scalar

variable {α : Type} [Scalar α] {n : Nat}

/-- Anything but `nan`. -/
abbrev IsNumber (x : α) : Prop := x ≤ x

end Scalar

open Scalar

/-- No entry is `nan`. -/
def AllNumbers {α : Type} [Scalar α] {n : Nat} (x : Vector α n) : Prop :=
  ∀ i : Fin n, IsNumber (x.get i)

instance {α : Type} [Scalar α] {n : Nat} (x : Vector α n) : Decidable (AllNumbers x) :=
  inferInstanceAs (Decidable (∀ i : Fin n, IsNumber (x.get i)))

/-- Scalars whose operations answer `nan` to `nan`. -/
class StrictScalar (α : Type) [Scalar α] : Prop where
  isNumber_of_add {x y : α} : IsNumber (x + y) → IsNumber x ∧ IsNumber y
  isNumber_of_sub {x y : α} : IsNumber (x - y) → IsNumber x ∧ IsNumber y
  isNumber_of_mul {x y : α} : IsNumber (x * y) → IsNumber x ∧ IsNumber y

namespace Exact

variable {x y : Exact}

theorem isNumber_iff : IsNumber x ↔ x ≠ nan := by
  constructor
  · rintro h rfl
    exact not_nan_le nan h
  · exact le_refl_of_ne

theorem nan_add (x : Exact) : nan + x = nan := rfl

theorem add_nan (x : Exact) : x + nan = nan := by
  cases x <;> rfl

theorem nan_mul (x : Exact) : nan * x = nan := rfl

theorem mul_nan (x : Exact) : x * nan = nan := by
  cases x <;> rfl

theorem isNumber_of_add (h : IsNumber (x + y)) : IsNumber x ∧ IsNumber y := by
  rw [isNumber_iff] at h
  constructor
  · refine isNumber_iff.mpr ?_
    rintro rfl
    exact h (nan_add y)
  · refine isNumber_iff.mpr ?_
    rintro rfl
    exact h (add_nan x)

theorem isNumber_of_neg (h : IsNumber (-x)) : IsNumber x := by
  cases x with
  | nan => exact h
  | _ => exact le_refl_of_ne (by simp)

instance : StrictScalar Exact where
  isNumber_of_add := isNumber_of_add
  isNumber_of_sub h := by
    obtain ⟨hx, hy⟩ := isNumber_of_add h
    exact ⟨hx, isNumber_of_neg hy⟩
  isNumber_of_mul {x y} h := by
    rw [isNumber_iff] at h
    constructor
    · refine isNumber_iff.mpr ?_
      rintro rfl
      exact h (nan_mul y)
    · refine isNumber_iff.mpr ?_
      rintro rfl
      exact h (mul_nan x)

end Exact

namespace Double

theorem isNumber_iff {x : Float} : IsNumber x ↔ x.toModel.unpack ≠ .notANumber := by
  constructor
  · intro h
    exact (ne_nan_of_le h).1
  · exact le_refl_of_ne_nan

end Double

instance : StrictScalar Float where
  isNumber_of_add h := by
    obtain ⟨hx, hy⟩ := Double.ne_nan_of_add (Double.isNumber_iff.mp h)
    exact ⟨Double.isNumber_iff.mpr hx, Double.isNumber_iff.mpr hy⟩
  isNumber_of_sub h := by
    obtain ⟨hx, hy⟩ := Double.ne_nan_of_sub (Double.isNumber_iff.mp h)
    exact ⟨Double.isNumber_iff.mpr hx, Double.isNumber_iff.mpr hy⟩
  isNumber_of_mul h := by
    obtain ⟨hx, hy⟩ := Double.ne_nan_of_mul (Double.isNumber_iff.mp h)
    exact ⟨Double.isNumber_iff.mpr hx, Double.isNumber_iff.mpr hy⟩

/-! ## Vectors -/

section

variable {α : Type} [Scalar α] {n : Nat} {P : α → Prop}

/-- What a sum has only if both parts have it, a sum of many has only if all of them do. -/
theorem forall_of_foldl_add (hadd : ∀ {x y : α}, P (x + y) → P x ∧ P y) {l : List α} {c : α}
    (h : P (l.foldl (· + ·) c)) : P c ∧ ∀ t ∈ l, P t := by
  induction l generalizing c with
  | nil => exact ⟨h, by simp⟩
  | cons t l ih =>
    rw [List.foldl_cons] at h
    obtain ⟨hsum, hl⟩ := ih h
    obtain ⟨hc, ht⟩ := hadd hsum
    refine ⟨hc, fun u hu => ?_⟩
    rcases List.mem_cons.mp hu with rfl | hu
    · exact ht
    · exact hl u hu

theorem forall_of_dot (hadd : ∀ {x y : α}, P (x + y) → P x ∧ P y)
    (hmul : ∀ {x y : α}, P (x * y) → P x ∧ P y) {x y : Vector α n} (h : P (dot x y)) :
    (∀ i : Fin n, P (x.get i)) ∧ ∀ i : Fin n, P (y.get i) := by
  unfold dot at h
  rw [← Vector.foldl_toList] at h
  have hprod (i : Fin n) : P (x.get i * y.get i) := by
    refine (forall_of_foldl_add hadd h).2 _ ?_
    rw [Vector.mem_toList_iff, Vector.mem_iff_getElem]
    exact ⟨i, i.isLt, Vector.getElem_zipWith i.isLt⟩
  exact ⟨fun i => (hmul (hprod i)).1, fun i => (hmul (hprod i)).2⟩

end

section

variable {α : Type} [Scalar α] [StrictScalar α] {n : Nat}

theorem allNumbers_of_dot {x y : Vector α n} (h : IsNumber (dot x y)) :
    AllNumbers x ∧ AllNumbers y :=
  forall_of_dot StrictScalar.isNumber_of_add StrictScalar.isNumber_of_mul h

theorem allNumbers_of_sub {x y : Vector α n} (h : AllNumbers (x - y)) :
    AllNumbers x ∧ AllNumbers y := by
  have hentry (i : Fin n) : IsNumber (x.get i - y.get i) := by
    have hi : IsNumber ((x - y)[i.val]) := h i
    rwa [Vector.getElem_sub] at hi
  exact ⟨fun i => (StrictScalar.isNumber_of_sub (hentry i)).1,
    fun i => (StrictScalar.isNumber_of_sub (hentry i)).2⟩

end

/-! ## Clamping -/

section

variable {α : Type} [Scalar α] [OrderedScalar α] {n : Nat}

namespace Interval

variable {I : Interval α} {x : α}

theorem isNumber_of_clamp (h : IsNumber (I.clamp x)) : IsNumber x := by
  by_contra hx
  have hraise : raise I.lower x = x := if_neg fun hlt =>
    hx (OrderedScalar.le_refl_left (OrderedScalar.le_of_lt hlt))
  have hcut : cut I.upper x = x := if_neg fun hlt => hx (OrderedScalar.refl_of_lt hlt)
  rw [clamp, hraise, hcut] at h
  exact hx h

theorem clamp_of_contains (h : I.Contains x) : I.clamp x = x := by
  have hlower : ¬ x < I.lower := fun hlt => OrderedScalar.not_le_of_lt hlt h.1
  have hupper : ¬ I.upper < x := fun hlt => OrderedScalar.not_le_of_lt hlt h.2
  rw [clamp, raise, if_neg hlower, cut, if_neg hupper]

theorem le_raise {b : α} (hb : IsNumber b) (hx : IsNumber x) :
    b ≤ raise b x ∧ IsNumber (raise b x) := by
  unfold raise
  split
  · exact ⟨hb, hb⟩
  · rename_i hnot
    rcases OrderedScalar.le_total hb hx with hle | hge
    · exact ⟨hle, hx⟩
    · by_cases hle : b ≤ x
      · exact ⟨hle, hx⟩
      · exact absurd (OrderedScalar.lt_iff_le_not_le.mpr ⟨hge, hle⟩) hnot

theorem contains_clamp (hI : ¬ I.IsEmpty) (hx : IsNumber x) : I.Contains (I.clamp x) := by
  have hle : I.lower ≤ I.upper := not_not.mp hI
  obtain ⟨hraise, hnumber⟩ := le_raise (OrderedScalar.le_refl_left hle) hx
  unfold clamp cut
  split
  · exact ⟨hle, OrderedScalar.le_refl_right hle⟩
  · rename_i hnot
    refine ⟨hraise, ?_⟩
    by_contra hgt
    exact hnot (OrderedScalar.lt_of_not_le (OrderedScalar.le_refl_right hle) hnumber hgt)

end Interval

namespace Box

variable {B : Box α n} {x : Vector α n}

theorem feasible_project (hB : ∀ i : Fin n, ¬ (B.side i).IsEmpty) (hx : AllNumbers x) :
    B.Feasible (B.project x) := by
  intro i
  rw [get_project]
  exact Interval.contains_clamp (hB i) (hx i)

theorem allNumbers_of_project (h : AllNumbers (B.project x)) : AllNumbers x := by
  intro i
  have hi := h i
  rw [get_project] at hi
  exact Interval.isNumber_of_clamp hi

end Box

end

end LogBarrier

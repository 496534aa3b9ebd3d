import LogBarrier.Proofs.Interior
import LogBarrier.Proofs.Numbers
import LogBarrier.Proofs.Reflection

/-!
# Reflected vectors and boxes

With exact arithmetic, vector arithmetic commutes with a reflection, inner products and norms do not
see it, and moving a point into a box leads to the reflected point. Both ends of an interval change
places, so the order in which a point is kept away from them must not matter.
-/

namespace LogBarrier

open Scalar

variable {n : ℕ}

/-! ## Signs -/

namespace Exact

variable {x y : Exact}

protected theorem neg_neg (x : Exact) : - -x = x := by
  cases x with
  | real a => exact congrArg real (neg_neg a)
  | _ => rfl

protected theorem neg_zero : -(0 : Exact) = 0 := congrArg real neg_zero

protected theorem add_comm (x y : Exact) : x + y = y + x := by
  cases x <;> cases y
  case real.real a b => exact congrArg real (add_comm a b)
  all_goals rfl

protected theorem neg_add (x y : Exact) : -(x + y) = -x + -y := by
  cases x <;> cases y
  case real.real a b => exact congrArg real (neg_add a b)
  all_goals rfl

protected theorem sub_eq_add_neg (x y : Exact) : x - y = x + -y := rfl

protected theorem neg_sub (x y : Exact) : -(x - y) = -x + y := by
  rw [Exact.sub_eq_add_neg, Exact.neg_add, Exact.neg_neg]

protected theorem neg_sub_neg (x y : Exact) : -x - -y = y - x := by
  rw [Exact.sub_eq_add_neg, Exact.neg_neg, Exact.add_comm, ← Exact.sub_eq_add_neg]

theorem scaledInf_neg (a : ℝ) : scaledInf (-a) = -scaledInf a := by
  unfold scaledInf
  rcases lt_trichotomy a 0 with h | rfl | h
  · rw [if_pos (neg_pos.mpr h), if_neg h.not_gt, if_pos h]
    rfl
  · rw [neg_zero, if_neg (lt_irrefl _), if_neg (lt_irrefl _)]
    rfl
  · rw [if_neg (neg_neg_iff_pos.mpr h).not_gt, if_pos (neg_neg_iff_pos.mpr h), if_pos h]
    rfl

protected theorem mul_comm (x y : Exact) : x * y = y * x := by
  cases x <;> cases y
  case real.real a b => exact congrArg real (mul_comm a b)
  all_goals rfl

protected theorem mul_neg (x y : Exact) : x * -y = -(x * y) := by
  cases x <;> cases y
  case real.real a b => exact congrArg real (mul_neg a b)
  case real.posInf a => exact scaledInf_neg a
  case real.negInf a =>
    show scaledInf a = -scaledInf (-a)
    rw [scaledInf_neg, Exact.neg_neg]
  case posInf.real b => exact scaledInf_neg b
  case negInf.real b => exact scaledInf_neg (-b)
  all_goals rfl

protected theorem neg_mul_neg (x y : Exact) : -x * -y = x * y := by
  rw [Exact.mul_neg, Exact.mul_comm, Exact.mul_neg, Exact.neg_neg, Exact.mul_comm]

protected theorem neg_le_neg_iff : -x ≤ -y ↔ y ≤ x := by
  cases x <;> cases y
  case real.real a b => exact neg_le_neg_iff (a := a) (b := b)
  all_goals exact Iff.rfl

protected theorem neg_lt_neg_iff : -x < -y ↔ y < x := by
  rw [lt_iff_le_not_le, lt_iff_le_not_le, Exact.neg_le_neg_iff, Exact.neg_le_neg_iff]

theorem isFinite_neg_iff : IsFinite (-x) ↔ IsFinite x := by
  constructor
  · intro h
    rw [← Exact.neg_neg x]
    exact isFinite_neg h
  · exact isFinite_neg

theorem magnitude_neg (x : Exact) : magnitude (-x) = magnitude x := by
  cases x with
  | real a => rw [neg_real, magnitude_real, magnitude_real, abs_neg]
  | nan => rfl
  | negInf => exact (if_neg id).trans (if_pos trivial).symm
  | posInf => exact (if_pos trivial).trans (if_neg id).symm

end Exact

open Exact

/-! ## Intervals -/

namespace Interval

variable {I : Interval Exact} {x g : Exact}

theorem isEmpty_opposite : I.opposite.IsEmpty ↔ I.IsEmpty :=
  not_congr Exact.neg_le_neg_iff

theorem isFixed_opposite : I.opposite.IsFixed ↔ I.IsFixed :=
  and_congr Exact.neg_le_neg_iff Exact.neg_le_neg_iff

theorem isOneSided_opposite : I.opposite.IsOneSided ↔ I.IsOneSided := by
  have hlower : IsFinite I.opposite.lower ↔ IsFinite I.upper := isFinite_neg_iff
  have hupper : IsFinite I.opposite.upper ↔ IsFinite I.lower := isFinite_neg_iff
  refine (or_congr (and_congr hlower (not_congr hupper))
    (and_congr (not_congr hlower) hupper)).trans ?_
  exact or_comm.trans (or_congr and_comm and_comm)

theorem raise_neg (b x : Exact) : raise (-b) (-x) = -cut b x := by
  unfold raise cut
  by_cases h : b < x
  · rw [if_pos h, if_pos (Exact.neg_lt_neg_iff.mpr h)]
  · rw [if_neg h, if_neg (mt Exact.neg_lt_neg_iff.mp h)]

theorem cut_neg (b x : Exact) : cut (-b) (-x) = -raise b x := by
  unfold raise cut
  by_cases h : x < b
  · rw [if_pos h, if_pos (Exact.neg_lt_neg_iff.mpr h)]
  · rw [if_neg h, if_neg (mt Exact.neg_lt_neg_iff.mp h)]

/-- Between two bounds in order it does not matter which one comes first. -/
theorem raise_cut_comm {b c : Exact} (h : b ≤ c) (x : Exact) :
    raise b (cut c x) = cut c (raise b x) := by
  -- No number is beyond both of them, and neither bound is beyond the other.
  have hnot : ¬ c < b := fun hlt => (lt_iff_le_not_le.mp hlt).2 h
  unfold raise cut
  by_cases hcx : c < x
  · have hbx : ¬ x < b := by
      intro hxb
      exact (lt_iff_le_not_le.mp (Exact.lt_of_le_of_lt h hcx)).2 (lt_iff_le_not_le.mp hxb).1
    rw [if_pos hcx, if_neg hnot, if_neg hbx, if_pos hcx]
  · rw [if_neg hcx]
    by_cases hxb : x < b
    · rw [if_pos hxb, if_neg hnot]
    · rw [if_neg hxb, if_neg hcx]

theorem clamp_opposite (hI : ¬ I.IsEmpty) (x : Exact) :
    I.opposite.clamp (-x) = -I.clamp x := by
  show cut (-I.lower) (raise (-I.upper) (-x)) = _
  rw [raise_neg, cut_neg, raise_cut_comm (not_not.mp hI)]
  rfl

theorem margin_opposite (b c : Exact) : I.opposite.margin (-b) (-c) = I.margin b c := by
  have hwidth : I.opposite.upper - I.opposite.lower = I.upper - I.lower :=
    Exact.neg_sub_neg I.lower I.upper
  unfold margin
  rw [magnitude_neg, hwidth]
  by_cases hc : IsFinite c
  · rw [if_pos hc, if_pos (isFinite_neg_iff.mpr hc)]
  · rw [if_neg hc, if_neg (mt isFinite_neg_iff.mp hc)]

/-- The margins of both ends leave room for each other. -/
theorem inset_bounds_le (hI : ¬ I.IsEmpty) (hlower : IsFinite I.lower)
    (hupper : IsFinite I.upper) :
    I.lower + I.margin I.lower I.upper ≤ I.upper - I.margin I.upper I.lower := by
  obtain ⟨lower, upper⟩ := I
  obtain ⟨l, rfl⟩ := isFinite_iff.mp hlower
  obtain ⟨u, rfl⟩ := isFinite_iff.mp hupper
  have hle : l ≤ u := not_not.mp hI
  rw [margin_between, margin_between, real_add_real, real_sub_real, real_le_real]
  have hleft := min_le_right (wideMargin l) (0.01 * (u - l))
  have hright := min_le_right (wideMargin u) (0.01 * (u - l))
  linarith

theorem inset_opposite (hI : ¬ I.IsEmpty) (x : Exact) :
    I.opposite.inset (-x) = -I.inset x := by
  -- A fixed variable is put at its lower end, which is the upper end of the turned interval.
  by_cases hfixed : I.IsFixed
  · have hends : I.lower = I.upper := Exact.le_antisymm hfixed.1 hfixed.2
    rw [inset_of_fixed hfixed, inset_of_fixed (isFixed_opposite.mpr hfixed), hends]
    rfl
  have hraise : I.opposite.lower + I.opposite.margin I.opposite.lower I.opposite.upper =
      -(I.upper - I.margin I.upper I.lower) := by
    rw [Exact.neg_sub]
    exact congrArg (-I.upper + ·) (margin_opposite ..)
  have hcut : I.opposite.upper - I.opposite.margin I.opposite.upper I.opposite.lower =
      -(I.lower + I.margin I.lower I.upper) := by
    rw [Exact.neg_add]
    exact congrArg (-I.lower - ·) (margin_opposite ..)
  unfold inset
  rw [if_neg hfixed, if_neg (mt isFixed_opposite.mp hfixed), hraise, hcut]
  have hlower : IsFinite I.opposite.lower ↔ IsFinite I.upper := isFinite_neg_iff
  have hupper : IsFinite I.opposite.upper ↔ IsFinite I.lower := isFinite_neg_iff
  by_cases hl : IsFinite I.lower
  · by_cases hu : IsFinite I.upper
    · rw [if_pos hl, if_pos hu, if_pos (hlower.mpr hu), if_pos (hupper.mpr hl), raise_neg,
        cut_neg, raise_cut_comm (inset_bounds_le hI hl hu)]
    · rw [if_pos hl, if_neg hu, if_neg (mt hlower.mp hu), if_pos (hupper.mpr hl), cut_neg]
  · by_cases hu : IsFinite I.upper
    · rw [if_neg hl, if_pos hu, if_pos (hlower.mpr hu), if_neg (mt hupper.mp hl), raise_neg]
    · rw [if_neg hl, if_neg hu, if_neg (mt hlower.mp hu), if_neg (mt hupper.mp hl)]

theorem holds_opposite : I.opposite.Holds (-x) (-g) ↔ I.Holds x g := by
  have hneg : -g < -0 ↔ 0 < g := Exact.neg_lt_neg_iff
  have hpos : -0 < -g ↔ g < 0 := Exact.neg_lt_neg_iff
  rw [Exact.neg_zero] at hneg hpos
  have hlower : -x ≤ I.opposite.lower ↔ I.upper ≤ x := Exact.neg_le_neg_iff
  have hupper : I.opposite.upper ≤ -x ↔ x ≤ I.lower := Exact.neg_le_neg_iff
  exact (or_congr (and_congr hlower hpos) (and_congr hupper hneg)).trans or_comm

end Interval

namespace Reflection

variable (R : Reflection) {i : ℕ}

/-! ## Entries -/

theorem entry_entry (i : ℕ) (t : Exact) : R.entry i (R.entry i t) = t := by
  unfold entry
  split
  · exact Exact.neg_neg t
  · rfl

theorem entry_zero (i : ℕ) : R.entry i (0 : Exact) = 0 := by
  unfold entry
  split
  · exact Exact.neg_zero
  · rfl

theorem entry_neg (i : ℕ) (t : Exact) : R.entry i (-t) = -R.entry i t := by
  unfold entry
  split <;> rfl

theorem entry_add (i : ℕ) (s t : Exact) : R.entry i (s + t) = R.entry i s + R.entry i t := by
  unfold entry
  split
  · exact Exact.neg_add s t
  · rfl

theorem entry_sub (i : ℕ) (s t : Exact) : R.entry i (s - t) = R.entry i s - R.entry i t := by
  rw [Exact.sub_eq_add_neg, entry_add, entry_neg]
  rfl

theorem entry_mul (i : ℕ) (c t : Exact) : R.entry i (c * t) = c * R.entry i t := by
  unfold entry
  split
  · exact (Exact.mul_neg c t).symm
  · rfl

theorem entry_mul_entry (i : ℕ) (s t : Exact) : R.entry i s * R.entry i t = s * t := by
  unfold entry
  split
  · exact Exact.neg_mul_neg s t
  · rfl

theorem magnitude_entry (i : ℕ) (t : Exact) : magnitude (R.entry i t) = magnitude t := by
  unfold entry
  split
  · exact magnitude_neg t
  · rfl

theorem isFinite_entry_iff {t : Exact} : IsFinite (R.entry i t) ↔ IsFinite t := by
  unfold entry
  split
  · exact isFinite_neg_iff
  · exact Iff.rfl

variable {I : Interval Exact} {x g : Exact}

theorem isEmpty_interval : (R.interval i I).IsEmpty ↔ I.IsEmpty := by
  unfold interval
  split
  · exact Interval.isEmpty_opposite
  · exact Iff.rfl

theorem isFixed_interval : (R.interval i I).IsFixed ↔ I.IsFixed := by
  unfold interval
  split
  · exact Interval.isFixed_opposite
  · exact Iff.rfl

theorem isOneSided_interval : (R.interval i I).IsOneSided ↔ I.IsOneSided := by
  unfold interval
  split
  · exact Interval.isOneSided_opposite
  · exact Iff.rfl

theorem clamp_interval (hI : ¬ I.IsEmpty) :
    (R.interval i I).clamp (R.entry i x) = R.entry i (I.clamp x) := by
  unfold interval entry
  split
  · exact Interval.clamp_opposite hI x
  · rfl

theorem inset_interval (hI : ¬ I.IsEmpty) :
    (R.interval i I).inset (R.entry i x) = R.entry i (I.inset x) := by
  unfold interval entry
  split
  · exact Interval.inset_opposite hI x
  · rfl

theorem holds_interval :
    (R.interval i I).Holds (R.entry i x) (R.entry i g) ↔ I.Holds x g := by
  unfold interval entry
  split
  · exact Interval.holds_opposite
  · exact Iff.rfl

/-! ## Vectors -/

section

variable (x y : Vector Exact n)

theorem array_array (xs : Array Exact) : R.array (R.array xs) = xs := by
  unfold array
  refine Array.ext (by simp) fun i _ _ => ?_
  rw [Array.getElem_mapIdx, Array.getElem_mapIdx, entry_entry]

theorem vector_zero : R.vector (0 : Vector Exact n) = 0 := by
  refine ext_get fun i => ?_
  have hzero : (0 : Vector Exact n).get i = 0 := Vector.getElem_replicate i.isLt
  rw [get_vector, hzero, entry_zero]

variable {x y}

theorem vector_map {op : Exact → Exact} (h : ∀ i t, R.entry i (op t) = op (R.entry i t)) :
    R.vector (x.map op) = (R.vector x).map op := by
  refine ext_get fun i => ?_
  have hleft : (x.map op).get i = op (x.get i) := Vector.getElem_map ..
  have hright : ((R.vector x).map op).get i = op ((R.vector x).get i) := Vector.getElem_map ..
  rw [get_vector, hleft, hright, get_vector, h]

theorem vector_zipWith {op : Exact → Exact → Exact}
    (h : ∀ i s t, R.entry i (op s t) = op (R.entry i s) (R.entry i t)) :
    R.vector (x.zipWith op y) = (R.vector x).zipWith op (R.vector y) := by
  refine ext_get fun i => ?_
  have hleft : (x.zipWith op y).get i = op (x.get i) (y.get i) := Vector.getElem_zipWith i.isLt
  have hright : ((R.vector x).zipWith op (R.vector y)).get i =
      op ((R.vector x).get i) ((R.vector y).get i) := Vector.getElem_zipWith i.isLt
  rw [get_vector, hleft, hright, get_vector, get_vector, h]

variable (x y)

theorem vector_neg : R.vector (-x) = -R.vector x := R.vector_map R.entry_neg

theorem vector_add : R.vector (x + y) = R.vector x + R.vector y := R.vector_zipWith R.entry_add

theorem vector_sub : R.vector (x - y) = R.vector x - R.vector y := R.vector_zipWith R.entry_sub

theorem vector_mul (c : Exact) : R.vector (c * x) = c * R.vector x :=
  R.vector_map fun i t => R.entry_mul i c t

/-- In every product of two entries the signs cancel. -/
@[simp] theorem dot_vector : dot (R.vector x) (R.vector y) = dot x y := by
  have hprod : (R.vector x).zipWith (· * ·) (R.vector y) = x.zipWith (· * ·) y := by
    refine ext_get fun i => ?_
    have hleft : ((R.vector x).zipWith (· * ·) (R.vector y)).get i =
        (R.vector x).get i * (R.vector y).get i := Vector.getElem_zipWith i.isLt
    have hright : (x.zipWith (· * ·) y).get i = x.get i * y.get i :=
      Vector.getElem_zipWith i.isLt
    rw [hleft, hright, get_vector, get_vector, entry_mul_entry]
  unfold dot
  rw [hprod]

theorem energy_vector (c : Exact) : energy c (R.vector x) = energy c x := by
  unfold energy
  rw [← vector_mul, dot_vector]

@[simp] theorem norm_vector : norm (R.vector x) = norm x := by
  unfold norm
  simp only [energy_vector]

@[simp] theorem maxAbs_vector : maxAbs (R.vector x) = maxAbs x := by
  have hmap (y : Vector Exact n) :
      maxAbs y = (y.map magnitude).foldl Scalar.max 0 := Vector.foldl_map.symm
  have hsame : (R.vector x).map magnitude = x.map magnitude := by
    refine ext_get fun i => ?_
    have hleft : ((R.vector x).map magnitude).get i = magnitude ((R.vector x).get i) :=
      Vector.getElem_map ..
    have hright : (x.map magnitude).get i = magnitude (x.get i) := Vector.getElem_map ..
    rw [hleft, hright, get_vector, magnitude_entry]
  rw [hmap, hmap, hsame]

variable {x}

theorem allFinite_vector_iff : AllFinite (R.vector x) ↔ AllFinite x := by
  refine forall_congr' fun i => ?_
  rw [get_vector, isFinite_entry_iff]

theorem allFinite_array_iff {xs : Array Exact} :
    AllFinite (R.array xs).toVector ↔ AllFinite xs.toVector := by
  have hsame : AllFinite (R.array xs).toVector ↔ AllFinite (R.vector xs.toVector) := by
    constructor
    · intro h i
      exact h ⟨i, i.isLt.trans_eq (R.size_array xs).symm⟩
    · intro h i
      exact h ⟨i, i.isLt.trans_eq (R.size_array xs)⟩
  rw [hsame, allFinite_vector_iff]

end

/-! ## Boxes -/

section

variable {B : Box Exact n} (hB : ∀ i : Fin n, ¬ (B.side i).IsEmpty) (x g v : Vector Exact n)

include hB in
theorem project_vector : (R.box B).project (R.vector x) = R.vector (B.project x) := by
  refine ext_get fun i => ?_
  rw [Box.get_project, side_box, get_vector, clamp_interval R (hB i), get_vector, Box.get_project]

include hB in
theorem inset_vector : (R.box B).inset (R.vector x) = R.vector (B.inset x) := by
  refine ext_get fun i => ?_
  rw [Box.get_inset, side_box, get_vector, inset_interval R (hB i), get_vector, Box.get_inset]

include hB in
theorem project_sub_vector :
    (R.box B).project (R.vector x - R.vector g) = R.vector (B.project (x - g)) := by
  rw [← vector_sub, R.project_vector hB]

include hB in
theorem residual_vector :
    (R.box B).residual (R.vector x) (R.vector g) = R.vector (B.residual x g) := by
  unfold Box.residual
  rw [R.project_sub_vector hB, ← vector_sub]

theorem freePart_vector :
    (R.box B).freePart (R.vector x) (R.vector g) (R.vector v) = R.vector (B.freePart x g v) := by
  refine ext_get fun i => ?_
  have hget (C : Box Exact n) (x g v : Vector Exact n) : (C.freePart x g v).get i =
      if (C.side i).Holds (x.get i) (g.get i) then 0 else v.get i := Vector.getElem_ofFn i.isLt
  rw [get_vector, hget, hget, side_box, get_vector, get_vector, get_vector]
  by_cases h : (B.side i).Holds (x.get i) (g.get i)
  · rw [if_pos h, if_pos (R.holds_interval.mpr h), entry_zero]
  · rw [if_neg h, if_neg (mt R.holds_interval.mp h)]

theorem firstEmpty?_box (B : Box Exact n) : (R.box B).firstEmpty? = B.firstEmpty? := by
  unfold Box.firstEmpty?
  simp only [side_box, isEmpty_interval]

theorem fixed_box (B : Box Exact n) : (R.box B).fixed = B.fixed := by
  unfold Box.fixed
  simp only [side_box, isFixed_interval]

theorem oneSided_box (B : Box Exact n) : (R.box B).oneSided = B.oneSided := by
  unfold Box.oneSided
  simp only [side_box, isOneSided_interval]

theorem opening_box (B : Box Exact n) (xs : Array Exact) :
    (R.box B).opening (R.array xs) = (B.opening xs).map R.vector := by
  unfold Box.opening
  rw [firstEmpty?_box]
  by_cases h : xs.size = n
  · subst h
    rw [dif_pos (R.size_array xs), dif_pos rfl]
    cases hempty : B.firstEmpty? with
    | some i => rfl
    | none => exact congrArg Except.ok (R.inset_vector (Box.firstEmpty?_eq_none_iff.mp hempty) ⟨xs, rfl⟩)
  · rw [dif_neg h, dif_neg (by rwa [size_array]), size_array]
    rfl

end

end Reflection

end LogBarrier

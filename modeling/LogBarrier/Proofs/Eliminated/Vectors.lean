import LogBarrier.Exact.Vector
import LogBarrier.Proofs.Elimination
import Mathlib.Data.Fin.SuccPred
import Mathlib.Data.List.FinRange

/-!
# Vectors and boxes without a fixed variable

Arithmetic, projection and the push to the inside go coordinate by coordinate, so they commute with
the loss of one coordinate. Sums and norms do not see it either, if the entry that is lost counts
for nothing: at a point where the variable has its value, this is so for every step along the
projection of a ray.
-/

namespace LogBarrier

open Scalar Exact

variable {α β γ : Type} {n : ℕ}

/-! ## Lists without one element -/

section

variable {l : List α} {i : ℕ} (hi : i < l.length)

include hi in
/-- A fold that the element does not move. -/
theorem foldl_eraseIdx {op : β → α → β} {b : β}
    (h : op ((l.take i).foldl op b) l[i] = (l.take i).foldl op b) :
    (l.eraseIdx i).foldl op b = l.foldl op b := by
  calc (l.eraseIdx i).foldl op b
      = (l.drop (i + 1)).foldl op ((l.take i).foldl op b) := by
        rw [List.eraseIdx_eq_take_drop_succ, List.foldl_append]
    _ = (l[i] :: l.drop (i + 1)).foldl op ((l.take i).foldl op b) := by rw [List.foldl_cons, h]
    _ = l.foldl op b := by
        rw [← List.drop_eq_getElem_cons hi, ← List.foldl_append, List.take_append_drop]

theorem foldlM_eraseIdx {op : β → α → Option β} (h : ∀ b, op b l[i] = some b) (b : β) :
    (l.eraseIdx i).foldlM op b = l.foldlM op b := by
  calc (l.eraseIdx i).foldlM op b
      = (l.take i).foldlM op b >>= (l.drop (i + 1)).foldlM op := by
        rw [List.eraseIdx_eq_take_drop_succ, List.foldlM_append]
    _ = (l.take i).foldlM op b >>= (l[i] :: l.drop (i + 1)).foldlM op := by
        refine congrArg _ (funext fun t => ?_)
        rw [List.foldlM_cons, h]
        rfl
    _ = l.foldlM op b := by
        rw [← List.drop_eq_getElem_cons hi, ← List.foldlM_append, List.take_append_drop]

theorem length_filter_eraseIdx (p : α → Bool) :
    (l.filter p).length = ((l.eraseIdx i).filter p).length + if p l[i] then 1 else 0 := by
  have hsplit : l = l.take i ++ l[i] :: l.drop (i + 1) := by
    rw [← List.drop_eq_getElem_cons hi, List.take_append_drop]
  have hlength := congrArg (fun l => (l.filter p).length) hsplit
  rw [hlength, List.eraseIdx_eq_take_drop_succ]
  simp only [List.filter_append, List.length_append, List.filter_cons]
  split
  · rw [List.length_cons, ← Nat.add_assoc]
  · rfl

end

theorem finRange_eraseIdx (j : Fin (n + 1)) :
    (List.finRange (n + 1)).eraseIdx j = (List.finRange n).map j.succAbove := by
  refine List.ext_getElem ?_ fun i h h' => ?_
  · rw [List.length_eraseIdx_of_lt (j.isLt.trans_eq List.length_finRange.symm),
      List.length_finRange, List.length_map, List.length_finRange, Nat.add_sub_cancel]
  · rw [List.getElem_eraseIdx, List.getElem_map]
    simp only [List.getElem_finRange]
    have hi : i < n := by simpa using h'
    by_cases hij : i < j
    · rw [dif_pos hij]
      exact (Fin.succAbove_of_castSucc_lt j ⟨i, hi⟩ hij).symm
    · rw [dif_neg hij]
      exact (Fin.succAbove_of_le_castSucc j ⟨i, hi⟩ (not_lt.mp hij)).symm

/-! ## Zero -/

namespace Exact

variable {x y : Exact}

theorem isFinite_zero : IsFinite (0 : Exact) := isFinite_real 0

theorem isFinite_one : IsFinite (1 : Exact) := isFinite_real 1

protected theorem add_zero (x : Exact) : x + 0 = x := by
  cases x with
  | real a => exact congrArg real (add_zero a)
  | _ => rfl

protected theorem mul_zero (hx : IsFinite x) : x * 0 = 0 := by
  obtain ⟨a, rfl⟩ := isFinite_iff.mp hx
  exact congrArg real (mul_zero a)

protected theorem zero_mul (hx : IsFinite x) : 0 * x = 0 := by
  obtain ⟨a, rfl⟩ := isFinite_iff.mp hx
  exact congrArg real (zero_mul a)

protected theorem sub_self (hx : IsFinite x) : x - x = 0 := by
  obtain ⟨a, rfl⟩ := isFinite_iff.mp hx
  rw [real_sub_real, sub_self]
  rfl

theorem magnitude_zero : magnitude (0 : Exact) = 0 := if_neg (lt_irrefl (0 : ℝ))

/-- The largest absolute value so far is not negative, so zero does not raise it. -/
theorem zero_le_foldl_max (l : List Exact) {m : Exact} (hm : 0 ≤ m) :
    0 ≤ l.foldl (fun m t => Scalar.max m (magnitude t)) m := by
  induction l generalizing m with
  | nil => exact hm
  | cons t l ih =>
    refine ih ?_
    show 0 ≤ Scalar.max m (magnitude t)
    unfold Scalar.max
    split
    · rename_i hle
      exact Exact.le_trans hm hle
    · split
      · exact hm
      · rename_i hself
        exact absurd (le_refl_of_ne fun h => not_le_nan 0 (h ▸ hm)) hself

theorem max_zero (hx : 0 ≤ x) : Scalar.max x 0 = x := by
  unfold Scalar.max
  split
  · rename_i hle
    exact Exact.le_antisymm hx hle
  · exact if_pos (le_refl_of_ne fun h => not_le_nan 0 (h ▸ hx))

end Exact

namespace Elimination

variable (E : Elimination n)

/-! ## Coordinates -/

@[simp] theorem get_drop (x : Vector α (n + 1)) (i : Fin n) :
    (E.drop x).get i = x.get (E.index.succAbove i) := by
  have hget : (E.drop x).get i = _ := Vector.getElem_eraseIdx E.index.isLt i.isLt
  rw [hget]
  by_cases hi : (i : ℕ) < E.index
  · rw [dif_pos hi, Fin.succAbove_of_castSucc_lt _ _ hi]
    rfl
  · rw [dif_neg hi, Fin.succAbove_of_le_castSucc _ _ (not_lt.mp hi)]
    rfl

@[simp] theorem side_box (B : Box α (n + 1)) (i : Fin n) :
    (E.box B).side i = B.side (E.index.succAbove i) :=
  E.get_drop B.sides i

theorem index_lt_size (x : Vector α (n + 1)) : (E.index : ℕ) < x.toArray.size :=
  E.index.isLt.trans_eq x.size_toArray.symm

theorem dropArray_of_lt {xs : Array α} (h : (E.index : ℕ) < xs.size) :
    E.dropArray xs = xs.eraseIdx E.index := dif_pos h

theorem size_dropArray {xs : Array α} (h : (E.index : ℕ) < xs.size) :
    (E.dropArray xs).size = xs.size - 1 := by
  rw [E.dropArray_of_lt h, Array.size_eraseIdx]

@[simp] theorem toArray_drop (x : Vector α (n + 1)) :
    (E.drop x).toArray = E.dropArray x.toArray := by
  rw [E.dropArray_of_lt (E.index_lt_size x)]
  rfl

theorem sized_dropArray {xs : Array α} (h : (E.index : ℕ) < xs.size) :
    sized n (E.dropArray xs) = (sized (n + 1) xs).map E.drop := by
  by_cases hsize : xs.size = n + 1
  · obtain ⟨x, rfl⟩ : ∃ x : Vector α (n + 1), xs = x.toArray := ⟨⟨xs, hsize⟩, rfl⟩
    rw [← toArray_drop, sized_toArray, sized_toArray]
    rfl
  · have hdropped : (E.dropArray xs).size ≠ n := by
      rw [E.size_dropArray h]
      omega
    rw [sized_of_ne hsize, sized_of_ne hdropped]
    rfl

/-- At a point where the variable has its value, nothing is lost with it. -/
theorem fill_dropArray {x : Vector Exact (n + 1)} (hx : E.Holds x) :
    E.fill (E.dropArray x.toArray) = x.toArray := by
  have hlt := E.index_lt_size x
  have hsize : (E.index : ℕ) ≤ (x.toArray.eraseIdx E.index).size := by
    rw [Array.size_eraseIdx]
    omega
  have hentry : x.toArray.toList[(E.index : ℕ)] = real E.value := hx
  rw [E.dropArray_of_lt hlt]
  unfold fill insertArray Array.insertIdxIfInBounds
  rw [dif_pos hsize]
  refine Array.ext' ?_
  rw [Array.toList_insertIdx, Array.toList_eraseIdx, ← hentry]
  exact List.insertIdx_eraseIdx_getElem hlt

theorem size_fill (y : Vector Exact n) : (E.fill y.toArray).size = n + 1 := by
  have hle : (E.index : ℕ) ≤ y.toArray.size :=
    (Nat.le_of_lt_succ E.index.isLt).trans_eq y.size_toArray.symm
  unfold fill insertArray Array.insertIdxIfInBounds
  rw [dif_pos hle, Array.size_insertIdx, Vector.size_toArray]

/-- Points of the other variables come from points where the variable has its value. -/
theorem Smooth.entry {E : Elimination n} {f : Objective Exact} (hf : E.Smooth f)
    {x : Vector Exact (n + 1)} (hx : E.Holds x) :
    ∃ r, (f.gradient x.toArray)[(E.index : ℕ)]? = some (real r) := by
  obtain ⟨r, hr⟩ := hf (E.drop x)
  rw [toArray_drop, E.fill_dropArray hx] at hr
  exact ⟨r, hr⟩

/-! ## Arithmetic -/

section

theorem drop_map (op : α → β) (x : Vector α (n + 1)) : E.drop (x.map op) = (E.drop x).map op := by
  refine ext_get fun i => ?_
  have hleft : (x.map op).get (E.index.succAbove i) = op (x.get (E.index.succAbove i)) :=
    Vector.getElem_map ..
  have hright : ((E.drop x).map op).get i = op ((E.drop x).get i) := Vector.getElem_map ..
  rw [get_drop, hleft, hright, get_drop]

theorem drop_zipWith (op : α → β → γ) (x : Vector α (n + 1)) (y : Vector β (n + 1)) :
    E.drop (x.zipWith op y) = (E.drop x).zipWith op (E.drop y) := by
  refine ext_get fun i => ?_
  have hleft : (x.zipWith op y).get (E.index.succAbove i) =
      op (x.get (E.index.succAbove i)) (y.get (E.index.succAbove i)) :=
    Vector.getElem_zipWith (E.index.succAbove i).isLt
  have hright : ((E.drop x).zipWith op (E.drop y)).get i = op ((E.drop x).get i) ((E.drop y).get i) :=
    Vector.getElem_zipWith i.isLt
  rw [get_drop, hleft, hright, get_drop, get_drop]

variable (c : Exact) (x y : Vector Exact (n + 1))

theorem drop_add : E.drop (x + y) = E.drop x + E.drop y := E.drop_zipWith ..

theorem drop_sub : E.drop (x - y) = E.drop x - E.drop y := E.drop_zipWith ..

theorem drop_mul : E.drop (c * x) = c * E.drop x := E.drop_map ..

variable {c x y} {i : Fin (n + 1)}

theorem get_add : (x + y).get i = x.get i + y.get i := Vector.getElem_zipWith i.isLt

theorem get_sub : (x - y).get i = x.get i - y.get i := Vector.getElem_zipWith i.isLt

theorem get_mul : (c * x).get i = c * x.get i := Vector.getElem_map ..

theorem allFinite_drop_iff (hx : IsFinite (x.get E.index)) : AllFinite (E.drop x) ↔ AllFinite x := by
  unfold AllFinite
  rw [Fin.forall_iff_succAbove E.index]
  simp only [get_drop]
  exact (and_iff_right hx).symm

/-! ## Sums and norms -/

theorem foldl_drop {op : β → α → β} {b : β} {x : Vector α (n + 1)}
    (h : ∀ l : List α, op (l.foldl op b) (x.get E.index) = l.foldl op b) :
    (E.drop x).foldl op b = x.foldl op b := by
  have hlt : (E.index : ℕ) < x.toList.length := E.index.isLt.trans_eq x.length_toList.symm
  have hentry : x.toList[(E.index : ℕ)] = x.get E.index := rfl
  have herased : (E.drop x).toList = x.toList.eraseIdx E.index := Vector.toList_eraseIdx E.index.isLt
  rw [← Vector.foldl_toList, ← Vector.foldl_toList, herased]
  refine foldl_eraseIdx hlt ?_
  rw [hentry]
  exact h _

theorem dot_drop (h : x.get E.index * y.get E.index = 0) :
    dot (E.drop x) (E.drop y) = dot x y := by
  unfold dot
  rw [← drop_zipWith]
  refine E.foldl_drop fun l => ?_
  have hproduct : (x.zipWith (· * ·) y).get E.index = x.get E.index * y.get E.index :=
    Vector.getElem_zipWith E.index.isLt
  rw [hproduct, h, Exact.add_zero]

theorem energy_drop (hc : IsFinite c) (hx : x.get E.index = 0) :
    energy c (E.drop x) = energy c x := by
  have hentry : (c * x).get E.index = 0 := by rw [get_mul, hx, Exact.mul_zero hc]
  unfold energy
  rw [← drop_mul]
  refine E.dot_drop ?_
  rw [hentry]
  exact Exact.mul_zero isFinite_zero

theorem norm_drop (hx : x.get E.index = 0) : norm (E.drop x) = norm x := by
  have hpower (e : ℤ) : energy (twoPow e) (E.drop x) = energy (twoPow e) x :=
    E.energy_drop (isFinite_real _) hx
  have hone : energy 1 (E.drop x) = energy 1 x := E.energy_drop isFinite_one hx
  unfold norm
  rw [hpower, hpower, hone]

theorem maxAbs_drop (hx : x.get E.index = 0) : maxAbs (E.drop x) = maxAbs x := by
  refine E.foldl_drop fun l => ?_
  rw [hx, magnitude_zero]
  exact max_zero (zero_le_foldl_max l (zero_le_real.mpr le_rfl))

end

/-! ## Boxes -/

section

variable {B : Box Exact (n + 1)} {x g : Vector Exact (n + 1)}

theorem project_drop (B : Box Exact (n + 1)) (x : Vector Exact (n + 1)) :
    (E.box B).project (E.drop x) = E.drop (B.project x) := (E.drop_zipWith ..).symm

theorem inset_drop (B : Box Exact (n + 1)) (x : Vector Exact (n + 1)) :
    (E.box B).inset (E.drop x) = E.drop (B.inset x) := (E.drop_zipWith ..).symm

theorem residual_drop (B : Box Exact (n + 1)) (x g : Vector Exact (n + 1)) :
    (E.box B).residual (E.drop x) (E.drop g) = E.drop (B.residual x g) := by
  unfold Box.residual
  rw [← drop_sub, project_drop, ← drop_sub]

theorem nonempty_box (hB : ∀ i : Fin (n + 1), ¬ (B.side i).IsEmpty) (i : Fin n) :
    ¬ ((E.box B).side i).IsEmpty := by
  rw [side_box]
  exact hB _

variable {E} (hB : E.Fixes B)

include hB

theorem Fixes.isFixed : (B.side E.index).IsFixed := by
  rw [hB]
  exact ⟨le_refl E.value, le_refl E.value⟩

theorem Fixes.not_isOneSided : ¬ (B.side E.index).IsOneSided := by
  rw [hB]
  rintro (⟨-, h⟩ | ⟨h, -⟩)
  · exact h (isFinite_real _)
  · exact h (isFinite_real _)

theorem Fixes.holds_inset (x : Vector Exact (n + 1)) : E.Holds (B.inset x) := by
  show (B.inset x).get E.index = _
  rw [Box.get_inset, Interval.inset_of_fixed hB.isFixed, hB]

/-- A point is moved to the value of the variable from everywhere on the line. -/
theorem Fixes.holds_project (hx : IsFinite (x.get E.index)) : E.Holds (B.project x) := by
  obtain ⟨a, ha⟩ := isFinite_iff.mp hx
  show (B.project x).get E.index = _
  rw [Box.get_project, hB, ha]
  show Interval.cut (real E.value) (Interval.raise (real E.value) (real a)) = _
  unfold Interval.cut Interval.raise
  by_cases hlt : a < E.value
  · rw [if_pos (real_lt_real.mpr hlt), if_neg (mt real_lt_real.mp (lt_irrefl _))]
  · rw [if_neg (mt real_lt_real.mp hlt)]
    split
    · rfl
    · rename_i hle
      exact congrArg real (le_antisymm (not_lt.mp hle) (not_lt.mp hlt))

theorem Fixes.residual_index (hx : E.Holds x) (hg : IsFinite (g.get E.index)) :
    (B.residual x g).get E.index = 0 := by
  have hx' : x.get E.index = real E.value := hx
  have hstep : IsFinite ((x - g).get E.index) := by
    rw [get_sub, hx']
    exact isFinite_sub (isFinite_real _) hg
  have hprojected : (B.project (x - g)).get E.index = real E.value := hB.holds_project hstep
  unfold Box.residual
  rw [get_sub, hprojected, hx', Exact.sub_self (isFinite_real _)]

theorem Fixes.length_fixed : (E.box B).fixed.length = B.fixed.length - 1 := by
  have hlt : (E.index : ℕ) < (List.finRange (n + 1)).length :=
    E.index.isLt.trans_eq List.length_finRange.symm
  have hcount := length_filter_eraseIdx hlt fun i => decide (B.side i).IsFixed
  rw [List.getElem_finRange, finRange_eraseIdx, List.filter_map, List.length_map] at hcount
  have hlast : (B.side (Fin.cast List.length_finRange ⟨E.index, hlt⟩)).IsFixed := hB.isFixed
  unfold Box.fixed
  rw [hcount, if_pos (decide_eq_true hlast), Nat.add_sub_cancel]
  simp only [side_box]
  rfl

theorem Fixes.length_oneSided : (E.box B).oneSided.length = B.oneSided.length := by
  have hlt : (E.index : ℕ) < (List.finRange (n + 1)).length :=
    E.index.isLt.trans_eq List.length_finRange.symm
  have hcount := length_filter_eraseIdx hlt fun i => decide (B.side i).IsOneSided
  rw [List.getElem_finRange, finRange_eraseIdx, List.filter_map, List.length_map] at hcount
  have hlast : ¬ (B.side (Fin.cast List.length_finRange ⟨E.index, hlt⟩)).IsOneSided :=
    hB.not_isOneSided
  unfold Box.oneSided
  rw [hcount, if_neg (mt of_decide_eq_true hlast), Nat.add_zero]
  simp only [side_box]
  rfl

end

end Elimination

end LogBarrier

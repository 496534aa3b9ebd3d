import LogBarrier.Proofs.Eliminated.Vectors

/-!
# The barrier without a fixed variable

At its value a fixed variable adds nothing to the barrier and has no slope. So the augmented
objective of the other variables is the whole one, as long as the variable stays at its value.
-/

namespace LogBarrier

open Scalar Exact

variable {n : ℕ}

namespace Elimination

variable {E : Elimination n}

/-! ## The sum -/

section

variable {B : Box Exact (n + 1)} {x : Vector Exact (n + 1)} (hB : E.Fixes B) (hx : E.Holds x)

include hB hx

theorem Fixes.barrier?_side (k : Exact) :
    (B.side E.index).barrier? k (x.get E.index) = some ⟨0, 0, 0⟩ := by
  have hsame : Same (x.get E.index) (B.side E.index).lower := by
    rw [hB, show x.get E.index = real E.value from hx]
    exact ⟨le_refl E.value, le_refl E.value⟩
  unfold Interval.barrier?
  rw [if_pos hB.isFixed, if_pos hsame]

theorem Fixes.barrier?_drop (k : Exact) :
    (E.box B).barrier? k (E.drop x) = B.barrier? k x := by
  have hlt : (E.index : ℕ) < (List.finRange (n + 1)).length :=
    E.index.isLt.trans_eq List.length_finRange.symm
  unfold Box.barrier?
  simp only [side_box, get_drop]
  calc (List.finRange n).foldlM (fun total i =>
        ((B.side (E.index.succAbove i)).barrier? k (x.get (E.index.succAbove i))).map
          fun t => total + t.value) 0
      = ((List.finRange (n + 1)).eraseIdx E.index).foldlM (fun total i =>
          ((B.side i).barrier? k (x.get i)).map fun t => total + t.value) 0 := by
        rw [finRange_eraseIdx, List.foldlM_map]
    _ = _ := by
        refine foldlM_eraseIdx hlt (fun total => ?_) 0
        have hentry : (List.finRange (n + 1))[(E.index : ℕ)] = E.index := by
          rw [List.getElem_finRange]
          rfl
        rw [hentry, hB.barrier?_side hx, Option.map_some, Exact.add_zero]

theorem Fixes.barrierSlopes_index (k : Exact) : (B.barrierSlopes k x).get E.index = 0 := by
  have hget : (B.barrierSlopes k x).get E.index =
      (B.side E.index).barrierSlope k (x.get E.index) := Vector.getElem_zipWith E.index.isLt
  rw [hget, Interval.barrierSlope, hB.barrier?_side hx]

omit hB hx in
theorem barrierSlopes_drop (E : Elimination n) (k : Exact) (B : Box Exact (n + 1))
    (x : Vector Exact (n + 1)) :
    (E.box B).barrierSlopes k (E.drop x) = E.drop (B.barrierSlopes k x) :=
  (E.drop_zipWith ..).symm

end

/-! ## The augmented objective -/

/-- Where the variable has its value, `F'` is `F` as a function of the other variables, and what `F`
gives for a gradient is a vector with a real entry for the variable. -/
structure Reduces (E : Elimination n) (F : Oracle Exact (n + 1)) (F' : Oracle Exact n) : Prop where
  value {x : Vector Exact (n + 1)} : E.Holds x →
    F'.value (E.drop x) = (F.value x).translate E.call id
  gradient {x : Vector Exact (n + 1)} : E.Holds x →
    F'.gradient (E.drop x) = Trying.translate E.call E.dropArray (F.gradient x)
  entry {x : Vector Exact (n + 1)} {g : Array Exact} : E.Holds x →
    (F.gradient x).run.result = .ok g →
    ∃ v : Vector Exact (n + 1), g = v.toArray ∧ IsFinite (v.get E.index)

variable {A : Augmented Exact (n + 1)} {x : Vector Exact (n + 1)} (hx : E.Holds x)

include hx

theorem plainValue_augmented (A : Augmented Exact (n + 1)) :
    (E.augmented A).plainValue (E.dropArray x.toArray) =
      (A.plainValue x.toArray).translate E.call id :=
  Metered.eq_of_parts (congrArg A.objective.value (E.fill_dropArray hx)) rfl rfl

theorem plainGradient_augmented (A : Augmented Exact (n + 1)) :
    (E.augmented A).plainGradient (E.dropArray x.toArray) =
      (A.plainGradient x.toArray).translate E.call E.dropArray :=
  Metered.eq_of_parts (congrArg (E.dropArray ∘ A.objective.gradient) (E.fill_dropArray hx)) rfl rfl

variable (hB : E.Fixes A.box)

include hB

theorem value_augmented :
    (E.augmented A).value (E.drop x) = (A.value x).translate E.call id := by
  have hbarrier : (E.augmented A).barrier (E.drop x) = A.barrier x :=
    congrArg (Option.getD · inf) (hB.barrier?_drop hx A.activeKappa)
  unfold Augmented.value
  dsimp only
  rw [hbarrier]
  by_cases hinf : Same (A.barrier x) inf
  · rw [if_pos hinf, if_pos hinf]
    rfl
  · rw [if_neg hinf, if_neg hinf, toArray_drop, plainValue_augmented hx]
    exact Metered.translate_bind rfl

variable (hf : E.Smooth A.objective)

include hf

omit hB in
theorem gradient_augmented :
    (E.augmented A).gradient (E.drop x) = Trying.translate E.call E.dropArray (A.gradient x) := by
  have hslopes : (E.augmented A).barrierSlopes (E.drop x) = E.drop (A.barrierSlopes x) :=
    E.barrierSlopes_drop ..
  unfold Augmented.gradient
  rw [toArray_drop, plainGradient_augmented hx, ← Trying.translate_ask]
  refine Trying.translate_bind fun g hg => ?_
  -- The gradient of the objective may be longer or shorter, but it has an entry to drop.
  have hlt : (E.index : ℕ) < g.size := by
    obtain ⟨r, hr⟩ := hf.entry hx
    cases hg
    exact (Array.getElem?_eq_some_iff.mp hr).1
  rw [E.sized_dropArray hlt, ← Trying.translate_of]
  refine Trying.translate_bind fun v _ => ?_
  rw [Trying.translate_pure, hslopes, ← toArray_drop, drop_add, drop_mul]
  rfl

theorem entry_augmented (hmu : IsFinite A.mu) {g : Array Exact}
    (hg : (A.gradient x).run.result = .ok g) :
    ∃ v : Vector Exact (n + 1), g = v.toArray ∧ IsFinite (v.get E.index) := by
  unfold Augmented.gradient at hg
  obtain ⟨xs, hxs, hg⟩ := Trying.bind_eq_ok_iff.mp hg
  obtain rfl := Except.ok.inj hxs
  obtain ⟨v, hv, hg⟩ := Trying.bind_eq_ok_iff.mp hg
  obtain rfl := Except.ok.inj hg
  obtain ⟨r, hr⟩ := hf.entry hx
  have hentry : v.get E.index = real r := by
    have hgradient : A.objective.gradient x.toArray = v.toArray := sized_eq_ok_iff.mp hv
    rw [hgradient, Array.getElem?_eq_some_iff] at hr
    exact hr.2
  refine ⟨_, rfl, ?_⟩
  rw [get_add, get_mul, hentry]
  have hslope : (A.barrierSlopes x).get E.index = 0 := hB.barrierSlopes_index hx _
  rw [hslope, Exact.mul_zero hmu, Exact.add_zero]
  exact isFinite_real r

omit hx in
theorem reduces_augmented (hmu : IsFinite A.mu) : E.Reduces A.oracle (E.augmented A).oracle where
  value hx := value_augmented hx hB
  gradient hx := gradient_augmented hx hf
  entry hx hg := entry_augmented hx hB hf hmu hg

end Elimination

end LogBarrier

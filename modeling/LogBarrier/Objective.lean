import LogBarrier.Metered
import LogBarrier.Norm

/-!
# Objectives

An `Objective` is what the caller minimises: a value, a gradient, and possibly an exact product
with the second derivative. An `Oracle` is what a solver sees of a function: the same three
questions at points of one dimension, metered. Without an exact product the second derivative is
replaced by a forward difference of the gradient.
-/

namespace LogBarrier

open Scalar

structure Objective (α : Type) where
  value : Array α → α
  gradient : Array α → Array α
  /-- The second derivative at the first argument, applied to the second one. -/
  product? : Option (Array α → Array α → Array α)

structure Oracle (α : Type) (n : Nat) where
  value : Vector α n → Metered α α
  gradient : Vector α n → Trying α (Array α)
  product : Vector α n → Array α → Trying α (Array α)

variable {α : Type} [Scalar α] {n : Nat}

/-- The step of a forward difference at `x` along a direction of norm `s`. -/
def differenceStep (x : Vector α n) (s : α) : α :=
  sqrt epsilon * Scalar.max 1 (norm x) / s

/-- The forward difference of `gradient` at `x` along `v`, zero along the zero direction. -/
def forwardDifference (gradient : Vector α n → Trying α (Array α)) (x : Vector α n)
    (v : Array α) : Trying α (Array α) := do
  if Same (norm v.toVector) 0 then
    return (0 : Vector α n).toArray
  else
    let h := differenceStep x (norm v.toVector)
    let g ← gradient x
    let v ← Trying.of (sized n v)
    let shifted ← gradient (x + h * v)
    let shifted ← Trying.of (sized g.size shifted)
    return ((1 / h) * (shifted - g.toVector)).toArray

theorem norm_toVector (x : Vector α n) : norm x.toArray.toVector = norm x := by
  obtain ⟨xs, rfl⟩ := x
  rfl

theorem forwardDifference_of_same (gradient : Vector α n → Trying α (Array α)) (x : Vector α n)
    {v : Vector α n} (hv : Same (norm v) 0) :
    forwardDifference gradient x v.toArray = pure (0 : Vector α n).toArray := by
  unfold forwardDifference
  rw [norm_toVector]
  exact if_pos hv

/-- Along a direction that is not zero the gradient is asked twice. -/
theorem forwardDifference_of_not_same {gradient : Vector α n → Trying α (Array α)}
    {x v g shifted : Vector α n} (hv : ¬ Same (norm v) 0)
    (hg : (gradient x).run.result = .ok g.toArray)
    (hshifted : (gradient (x + differenceStep x (norm v) * v)).run.result = .ok shifted.toArray) :
    (forwardDifference gradient x v.toArray).run.result =
      .ok ((1 / differenceStep x (norm v)) * (shifted - g)).toArray := by
  unfold forwardDifference
  rw [norm_toVector, if_neg hv]
  dsimp only
  generalize differenceStep x (norm v) = step at hshifted ⊢
  obtain ⟨g, rfl⟩ := g
  have hdirection : sized g.size v.toArray = .ok v := sized_toArray v
  have hsize : sized g.size shifted.toArray = .ok shifted := sized_toArray shifted
  refine Trying.bind_eq_ok_iff.mpr ⟨g, hg, ?_⟩
  refine Trying.bind_eq_ok_iff.mpr ⟨v, hdirection, ?_⟩
  refine Trying.bind_eq_ok_iff.mpr ⟨shifted.toArray, hshifted, ?_⟩
  exact Trying.bind_eq_ok_iff.mpr ⟨shifted, hsize, rfl⟩

namespace Objective

/-- The objective that is zero everywhere. -/
def zero : Objective α where
  value _ := 0
  gradient x := Array.replicate x.size 0
  product? := none

def gradientAt (f : Objective α) (x : Vector α n) : Trying α (Array α) :=
  Trying.ask (.call (.gradient x.toArray) (f.gradient x.toArray))

/-- The product of the second derivative with `v`, by differences if it is not known exactly. -/
def productAt (f : Objective α) (x : Vector α n) (v : Array α) : Trying α (Array α) :=
  match f.product? with
  | some h => Trying.ask (.call (.product x.toArray v) (h x.toArray v))
  | none => forwardDifference f.gradientAt x v

/-- The objective as a solver sees it. -/
def oracle (f : Objective α) : Oracle α n where
  value x := .call (.value x.toArray) (f.value x.toArray)
  gradient := f.gradientAt
  product := f.productAt

end Objective

end LogBarrier

import LogBarrier.Box

/-!
# The logarithmic barrier

Each variable contributes a term that grows without bound towards its finite ends: minus the
logarithm of the distance to each of them. A variable with a single finite end may also carry a
linear term that keeps the sum from falling without bound on its free side; its coefficient `k` is
zero where there is no such damping. A fixed variable contributes nothing at its value.
-/

namespace LogBarrier

open Scalar

/-- A term of the barrier with its first two derivatives. -/
structure BarrierTerm (α : Type) where
  value : α
  slope : α
  curvature : α

variable {α : Type} [Scalar α] {n : Nat}

namespace Interval

/-- The barrier term at `x`, if `x` lies strictly inside the finite ends. -/
def barrier? (k : α) (I : Interval α) (x : α) : Option (BarrierTerm α) :=
  if I.IsFixed then
    if Same x I.lower then some ⟨0, 0, 0⟩ else none
  else
    let a := x - I.lower
    let b := I.upper - x
    if IsFinite I.lower then
      if IsFinite I.upper then
        if 0 < a ∧ 0 < b then
          some ⟨-log a - log b, -1 / a + 1 / b, 1 / (a * a) + 1 / (b * b)⟩
        else none
      else if 0 < a then some ⟨-log a + k * a, -1 / a + k, 1 / (a * a)⟩
      else none
    else if IsFinite I.upper then
      if 0 < b then some ⟨-log b + k * b, 1 / b - k, 1 / (b * b)⟩
      else none
    else some ⟨0, 0, 0⟩

/-- The slope of the barrier, infinite outside its domain and directed so that descent points back
into the interval. -/
def barrierSlope (k : α) (I : Interval α) (x : α) : α :=
  match I.barrier? k x with
  | some t => t.slope
  | none => if IsFinite I.lower ∧ ¬ 0 < x - I.lower then -inf else inf

def barrierCurvature (k : α) (I : Interval α) (x : α) : α :=
  match I.barrier? k x with
  | some t => t.curvature
  | none => inf

end Interval

namespace Box

/-- The sum of the barrier terms in index order, if none of them is missing. -/
def barrier? (k : α) (B : Box α n) (x : Vector α n) : Option α :=
  (List.finRange n).foldlM
    (fun total i => ((B.side i).barrier? k (x.get i)).map fun t => total + t.value) 0

/-- The barrier, infinite outside its domain. -/
def barrier (k : α) (B : Box α n) (x : Vector α n) : α := (B.barrier? k x).getD inf

def barrierSlopes (k : α) (B : Box α n) (x : Vector α n) : Vector α n :=
  B.sides.zipWith (Interval.barrierSlope k) x

/-- The diagonal of the second derivative of the barrier; all other entries are zero. -/
def barrierCurvatures (k : α) (B : Box α n) (x : Vector α n) : Vector α n :=
  B.sides.zipWith (Interval.barrierCurvature k) x

end Box

end LogBarrier

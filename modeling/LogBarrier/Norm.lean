import LogBarrier.Scalar

/-!
# Inner product and norms

Sums run in index order and start from zero. The norm first looks at the squares of the entries
scaled down, then at the plain squares, then at the squares scaled up, so that neither huge nor tiny
entries spoil it.
-/

namespace LogBarrier

open Scalar

variable {α : Type} [Scalar α] {n : Nat}

def dot (x y : Vector α n) : α :=
  (x.zipWith (· * ·) y).foldl (· + ·) 0

/-- The sum of the squared entries, each entry multiplied by `scale` first. -/
def energy (scale : α) (x : Vector α n) : α :=
  dot (scale * x) (scale * x)

/-- The Euclidean norm. -/
def norm (x : Vector α n) : α :=
  if 1 ≤ energy (twoPow (-511)) x then sqrt (energy (twoPow (-511)) x) * twoPow 511
  else if 1 ≤ energy 1 x then sqrt (energy 1 x)
  else sqrt (energy (twoPow 511) x) * twoPow (-511)

/-- The largest absolute value of an entry, zero for the empty vector. -/
def maxAbs (x : Vector α n) : α :=
  x.foldl (fun m t => Scalar.max m (magnitude t)) 0

/-- Every entry is finite. -/
def AllFinite (x : Vector α n) : Prop := ∀ i : Fin n, IsFinite (x.get i)

instance (x : Vector α n) : Decidable (AllFinite x) :=
  inferInstanceAs (Decidable (∀ i : Fin n, IsFinite (x.get i)))

end LogBarrier

/-!
# Scalars

The numbers the method computes with. `Scalar` lists the operations that the algorithms call and
asks for no law: doubles keep few of them, an extended real line keeps more, and every definition
of the library is written once for both. Comparisons follow the floating-point order, in which the
value `nan` compares with nothing, itself included.
-/

namespace LogBarrier

/-- Arithmetic, decidable comparisons, square root, logarithm and powers of two, with one infinity
and one value that compares with nothing. -/
class Scalar (α : Type) extends Zero α, One α, Add α, Sub α, Mul α, Div α, Neg α, LT α, LE α,
    OfScientific α where
  decLt : DecidableLT α
  decLe : DecidableLE α
  sqrt : α → α
  log : α → α
  twoPow : Int → α
  inf : α
  nan : α

namespace Scalar

variable {α : Type} [Scalar α]

instance : DecidableLT α := decLt

instance : DecidableLE α := decLe

/-- Equality as numbers: both zeros are the same, `nan` is not the same as itself. -/
abbrev Same (x y : α) : Prop := x ≤ y ∧ y ≤ x

abbrev IsFinite (x : α) : Prop := -inf < x ∧ x < inf

def magnitude (x : α) : α := if x < 0 then -x else x

/-- The larger number, the second one of two that are the same; `nan` counts for nothing. -/
def max (x y : α) : α := if x ≤ y then y else if x ≤ x then x else y

/-- The smaller number, the second one of two that are the same; `nan` counts for nothing. -/
def min (x y : α) : α := if y ≤ x then y else if x ≤ x then x else y

/-- The distance from one to the next double. -/
def epsilon : α := twoPow (-52)

end Scalar

end LogBarrier

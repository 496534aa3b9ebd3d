import LogBarrier.Scalar

/-!
# Intervals

The range of one variable. An infinite end means that the variable is free on that side, equal ends
fix it. `clamp` moves a number into the interval, `inset` moves it strictly inside.
-/

namespace LogBarrier

open Scalar

structure Interval (α : Type) where
  lower : α
  upper : α

namespace Interval

variable {α : Type} [Scalar α]

abbrev Contains (I : Interval α) (x : α) : Prop := I.lower ≤ x ∧ x ≤ I.upper

/-- No number lies in the interval: the ends are out of order, or one of them is `nan`. -/
abbrev IsEmpty (I : Interval α) : Prop := ¬ I.lower ≤ I.upper

abbrev IsFixed (I : Interval α) : Prop := Same I.lower I.upper

/-- Exactly one end is finite. -/
abbrev IsOneSided (I : Interval α) : Prop :=
  (IsFinite I.lower ∧ ¬ IsFinite I.upper) ∨ (¬ IsFinite I.lower ∧ IsFinite I.upper)

/-- Raises `x` to `b` if it lies below. -/
def raise (b x : α) : α := if x < b then b else x

/-- Lowers `x` to `b` if it lies above. -/
def cut (b x : α) : α := if b < x then b else x

def clamp (I : Interval α) (x : α) : α := cut I.upper (raise I.lower x)

/-- How far an inset point keeps from the finite end `b` when `c` is the other end: one hundredth
of the size of `b`, at least of one, and never more than one hundredth of a finite width. -/
def margin (I : Interval α) (b c : α) : α :=
  let m := 0.01 * Scalar.max 1 (magnitude b)
  if IsFinite c then Scalar.min m (0.01 * (I.upper - I.lower)) else m

/-- Moves `x` away from the finite ends by their margins; a fixed variable takes its value. -/
def inset (I : Interval α) (x : α) : α :=
  if I.IsFixed then I.lower
  else
    let x := if IsFinite I.lower then raise (I.lower + I.margin I.lower I.upper) x else x
    if IsFinite I.upper then cut (I.upper - I.margin I.upper I.lower) x else x

theorem inset_of_fixed {I : Interval α} (h : I.IsFixed) (x : α) : I.inset x = I.lower :=
  if_pos h

end Interval

end LogBarrier

import LogBarrier.Descent
import LogBarrier.Secant

/-!
# Projected quasi-Newton

Variables that sit on a bound and would leave the box along steepest descent are held. On the others
the direction comes from the secant, or is steepest descent if the secant is missing, empty, or does
not give a direction of descent. A failed search is repeated along plain steepest descent.
-/

namespace LogBarrier

open Scalar

variable {α τ : Type} [Scalar α] {n : Nat}

/-- Variable `x` with slope `g` is held at an end of the interval. -/
abbrev Interval.Holds (I : Interval α) (x g : α) : Prop :=
  (x ≤ I.lower ∧ 0 < g) ∨ (I.upper ≤ x ∧ g < 0)

/-- `v` with the entries of the held variables set to zero. -/
def Box.freePart (B : Box α n) (x g v : Vector α n) : Vector α n :=
  Vector.ofFn fun i => if (B.side i).Holds (x.get i) (g.get i) then 0 else v.get i

/-- The direction that the secant gives, if it is one of descent. -/
def secantDirection? [Secant α τ] (B : Box α n) (it : Iterate α n) :
    Option τ → Except Failure (Option (Vector α n))
  | none => .ok none
  | some h =>
    if Secant.count h = 0 then .ok none
    else
      (Secant.apply h (B.freePart it.x it.gradient it.gradient)).map fun v =>
        let d := B.freePart it.x it.gradient (-v)
        if dot it.gradient d < 0 then some d else none

/-- Searches along the secant direction or steepest descent on the variables that are not held,
and if that fails along steepest descent on all of them. -/
def quasiNewtonSearch [Secant α τ] (P : LineSearch α) (F : Oracle α n) (B : Box α n)
    (h : Option τ) (it : Iterate α n) : Trying α (Trial α n) := do
  let search (d : Vector α n) : Trying α (Trial α n) :=
    Trying.ask (P.search F B it.x it.value it.gradient d 1)
  let secant ← Trying.of (secantDirection? B it h)
  let first := secant.getD (-it.scale * B.freePart it.x it.gradient it.gradient)
  let t ← search first
  if t.accepted then return t else search (-it.scale * it.gradient)

def Descent.quasiNewton [Secant α τ] (P : LineSearch α) (F : Oracle α n) (B : Box α n) :
    Descent α τ n where
  tag := "quasi-newton"
  search := quasiNewtonSearch P F B
  learn h s y := h.map fun h => Secant.update h s y

def Solver.quasiNewton [Secant α τ] (P : LineSearch α) : Solver α Unit τ :=
  .ofDescent "Projected Quasi-Newton" (Descent.quasiNewton P)

end LogBarrier

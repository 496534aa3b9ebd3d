import LogBarrier.LineSearch
import LogBarrier.Solver

/-!
# Descent

The iteration that the solvers share: search for a step from the current iterate, evaluate the
gradient where the search ended, and go on from there until the projected gradient is small, a step
is short, a search fails or the iterations are used up. A `Descent` says how the trial is found and
what is learnt from an accepted step.

Of the spectral solver every step points to the projection of a steepest-descent step of spectral
length. The target lies in the box, so the search moves along the segment to it. It does not use a
secant.
-/

namespace LogBarrier

open Scalar

variable {α : Type} [Scalar α] {n : Nat}

/-! ## Step lengths -/

def minScale : α := 1e-10

def maxScale : α := 1e10

/-- The step length of Barzilai and Borwein, the largest one where the curvature is not positive. -/
def spectralScale (s y : Vector α n) : α :=
  let sy := dot s y
  if sy ≤ 0 ∨ ¬ IsFinite sy then maxScale
  else Scalar.min maxScale (Scalar.max minScale (dot s s / sy))

/-- The step length of the first iteration. -/
def initialScale (r : Vector α n) : α :=
  if 0 < maxAbs r then Scalar.min maxScale (Scalar.max minScale (1 / maxAbs r)) else 1

/-! ## Iterates -/

structure Iterate (α : Type) (n : Nat) where
  x : Vector α n
  value : α
  gradient : Vector α n
  /-- The projected gradient. -/
  residual : Vector α n
  /-- The step length for steepest descent. -/
  scale : α

/-- The projected gradient is within the tolerance. -/
def Iterate.Stationary (gtol : α) (it : Iterate α n) : Prop := norm it.residual ≤ gtol

instance (gtol : α) (it : Iterate α n) : Decidable (it.Stationary gtol) :=
  inferInstanceAs (Decidable (_ ≤ _))

def finiteValue (F : Oracle α n) (x : Vector α n) : Trying α α := do
  let v ← Trying.ask (F.value x)
  if IsFinite v then return v
  else throw (.error (.notFinite "subproblem objective value"))

def finiteGradient (F : Oracle α n) (x : Vector α n) : Trying α (Vector α n) := do
  let g ← F.gradient x
  if AllFinite g.toVector then Trying.of (sized n g)
  else throw (.error (.notFinite "subproblem gradient"))

/-- The iterate at `x`. -/
def Iterate.start (F : Oracle α n) (B : Box α n) (x : Vector α n) : Trying α (Iterate α n) := do
  let v ← finiteValue F x
  let g ← finiteGradient F x
  let r := B.residual x g
  return ⟨x, v, g, r, initialScale r⟩

/-- The iterate at an accepted trial where the gradient is `g`. -/
def Iterate.next (B : Box α n) (it : Iterate α n) (t : Trial α n) (g : Vector α n) :
    Iterate α n :=
  ⟨t.x, t.value, g, B.residual t.x g, spectralScale (t.x - it.x) (g - it.gradient)⟩

/-! ## The iteration -/

structure Descent (α τ : Type) (n : Nat) where
  /-- The name in messages. -/
  tag : String
  search : Option τ → Iterate α n → Trying α (Trial α n)
  learn : Option τ → (s y : Vector α n) → Option τ

/-- Where an iteration stands when it ends. -/
structure Exit (α τ : Type) (n : Nat) where
  x : Vector α n
  secant : Option τ
  notes : List (Message α)
  outcome : Except Failure SolveReport

variable {τ : Type}

namespace Descent

/-- Ends after `done` iterations at `it`. -/
def stop (gtol : α) (it : Iterate α n) (h : Option τ) (done : Nat) : Exit α τ n :=
  ⟨it.x, h, [], .ok ⟨done, decide (it.Stationary gtol)⟩⟩

/-- Runs at most `left` further iterations from `it` after `done` ones. -/
def loop (D : Descent α τ n) (F : Oracle α n) (B : Box α n) (tol : Tolerances α) :
    (left done : Nat) → Iterate α n → Option τ → Metered α (Exit α τ n)
  | 0, done, it, h => pure (stop tol.gradient it h done)
  | left + 1, done, it, h =>
    if it.Stationary tol.gradient then pure (stop tol.gradient it h done)
    else do
      match ← (D.search h it).run with
      | .error e => return ⟨it.x, h, [], .error e⟩
      | .ok t =>
        if ¬ t.accepted then
          return ⟨it.x, h, [.searchFailed D.tag done], .ok ⟨done, false⟩⟩
        else
          match ← (finiteGradient F t.x).run with
          | .error e => return ⟨it.x, h, [], .error e⟩
          | .ok g =>
            let s := t.x - it.x
            let h := D.learn h s (g - it.gradient)
            let next := it.next B t g
            if norm s ≤ tol.step then return stop tol.gradient next h (done + 1)
            else D.loop F B tol left (done + 1) next h

/-- Projects `x` and iterates from there. -/
def solve (D : Descent α τ n) (F : Oracle α n) (B : Box α n) (tol : Tolerances α)
    (x : Vector α n) (h : Option τ) : Metered α (Exit α τ n) := do
  let x := B.project x
  match ← (Iterate.start F B x).run with
  | .error e => return ⟨x, h, [], .error e⟩
  | .ok it => D.loop F B tol tol.maxIterations 0 it h

end Descent

/-- The solver that runs the descent `D`. -/
def Solver.ofDescent (name : String) (D : {n : Nat} → Oracle α n → Box α n → Descent α τ n) :
    Solver α Unit τ where
  name := name
  solve F B tol x _ h := do
    let e ← (D F B).solve F B tol x h
    return ⟨e.x.toArray, (), e.secant, e.notes, e.outcome⟩

/-! ## Spectral projected gradient -/

/-- The step from `x` to the projection of the gradient step of length `scale`. -/
def spectralDirection (B : Box α n) (it : Iterate α n) : Vector α n :=
  B.project (it.x - it.scale * it.gradient) - it.x

def Descent.spectral (P : LineSearch α) (F : Oracle α n) (B : Box α n) : Descent α τ n where
  tag := "spg"
  search _ it := Trying.ask (P.search F B it.x it.value it.gradient (spectralDirection B it) 1)
  learn h _ _ := h

def Solver.spectral (P : LineSearch α) : Solver α Unit τ :=
  .ofDescent "Spectral Projected Gradient" (Descent.spectral P)

end LogBarrier

import LogBarrier.Barrier
import LogBarrier.Objective

/-!
# The augmented objective

The objective of a subproblem: the caller's objective plus `mu` times the barrier of the box. It
keeps a tally of the evaluations of the caller's objective that were made through it. At a point
outside the domain of the barrier its value is infinite, and the caller's objective is not asked.
-/

namespace LogBarrier

open Scalar

structure Augmented (α : Type) (n : Nat) where
  objective : Objective α
  box : Box α n
  /-- The barrier parameter. -/
  mu : α
  /-- The coefficient of the linear damping. -/
  kappa : α
  damping : Bool
  tally : Tally

namespace Augmented

variable {α : Type} {n : Nat}

def start (f : Objective α) (B : Box α n) (mu kappa : α) (damping : Bool) : Augmented α n :=
  ⟨f, B, mu, kappa, damping, 0⟩

/-! ## The caller's objective -/

def plainValue (A : Augmented α n) (x : Array α) : Metered α α :=
  .counting ⟨1, 0⟩ (.call (.value x) (A.objective.value x))

def plainGradient (A : Augmented α n) (x : Array α) : Metered α (Array α) :=
  .counting ⟨0, 1⟩ (.call (.gradient x) (A.objective.gradient x))

@[simp] theorem result_plainValue (A : Augmented α n) (x : Array α) :
    (A.plainValue x).result = A.objective.value x := rfl

@[simp] theorem calls_plainValue (A : Augmented α n) (x : Array α) :
    (A.plainValue x).calls = [.value x] := rfl

@[simp] theorem tally_plainValue (A : Augmented α n) (x : Array α) :
    (A.plainValue x).tally = ⟨1, 0⟩ := rfl

@[simp] theorem result_plainGradient (A : Augmented α n) (x : Array α) :
    (A.plainGradient x).result = A.objective.gradient x := rfl

@[simp] theorem calls_plainGradient (A : Augmented α n) (x : Array α) :
    (A.plainGradient x).calls = [.gradient x] := rfl

@[simp] theorem tally_plainGradient (A : Augmented α n) (x : Array α) :
    (A.plainGradient x).tally = ⟨0, 1⟩ := rfl

/-! ## The barrier -/

variable [Scalar α]

/-- The damping coefficient in force. -/
def activeKappa (A : Augmented α n) : α := if A.damping then A.kappa else 0

/-- The variables whose barrier term carries linear damping. -/
def damped (A : Augmented α n) : List (Fin n) := if A.damping then A.box.oneSided else []

def barrier (A : Augmented α n) (x : Vector α n) : α := A.box.barrier A.activeKappa x

def barrierSlopes (A : Augmented α n) (x : Vector α n) : Vector α n :=
  A.box.barrierSlopes A.activeKappa x

def barrierCurvatures (A : Augmented α n) (x : Vector α n) : Vector α n :=
  A.box.barrierCurvatures A.activeKappa x

/-! ## The sum -/

def value (A : Augmented α n) (x : Vector α n) : Metered α α := do
  let b := A.barrier x
  if Same b inf then return inf
  else return (← A.plainValue x.toArray) + A.mu * b

def gradient (A : Augmented α n) (x : Vector α n) : Trying α (Array α) := do
  let g ← Trying.ask (A.plainGradient x.toArray)
  let g ← Trying.of (sized n g)
  return (g + A.mu * A.barrierSlopes x).toArray

def product (A : Augmented α n) (x : Vector α n) (v : Array α) : Trying α (Array α) := do
  let h ← A.objective.productAt x v
  let v ← Trying.of (sized n v)
  let h ← Trying.of (sized n h)
  return (h + A.mu * (A.barrierCurvatures x).zipWith (· * ·) v).toArray

/-- The augmented objective as a solver sees it. -/
def oracle (A : Augmented α n) : Oracle α n where
  value := A.value
  gradient := A.gradient
  product := A.product

/-- Adds `t` to the tally. -/
def count (A : Augmented α n) (t : Tally) : Augmented α n := { A with tally := A.tally + t }

/-- Outside the domain of the barrier the caller's objective is not asked. -/
theorem calls_value_of_outside {A : Augmented α n} {x : Vector α n} (h : Same (A.barrier x) inf) :
    (A.value x).calls = [] := by
  unfold value
  dsimp only
  rw [if_pos h]
  rfl

theorem calls_value_of_inside {A : Augmented α n} {x : Vector α n}
    (h : ¬ Same (A.barrier x) inf) : (A.value x).calls = [.value x.toArray] := by
  unfold value
  dsimp only
  rw [if_neg h]
  simp

end Augmented

end LogBarrier

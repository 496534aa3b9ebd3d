import LogBarrier.Augmented

/-!
# Points of any length

The augmented objective at points that need not have the dimension of its box. A shorter point has
coordinates for the first variables only, and the other variables do not count. A longer point has
coordinates without a variable, at which the barrier cannot be evaluated; its sum is known to be
infinite all the same if one of the variables lacks its term.
-/

namespace LogBarrier.Augmented

open Scalar

variable {α : Type} {m n : Nat}

/-- The augmented objective of the first `m` variables. -/
def leading (h : m ≤ n) (A : Augmented α n) : Augmented α m := { A with box := A.box.leading h }

@[simp] theorem leading_self (h : n ≤ n) (A : Augmented α n) : A.leading h = A := by
  simp [leading]

/-- The augmented objective that counts at points of length `m`. -/
def atLength (A : Augmented α n) (m : Nat) : Except Failure (Augmented α m) :=
  if h : m ≤ n then .ok (A.leading h) else .error .lengthMismatch

@[simp] theorem atLength_self (A : Augmented α n) : A.atLength n = .ok A := by
  simp [atLength]

variable [Scalar α]

/-! ## The barrier -/

def barrierAt (A : Augmented α n) (x : Array α) : Except Failure α :=
  if h : x.size ≤ n then .ok ((A.leading h).barrier x.toVector)
  else
    let known := LogBarrier.leading (Nat.le_of_not_le h) x.toVector
    match A.box.barrier? A.activeKappa known with
    | some _ => .error .lengthMismatch
    | none => .ok inf

def barrierSlopesAt (A : Augmented α n) (x : Array α) : Except Failure (Array α) := do
  return ((← A.atLength x.size).barrierSlopes x.toVector).toArray

def barrierCurvaturesAt (A : Augmented α n) (x : Array α) : Except Failure (Array α) := do
  return ((← A.atLength x.size).barrierCurvatures x.toVector).toArray

/-- The coordinates of a point of length `m` whose barrier term carries linear damping. -/
def dampedAt (A : Augmented α n) (m : Nat) : Except Failure (List (Fin m)) :=
  if A.damping then (A.atLength m).map damped else .ok []

/-! ## The sum -/

def valueAt (A : Augmented α n) (x : Array α) : Trying α α :=
  if h : x.size ≤ n then Trying.ask ((A.leading h).value x.toVector)
  else Trying.of (A.barrierAt x)

/-- Where the barrier cannot be evaluated, the caller's objective has been asked before. -/
def gradientAt (A : Augmented α n) (x : Array α) : Trying α (Array α) :=
  if h : x.size ≤ n then (A.leading h).gradient x.toVector
  else do
    let _ ← Trying.ask (A.plainGradient x)
    throw .lengthMismatch

def productAt (A : Augmented α n) (x v : Array α) : Trying α (Array α) :=
  if h : x.size ≤ n then (A.leading h).product x.toVector v
  else do
    let _ ← A.objective.productAt x.toVector v
    throw .lengthMismatch

/-- The forward difference of the gradient at `x` along `v`. -/
def differenceAt (A : Augmented α n) (x v : Array α) : Trying α (Array α) :=
  forwardDifference (fun y => A.gradientAt y.toArray) x.toVector v

/-! ## Points of the dimension of the box -/

theorem barrierAt_toArray (A : Augmented α n) (x : Vector α n) :
    A.barrierAt x.toArray = .ok (A.barrier x) := by
  obtain ⟨x, rfl⟩ := x
  simp [barrierAt]

theorem valueAt_toArray (A : Augmented α n) (x : Vector α n) :
    A.valueAt x.toArray = Trying.ask (A.value x) := by
  obtain ⟨x, rfl⟩ := x
  simp [valueAt]

theorem gradientAt_toArray (A : Augmented α n) (x : Vector α n) :
    A.gradientAt x.toArray = A.gradient x := by
  obtain ⟨x, rfl⟩ := x
  simp [gradientAt]

theorem productAt_toArray (A : Augmented α n) (x : Vector α n) (v : Array α) :
    A.productAt x.toArray v = A.product x v := by
  obtain ⟨x, rfl⟩ := x
  simp [productAt]

end LogBarrier.Augmented

import LogBarrier.Interval
import LogBarrier.Norm

/-!
# Boxes

A box is one interval per variable. `project` clamps every coordinate, `inset` moves the point
strictly inside, and `residual` is the step to the projection of a gradient step, whose norm
measures how far a point is from being stationary.
-/

namespace LogBarrier

open Scalar

variable {α : Type} {m n : Nat}

/-- The first `m` entries of a vector. -/
def leading (h : m ≤ n) (x : Vector α n) : Vector α m :=
  (x.take m).cast (Nat.min_eq_left h)

@[simp] theorem get_leading (h : m ≤ n) (x : Vector α n) (i : Fin m) :
    (leading h x).get i = x.get (i.castLE h) :=
  Vector.getElem_take (Nat.lt_min.mpr ⟨i.isLt, Nat.lt_of_lt_of_le i.isLt h⟩)

@[simp] theorem leading_self (h : n ≤ n) (x : Vector α n) : leading h x = x := by
  ext i hi
  simp [leading]

/-- Two vectors with the same coordinates are the same. -/
theorem ext_get {x y : Vector α n} (h : ∀ i : Fin n, x.get i = y.get i) : x = y := by
  ext i hi
  exact h ⟨i, hi⟩

structure Box (α : Type) (n : Nat) where
  sides : Vector (Interval α) n

namespace Box

/-- The range of variable `i`. -/
def side (B : Box α n) (i : Fin n) : Interval α := B.sides.get i

/-- The box of the first `m` variables. -/
def leading (h : m ≤ n) (B : Box α n) : Box α m := ⟨LogBarrier.leading h B.sides⟩

@[simp] theorem side_leading (h : m ≤ n) (B : Box α n) (i : Fin m) :
    (B.leading h).side i = B.side (i.castLE h) :=
  get_leading h B.sides i

@[simp] theorem leading_self (h : n ≤ n) (B : Box α n) : B.leading h = B :=
  congrArg Box.mk (LogBarrier.leading_self h B.sides)

/-- All points between `l` and `u`. -/
def between (l u : Vector α n) : Box α n := ⟨l.zipWith Interval.mk u⟩

def lower (B : Box α n) : Vector α n := B.sides.map (·.lower)

def upper (B : Box α n) : Vector α n := B.sides.map (·.upper)

@[simp] theorem side_between (l u : Vector α n) (i : Fin n) :
    (between l u).side i = ⟨l.get i, u.get i⟩ :=
  Vector.getElem_zipWith i.isLt

@[simp] theorem lower_between (l u : Vector α n) : (between l u).lower = l := by
  ext i h
  simp [lower, between]

@[simp] theorem upper_between (l u : Vector α n) : (between l u).upper = u := by
  ext i h
  simp [upper, between]

variable [Scalar α]

def atLeast (l : Vector α n) : Box α n := between l (Vector.replicate n inf)

def atMost (u : Vector α n) : Box α n := between (Vector.replicate n (-inf)) u

def free (n : Nat) : Box α n := between (Vector.replicate n (-inf)) (Vector.replicate n inf)

def project (B : Box α n) (x : Vector α n) : Vector α n := B.sides.zipWith Interval.clamp x

def inset (B : Box α n) (x : Vector α n) : Vector α n := B.sides.zipWith Interval.inset x

def Feasible (B : Box α n) (x : Vector α n) : Prop := ∀ i : Fin n, (B.side i).Contains (x.get i)

instance (B : Box α n) (x : Vector α n) : Decidable (B.Feasible x) :=
  inferInstanceAs (Decidable (∀ i : Fin n, (B.side i).Contains (x.get i)))

/-- The first variable that has no admissible value. -/
def firstEmpty? (B : Box α n) : Option (Fin n) :=
  (List.finRange n).find? fun i => decide (B.side i).IsEmpty

/-- The variables with a single admissible value. -/
def fixed (B : Box α n) : List (Fin n) :=
  (List.finRange n).filter fun i => decide (B.side i).IsFixed

/-- The variables with exactly one finite bound. -/
def oneSided (B : Box α n) : List (Fin n) :=
  (List.finRange n).filter fun i => decide (B.side i).IsOneSided

/-- The projected gradient: the step from `x` to the projection of `x - g`. -/
def residual (B : Box α n) (x g : Vector α n) : Vector α n := B.project (x - g) - x

/-! ## One coordinate -/

@[simp] theorem get_project (B : Box α n) (x : Vector α n) (i : Fin n) :
    (B.project x).get i = (B.side i).clamp (x.get i) :=
  Vector.getElem_zipWith i.isLt

@[simp] theorem get_inset (B : Box α n) (x : Vector α n) (i : Fin n) :
    (B.inset x).get i = (B.side i).inset (x.get i) :=
  Vector.getElem_zipWith i.isLt

theorem firstEmpty?_eq_none_iff {B : Box α n} :
    B.firstEmpty? = none ↔ ∀ i : Fin n, ¬ (B.side i).IsEmpty := by
  simp [firstEmpty?]

@[simp] theorem mem_fixed {B : Box α n} {i : Fin n} : i ∈ B.fixed ↔ (B.side i).IsFixed := by
  simp [fixed]

@[simp] theorem mem_oneSided {B : Box α n} {i : Fin n} :
    i ∈ B.oneSided ↔ (B.side i).IsOneSided := by
  simp only [oneSided, List.mem_filter, List.mem_finRange, true_and, decide_eq_true_iff]

end Box

end LogBarrier

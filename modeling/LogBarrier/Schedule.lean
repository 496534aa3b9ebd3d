import LogBarrier.Scalar

/-!
# Geometric schedules

A parameter that shrinks by a constant factor until it meets its floor, and then stays there. The
barrier parameter and the tolerances of the inner solver follow such schedules.
-/

namespace LogBarrier

structure Schedule (α : Type) where
  initial : α
  rate : α
  floor : α
  value : α

namespace Schedule

variable {α : Type}

def start (initial rate floor : α) : Schedule α := ⟨initial, rate, floor, initial⟩

def reset (s : Schedule α) : Schedule α := { s with value := s.initial }

@[simp] theorem reset_start (initial rate floor : α) :
    (start initial rate floor).reset = start initial rate floor := rfl

@[simp] theorem reset_reset (s : Schedule α) : s.reset.reset = s.reset := rfl

variable [Scalar α]

def advance (s : Schedule α) : Schedule α :=
  { s with value := Scalar.max s.floor (s.rate * s.value) }

abbrev AtFloor (s : Schedule α) : Prop := s.value ≤ s.floor

@[simp] theorem reset_advance (s : Schedule α) : s.advance.reset = s.reset := rfl

@[simp] theorem floor_advance (s : Schedule α) : s.advance.floor = s.floor := rfl

@[simp] theorem rate_advance (s : Schedule α) : s.advance.rate = s.rate := rfl

@[simp] theorem value_advance (s : Schedule α) :
    s.advance.value = Scalar.max s.floor (s.rate * s.value) := rfl

end Schedule

end LogBarrier

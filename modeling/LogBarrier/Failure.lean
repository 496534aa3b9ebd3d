/-!
# Failures

Why a computation stops without an answer. An `Error` is reported to the caller with its message.
The other failures are for callers to rule out: `lengthMismatch` means that vectors of different
lengths met in one componentwise operation, `noRoom` that room was asked for more pairs than any
store can hold.
-/

namespace LogBarrier

inductive Error where
  | invalidOption (option reason : String)
  | dimensionMismatch (expected found : Nat)
  /-- The variable `index` has no admissible value. -/
  | emptyBox (index : Nat)
  | notFinite (quantity : String)
  | reportFailed
  deriving Repr, DecidableEq

def Error.message : Error → String
  | invalidOption option reason => "Invalid option '" ++ option ++ "': " ++ reason
  | dimensionMismatch expected found =>
    "Dimension mismatch: expected " ++ toString expected ++ ", found " ++ toString found
  | emptyBox index =>
    "Empty feasible region: lower bound exceeds upper bound at index " ++ toString index
  | notFinite quantity => "Non-finite " ++ quantity
  | reportFailed => "Failed to write iteration report"

inductive Failure where
  | error (e : Error)
  | lengthMismatch
  | noRoom
  deriving Repr, DecidableEq

variable {α : Type} {n : Nat}

/-- `xs` as a vector of length `n`. -/
def sized (n : Nat) (xs : Array α) : Except Failure (Vector α n) :=
  if h : xs.size = n then .ok ⟨xs, h⟩ else .error .lengthMismatch

@[simp] theorem sized_toArray (x : Vector α n) : sized n x.toArray = .ok x := by
  simp [sized]

theorem sized_eq_ok_iff {xs : Array α} {x : Vector α n} :
    sized n xs = .ok x ↔ xs = x.toArray := by
  constructor
  · intro h
    unfold sized at h
    split at h
    · cases h; rfl
    · cases h
  · rintro rfl
    exact sized_toArray x

theorem sized_eq_error {xs : Array α} {e : Failure} (h : sized n xs = .error e) :
    e = .lengthMismatch := by
  unfold sized at h
  split at h
  · cases h
  · cases h; rfl

theorem sized_of_ne {xs : Array α} (h : xs.size ≠ n) : sized n xs = .error .lengthMismatch :=
  dif_neg h

end LogBarrier

import LogBarrier.Box
import LogBarrier.Objective

/-!
# Projected line search

Backtracking along the projection of a ray. A trial is accepted when it moves, when the gradient
predicts a decrease, and when the value falls by at least a fixed fraction of that prediction. A
trial that does not move or has no predicted decrease is passed over without asking for its value.
-/

namespace LogBarrier

open Scalar

structure LineSearch (α : Type) where
  /-- The fraction of the predicted decrease that is asked for. -/
  fraction : α
  /-- The factor of the step length after a rejection. -/
  rate : α
  maxBacktracks : Nat

/-- Where a search ended. After a failure it holds the point that the next step length leads to and
the value computed last. -/
structure Trial (α : Type) (n : Nat) where
  alpha : α
  x : Vector α n
  value : α
  accepted : Bool

namespace LineSearch

variable {α : Type} [Scalar α] {n : Nat}

/-- The point of the projected ray at length `alpha`. -/
def arc (B : Box α n) (x d : Vector α n) (alpha : α) : Vector α n := B.project (x + alpha * d)

/-- Tries at most `left` further lengths, `alpha` first; `last` is the value computed last. -/
def go (P : LineSearch α) (F : Oracle α n) (B : Box α n) (x : Vector α n) (fx : α)
    (g d : Vector α n) : (left : Nat) → (alpha last : α) → Metered α (Trial α n)
  | 0, alpha, last => pure ⟨alpha, arc B x d alpha, last, false⟩
  | left + 1, alpha, last =>
    let t := arc B x d alpha
    let decrease := dot g (t - x)
    if 0 < norm (t - x) ∧ decrease < 0 then do
      let value ← F.value t
      if IsFinite value ∧ value ≤ fx + P.fraction * decrease then
        return ⟨alpha, t, value, true⟩
      else
        P.go F B x fx g d left (alpha * P.rate) value
    else
      P.go F B x fx g d left (alpha * P.rate) last

/-- An accepted trial lies in the box, moves, and decreases the value as asked for. -/
theorem go_accepted {P : LineSearch α} {F : Oracle α n} {B : Box α n} {x : Vector α n} {fx : α}
    {g d : Vector α n} {left : Nat} {alpha last : α}
    (h : (P.go F B x fx g d left alpha last).result.accepted = true) :
    let t := (P.go F B x fx g d left alpha last).result
    t.x = arc B x d t.alpha ∧ t.value = (F.value t.x).result ∧ IsFinite t.value ∧
      0 < norm (t.x - x) ∧ dot g (t.x - x) < 0 ∧
      t.value ≤ fx + P.fraction * dot g (t.x - x) := by
  induction left generalizing alpha last with
  | zero => cases h
  | succ left ih =>
    unfold go at h ⊢
    dsimp only at h ⊢
    split at h
    · rename_i hd
      rw [if_pos hd]
      rw [Metered.result_bind] at h ⊢
      split at h
      · rename_i hv
        rw [if_pos hv]
        exact ⟨rfl, rfl, hv.1, hd.1, hd.2, hv.2⟩
      · rename_i hv
        rw [if_neg hv]
        exact ih h
    · rename_i hd
      rw [if_neg hd]
      exact ih h

/-- Searches from `x`, with value `fx` and gradient `g`, along `d` from the length `alpha`. -/
def search (P : LineSearch α) (F : Oracle α n) (B : Box α n) (x : Vector α n) (fx : α)
    (g d : Vector α n) (alpha : α) : Metered α (Trial α n) :=
  P.go F B x fx g d (P.maxBacktracks + 1) alpha inf

end LineSearch

end LogBarrier

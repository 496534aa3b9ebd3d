import LogBarrier.Failure

/-!
# Secants

A secant approximates the inverse of the second derivative from steps and the changes of the
gradient along them. Solvers only use the operations of the class.
-/

namespace LogBarrier

class Secant (α : outParam Type) (τ : Type) where
  /-- The number of stored pairs. -/
  count : τ → Nat
  reset : τ → τ
  /-- Offers the pair of a step and the change of the gradient along it. -/
  update : {n : Nat} → τ → Vector α n → Vector α n → τ
  /-- Applies the approximation to a vector. -/
  apply : {n : Nat} → τ → Vector α n → Except Failure (Vector α n)

/-- A secant that its owner lends and gets back afterwards. -/
structure Lent (τ : Type) where
  owned : τ

/-- Whoever borrows a secant uses that of the owner. -/
instance {α τ : Type} [Secant α τ] : Secant α (Lent τ) where
  count h := Secant.count h.owned
  reset h := ⟨Secant.reset h.owned⟩
  update h s y := ⟨Secant.update h.owned s y⟩
  apply h v := Secant.apply h.owned v

end LogBarrier

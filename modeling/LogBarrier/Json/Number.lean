import LogBarrier.Decimal
import LogBarrier.Json.Token
import LogBarrier.Scalar

/-!
# JSON numbers

A number becomes a natural number if it is written as one. Any number is a decimal number, and
becomes the scalar nearest to it.
-/

namespace LogBarrier.Json.Number

open Scalar

/-- A natural number of at most `bound`, written without sign, point or exponent. -/
def nat? (bound : Nat) (n : Number) : Option Nat :=
  if n.negative ∨ n.fraction.isSome ∨ n.exponent.isSome then none
  else (some (Text.ofDigits n.whole)).filter (· ≤ bound)

/-- The power of ten that is written after the digits. -/
def power (n : Number) : Int :=
  match n.exponent with
  | none => 0
  | some (minus, ds) => if minus then -(Text.ofDigits ds : Int) else Text.ofDigits ds

/-- The decimal number that is written. -/
def decimal (n : Number) : Decimal :=
  let places := n.fraction.getD []
  ⟨n.negative, Text.ofDigits (n.whole ++ places), n.power - places.length⟩

example : decimal ⟨true, [1, 2], some [5, 0], some (true, [3])⟩ = ⟨true, 1250, -5⟩ := rfl

/-- The scalar nearest to a number, unless it is too large for a finite one. -/
def scalar? {α : Type} [Scalar α] [Numeral α] (n : Number) : Option α :=
  (some (Numeral.ofDecimal n.decimal)).filter fun x => decide (IsFinite x)

end LogBarrier.Json.Number

/-!
# Decimal numbers

A finite decimal number is a coefficient times a power of ten, with a sign. Scalars are written and
read by way of decimal numbers: `Numeral` is what reports, messages and options need to know about
the written form of a scalar.
-/

namespace LogBarrier

structure Decimal where
  negative : Bool
  coefficient : Nat
  exponent : Int
  deriving Repr, DecidableEq

/-- Scientific notation: the first digit of the coefficient, a point before the others if there are
any, and the exponent of the first digit. -/
def Decimal.scientific (d : Decimal) : String :=
  let digits := Nat.toDigits 10 d.coefficient
  let tail := digits.drop 1
  let body := String.ofList (digits.take 1 ++ (if tail.isEmpty then [] else '.' :: tail))
  (if d.negative then "-" else "") ++ body ++ "e" ++ toString (d.exponent + tail.length)

example : Decimal.scientific ⟨false, 15, -8⟩ = "1.5e-7" := by decide +kernel

example : Decimal.scientific ⟨true, 7, 3⟩ = "-7e3" := by decide +kernel

/-- Numbers that can be written and read. -/
class Numeral (α : Type) where
  /-- Scientific notation with the given number of digits after the point. -/
  scientific : (places : Nat) → α → String
  /-- Scientific notation with as few digits as identify the number. -/
  shortest : α → String
  /-- The shortest decimal number that identifies a finite number. -/
  decimal? : α → Option Decimal
  /-- The number nearest to a decimal number. -/
  ofDecimal : Decimal → α
  /-- The number that a text without surrounding blanks stands for. -/
  read? : String → Option α

end LogBarrier

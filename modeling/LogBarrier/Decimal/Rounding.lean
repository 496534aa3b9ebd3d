/-!
# Rounding to decimal digits

Positive rational numbers are rounded to a given number of decimal digits in exact arithmetic. The
rounded quotient lies within half a unit of the exact one, and a tie goes where `Tie` says.
-/

namespace LogBarrier.Rounding

/-- Which of two equally near neighbours is taken. -/
inductive Tie where
  | even
  | up
  deriving Repr, DecidableEq

/-- The integer nearest to `num / den`. -/
def roundDiv (tie : Tie) (num den : Nat) : Nat :=
  let q := num / den
  let r := num % den
  if 2 * r < den then q
  else if den < 2 * r then q + 1
  else match tie with
    | .even => q + q % 2
    | .up => q + 1

theorem roundDiv_cases (tie : Tie) (num den : Nat) :
    (roundDiv tie num den = num / den ∧ 2 * (num % den) ≤ den) ∨
      (roundDiv tie num den = num / den + 1 ∧ den ≤ 2 * (num % den)) := by
  unfold roundDiv
  cases tie <;> dsimp only <;> split <;> (try split) <;> omega

theorem roundDiv_le (tie : Tie) (num den : Nat) :
    2 * (den * roundDiv tie num den) ≤ 2 * num + den := by
  have h := Nat.div_add_mod num den
  rcases roundDiv_cases tie num den with ⟨e, _⟩ | ⟨e, _⟩ <;> rw [e]
  · omega
  · rw [Nat.mul_succ]
    omega

theorem le_roundDiv (tie : Tie) (num : Nat) {den : Nat} (hden : 0 < den) :
    2 * num ≤ 2 * (den * roundDiv tie num den) + den := by
  have h := Nat.div_add_mod num den
  have := Nat.mod_lt num hden
  rcases roundDiv_cases tie num den with ⟨e, _⟩ | ⟨e, _⟩ <;> rw [e]
  · omega
  · rw [Nat.mul_succ]
    omega

theorem roundDiv_even_of_tie {num den : Nat} (h : 2 * (num % den) = den) :
    roundDiv .even num den % 2 = 0 := by
  simp only [roundDiv, h, Nat.lt_irrefl, if_false]
  omega

/-- The number of decimal digits of `n`. -/
def digitCount (n : Nat) : Nat := (Nat.toDigits 10 n).length

/-- The exponent of the leading decimal digit of `num / den`. -/
def magnitude (num den : Nat) : Int :=
  if den ≤ num then digitCount (num / den) - 1
  else -(digitCount ((den + num - 1) / num - 1) : Int)

/-- The pair of numerator and denominator of `num / den` divided by the power of ten. -/
def shift (num den : Nat) (exponent : Int) : Nat × Nat :=
  if 0 ≤ exponent then (num, den * Nat.pow 10 exponent.toNat)
  else (num * Nat.pow 10 (-exponent).toNat, den)

/-- `num / den` rounded to `digits` significant digits: a coefficient with exactly that many digits
and its power of ten. -/
def toDigits (tie : Tie) (digits num den : Nat) : Nat × Int :=
  let p := magnitude num den - (digits - 1 : Nat)
  let (a, b) := shift num den p
  let c := roundDiv tie a b
  if c = Nat.pow 10 digits then (Nat.pow 10 (digits - 1), p + 1) else (c, p)

end LogBarrier.Rounding

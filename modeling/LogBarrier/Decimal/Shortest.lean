import LogBarrier.Decimal.Rounding

/-!
# Shortest decimal forms

A double is a natural number times a power of two. Its shortest form has the least number of digits
with which a decimal number lies among the reals that round to the double, and is the nearest one of
that length.
-/

namespace LogBarrier.Shortest

open Rounding

/-- Numerator and denominator of `m * 2 ^ q`. -/
def ratio (m : Nat) (q : Int) : Nat × Nat :=
  if 0 ≤ q then (m * Nat.pow 2 q.toNat, 1) else (m, Nat.pow 2 (-q).toNat)

/-- A positive double and the ends of the interval of the reals that round to it, over a common
denominator. -/
structure Cell where
  low : Nat
  value : Nat
  high : Nat
  den : Nat
  /-- The ends belong to the interval. -/
  closed : Bool

/-- The cell of `m * 2 ^ q`. Below a power of two the neighbour is only half as far away, except
among the least doubles. -/
def cell (m : Nat) (q : Int) : Cell :=
  let below := if m = Nat.pow 2 52 ∧ -1074 < q then 1 else 2
  let unit := ratio 1 (q - 2)
  ⟨(4 * m - below) * unit.1, 4 * m * unit.1, (4 * m + 2) * unit.1, unit.2, m % 2 = 0⟩

/-- The decimal number `c * 10 ^ p` rounds to the double of the cell. -/
def Cell.contains (k : Cell) (c : Nat) (p : Int) : Bool :=
  let (a, b) := shift (c * k.den) 1 (-p)
  if k.closed then k.low * b ≤ a && a ≤ k.high * b else k.low * b < a && a < k.high * b

/-- The decimal number of `digits` digits nearest to the value of the cell, or its neighbour on the
other side, if one of them rounds to the double. -/
def Cell.candidate? (k : Cell) (tie : Tie) (e : Int) (digits : Nat) : Option (Nat × Int) :=
  let p := e - (digits - 1 : Nat)
  let (a, b) := shift k.value k.den p
  let c := roundDiv tie a b
  let other := if c = a / b then c + 1 else a / b
  if k.contains c p then some (c, p)
  else if k.contains other p then some (other, p)
  else none

/-- Drops the trailing zeros of a coefficient of at most `left` digits. -/
def dropZeros : (left : Nat) → Nat → Int → Nat × Int
  | 0, c, p => (c, p)
  | left + 1, c, p => if c % 10 = 0 then dropZeros left (c / 10) (p + 1) else (c, p)

/-- The coefficient and the power of ten of the shortest form of `m * 2 ^ q`. Seventeen digits
always suffice. -/
def shortest (tie : Tie) (m : Nat) (q : Int) : Nat × Int :=
  let k := cell m q
  let e := magnitude k.value k.den
  match (List.range 17).findSome? fun d => k.candidate? tie e (d + 1) with
  | some (c, p) => dropZeros 17 c p
  | none => (0, 0)

/-- One tenth. -/
example : shortest .even 7205759403792794 (-56) = (1, -1) := by decide +kernel

/-- The least double. -/
example : shortest .even 1 (-1074) = (5, -324) := by decide +kernel

end LogBarrier.Shortest

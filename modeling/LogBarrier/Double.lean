import LogBarrier.Scalar

/-!
# Doubles

Double-precision numbers as scalars, and the exact value that a double stands for.
-/

namespace LogBarrier

namespace Double

/-- The power of two with the given exponent: subnormal below `-1022`, zero or infinite beyond the
range of doubles. -/
def twoPow (e : Int) : Float :=
  if e < -1074 then 0.0
  else if e < -1022 then Float.ofBits (UInt64.ofNat (Nat.pow 2 (e + 1074).toNat))
  else if e ≤ 1023 then Float.ofBits (UInt64.ofNat ((e + 1023).toNat * Nat.pow 2 52))
  else 1.0 / 0.0

end Double

instance : Scalar Float where
  zero := 0.0
  one := 1.0
  decLt := inferInstance
  decLe := inferInstance
  sqrt := Float.sqrt
  log := Float.log
  twoPow := Double.twoPow
  inf := 1.0 / 0.0
  nan := 0.0 / 0.0

namespace Double

/-- The parts of a double: `coefficient * 2 ^ exponent` with a sign, or none of the numbers. -/
inductive Parts where
  | nan
  | infinite (negative : Bool)
  | finite (negative : Bool) (coefficient : Nat) (exponent : Int)
  deriving Repr, DecidableEq

def parts (x : Float) : Parts :=
  let bits : Nat := x.toBits.toNat
  let negative := decide (Nat.pow 2 63 ≤ bits)
  let e : Nat := bits / Nat.pow 2 52 % 2048
  let m := bits % Nat.pow 2 52
  if e = 2047 then if m = 0 then .infinite negative else .nan
  else if e = 0 then .finite negative m (-1074)
  else .finite negative (m + Nat.pow 2 52) (e - 1075)

end Double

end LogBarrier

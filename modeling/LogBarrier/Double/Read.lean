import LogBarrier.Decimal
import LogBarrier.Double.Written
import LogBarrier.Text

/-!
# Reading doubles

The written form of a number: a sign, then digits with at most one point among them and perhaps an
exponent, or the name of infinity or of the value that is no number.
-/

namespace LogBarrier.Double

open Text (ofDigits spanDigits)

/-- Splits off a sign. -/
def spanSign : List Char → Bool × List Char
  | '-' :: cs => (true, cs)
  | '+' :: cs => (false, cs)
  | cs => (false, cs)

/-- The exponent that a text ends with, zero if there is none. -/
def exponent? : List Char → Option Int
  | [] => some 0
  | c :: cs =>
    if c = 'e' ∨ c = 'E' then
      let (negative, cs) := spanSign cs
      let (ds, rest) := spanDigits cs
      if ds.isEmpty ∨ ¬ rest.isEmpty then none
      else some (if negative then -(ofDigits ds : Int) else ofDigits ds)
    else none

/-- A decimal number without its sign. -/
def unsigned? (cs : List Char) : Option (Nat × Int) :=
  let (whole, rest) := spanDigits cs
  let (fraction, rest) := match rest with
    | '.' :: rest => spanDigits rest
    | rest => ([], rest)
  if whole.isEmpty ∧ fraction.isEmpty then none
  else (exponent? rest).map fun e => (ofDigits (whole ++ fraction), e - fraction.length)

/-- The double nearest to `c * 10 ^ e`. Beyond the range of doubles in either direction the power
of ten is not computed. -/
def magnitude (c : Nat) (e : Int) : Float :=
  if c = 0 then 0.0
  else
    let top := e + Rounding.digitCount c
    if 400 < top then 1.0 / 0.0
    else if top < -400 then 0.0
    else if 0 ≤ e then Float.ofScientific c false e.toNat
    else Float.ofScientific c true (-e).toNat

/-- The double nearest to a decimal number, infinite beyond the largest one. A zero keeps its
sign. -/
def ofDecimal (d : Decimal) : Float :=
  let x := magnitude d.coefficient d.exponent
  if d.negative then -x else x

def read? (s : String) : Option Float :=
  let (negative, cs) := spanSign s.toList
  let name := String.ofList (cs.map Char.toLower)
  let size :=
    if name = "inf" ∨ name = "infinity" then some (1.0 / 0.0)
    else if name = "nan" then some (0.0 / 0.0)
    else (unsigned? cs).map fun (c, e) => magnitude c e
  size.map fun x => if negative then -x else x

end LogBarrier.Double

namespace LogBarrier

instance : Numeral Float where
  scientific := Double.scientific
  shortest := Double.shortestText
  decimal? := Double.decimal?
  ofDecimal := Double.ofDecimal
  read? := Double.read?

end LogBarrier

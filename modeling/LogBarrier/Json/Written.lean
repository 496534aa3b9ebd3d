import LogBarrier.Decimal

/-!
# Writing JSON

The JSON forms of decimal numbers and strings.
-/

namespace LogBarrier.Json

/-- A decimal number. Up to sixteen digits before the point, and up to five places after it before
the digits begin, it is written without an exponent, and always with a point. -/
def decimalText (d : Decimal) : String :=
  let digits := Nat.toDigits 10 d.coefficient
  let len := digits.length
  let sign := if d.negative then "-" else ""
  let point := d.exponent + len
  let zeros (n : Nat) : List Char := List.replicate n '0'
  let body :=
    if d.coefficient = 0 then ['0', '.', '0']
    else if 0 ≤ d.exponent ∧ point ≤ 16 then digits ++ zeros d.exponent.toNat ++ ['.', '0']
    else if 0 < point ∧ point ≤ 16 then
      digits.take point.toNat ++ '.' :: digits.drop point.toNat
    else if -5 < point ∧ point ≤ 0 then ['0', '.'] ++ zeros (-point).toNat ++ digits
    else
      (if len = 1 then digits else digits.take 1 ++ '.' :: digits.drop 1)
        ++ 'e' :: (toString (point - 1)).toList
  sign ++ String.ofList body

/-- A character inside a string. -/
def quoted (c : Char) : List Char :=
  if c = '"' ∨ c = '\\' then ['\\', c]
  else if c.toNat < 32 then
    ['\\', 'u', '0', '0', Nat.digitChar (c.toNat / 16), Nat.digitChar (c.toNat % 16)]
  else [c]

def stringText (s : String) : String :=
  String.ofList ('"' :: s.toList.flatMap quoted ++ ['"'])

/-- The text of an object. -/
def objectText (fields : List (String × String)) : String :=
  "\x7b" ++ ",".intercalate (fields.map fun (name, value) => stringText name ++ ":" ++ value)
    ++ "\x7d"

example : decimalText ⟨false, 1, -8⟩ = "1e-8" := by decide +kernel

example : decimalText ⟨true, 125, -4⟩ = "-0.0125" := by decide +kernel

example : decimalText ⟨false, 3, 15⟩ = "3000000000000000.0" := by decide +kernel

end LogBarrier.Json

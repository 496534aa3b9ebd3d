import LogBarrier.Decimal
import LogBarrier.Decimal.Shortest
import LogBarrier.Double

/-!
# Doubles as text

Scientific notation with a given number of places, rounded from the exact value with ties to even,
and with as few digits as identify the double.
-/

namespace LogBarrier.Double

open Rounding Shortest

def signText (negative : Bool) : String := if negative then "-" else ""

/-- The text of a double that is not finite. -/
def infinityText (negative : Bool) : String := signText negative ++ "inf"

def nanText : String := "NaN"

def zeroText (negative : Bool) (places : Nat) : String :=
  signText negative ++ "0" ++ (if places = 0 then "" else ".")
    ++ String.ofList (List.replicate places '0') ++ "e0"

/-- Scientific notation with `places` digits after the point. -/
def scientific (places : Nat) (x : Float) : String :=
  match parts x with
  | .nan => nanText
  | .infinite negative => infinityText negative
  | .finite negative m q =>
    if m = 0 then zeroText negative places
    else
      let (num, den) := ratio m q
      let (c, p) := toDigits .even (places + 1) num den
      Decimal.scientific ⟨negative, c, p⟩

/-- Of two shortest forms that are equally near, the larger one is written. -/
def shortestText (x : Float) : String :=
  match parts x with
  | .nan => nanText
  | .infinite negative => infinityText negative
  | .finite negative m q =>
    if m = 0 then zeroText negative 0
    else
      let (c, p) := shortest .up m q
      Decimal.scientific ⟨negative, c, p⟩

/-- The shortest form of a finite double; of two that are equally near the even one. -/
def decimal? (x : Float) : Option Decimal :=
  match parts x with
  | .finite negative m q =>
    if m = 0 then some ⟨negative, 0, 0⟩
    else
      let (c, p) := shortest .even m q
      some ⟨negative, c, p⟩
  | _ => none

end LogBarrier.Double

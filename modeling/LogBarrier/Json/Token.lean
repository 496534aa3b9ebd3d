import LogBarrier.Text

/-!
# JSON tokens

Splits a text into the tokens of JSON. Numbers stay in their parts, because what a number means
depends on who reads it, and strings stay in code units until a reader wants their characters; a
value that nobody looks at need only be well formed.
-/

namespace LogBarrier.Json

open Text (spanDigits)

/-- A number as written. Digits are kept as numbers below ten. -/
structure Number where
  negative : Bool
  whole : List Nat
  /-- The digits after the point, if there is one. -/
  fraction : Option (List Nat)
  /-- The sign and the digits of the exponent, if there is one. -/
  exponent : Option (Bool × List Nat)
  deriving Repr, DecidableEq

/-- A piece of a string: a character as it stands, or a code unit given by an escape. -/
inductive Piece where
  | char (c : Char)
  | unit (u : Nat)
  deriving Repr, DecidableEq

inductive Token where
  | openObject
  | closeObject
  | openArray
  | closeArray
  | colon
  | comma
  | null
  | bool (b : Bool)
  | number (n : Number)
  | string (s : List Piece)
  deriving Repr, DecidableEq

/-! ## Tokens -/

def hex? (c : Char) : Option Nat :=
  if c.isDigit then some (c.toNat - 48)
  else if 'a' ≤ c ∧ c ≤ 'f' then some (c.toNat - 87)
  else if 'A' ≤ c ∧ c ≤ 'F' then some (c.toNat - 55)
  else none

/-- The character that a one-letter escape stands for. -/
def escape? : Char → Option Char
  | '"' => some '"'
  | '\\' => some '\\'
  | '/' => some '/'
  | 'b' => some '\x08'
  | 'f' => some '\x0c'
  | 'n' => some '\n'
  | 'r' => some '\r'
  | 't' => some '\t'
  | _ => none

/-- Reads a string after its opening quote. -/
def string? : List Char → Option (List Piece × List Char)
  | '"' :: cs => some ([], cs)
  | '\\' :: 'u' :: a :: b :: c :: d :: cs => do
    let u := 4096 * (← hex? a) + 256 * (← hex? b) + 16 * (← hex? c) + (← hex? d)
    let (ps, rest) ← string? cs
    return (.unit u :: ps, rest)
  | '\\' :: e :: cs => do
    let c ← escape? e
    let (ps, rest) ← string? cs
    return (.char c :: ps, rest)
  | c :: cs =>
    if c.toNat < 32 ∨ c = '\\' then none
    else do
      let (ps, rest) ← string? cs
      return (.char c :: ps, rest)
  | [] => none

/-- Reads a number after its sign. -/
def number? (negative : Bool) (cs : List Char) : Option (Number × List Char) := do
  let (whole, rest) := spanDigits cs
  if whole.isEmpty ∨ (whole.head? = some 0 ∧ 1 < whole.length) then none
  else
    let (fraction, rest) ← match rest with
      | '.' :: rest =>
        let (ds, rest) := spanDigits rest
        if ds.isEmpty then none else some (some ds, rest)
      | rest => some (none, rest)
    let (exponent, rest) ← match rest with
      | c :: rest' =>
        if c = 'e' ∨ c = 'E' then
          let (minus, rest') := match rest' with
            | '-' :: r => (true, r)
            | '+' :: r => (false, r)
            | r => (false, r)
          let (ds, rest') := spanDigits rest'
          if ds.isEmpty then none else some (some (minus, ds), rest')
        else some (none, rest)
      | [] => some (none, rest)
    return (⟨negative, whole, fraction, exponent⟩, rest)

/-- Reads the token at the head of a text. -/
def token? : List Char → Option (Token × List Char)
  | '{' :: cs => some (.openObject, cs)
  | '}' :: cs => some (.closeObject, cs)
  | '[' :: cs => some (.openArray, cs)
  | ']' :: cs => some (.closeArray, cs)
  | ':' :: cs => some (.colon, cs)
  | ',' :: cs => some (.comma, cs)
  | '"' :: cs => (string? cs).map fun (s, rest) => (.string s, rest)
  | 'n' :: 'u' :: 'l' :: 'l' :: cs => some (.null, cs)
  | 't' :: 'r' :: 'u' :: 'e' :: cs => some (.bool true, cs)
  | 'f' :: 'a' :: 'l' :: 's' :: 'e' :: cs => some (.bool false, cs)
  | '-' :: cs => (number? true cs).map fun (n, rest) => (.number n, rest)
  | cs => (number? false cs).map fun (n, rest) => (.number n, rest)

/-- The blanks between tokens. -/
def isBlank (c : Char) : Bool := c = ' ' || c = '\n' || c = '\t' || c = '\r'

/-- All tokens of a text; each takes at least one of the `left` characters. -/
def tokens? : (left : Nat) → List Char → Option (List Token)
  | left, cs =>
    match cs.dropWhile isBlank with
    | [] => some []
    | c :: cs =>
      match left with
      | 0 => none
      | left + 1 => do
        let (t, rest) ← token? (c :: cs)
        let ts ← tokens? left rest
        return t :: ts

end LogBarrier.Json

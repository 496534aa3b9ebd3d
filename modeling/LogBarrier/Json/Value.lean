import LogBarrier.Json.Token

/-!
# JSON values

Values are read from tokens, together with what numbers, strings and keys mean to a reader that
asks for them.
-/

namespace LogBarrier

inductive Json where
  | null
  | bool (b : Bool)
  | number (n : Json.Number)
  | string (s : List Json.Piece)
  | array (items : List Json)
  | object (fields : List (List Json.Piece × Json))

namespace Json

/-! ## Grammar -/

mutual

/-- Reads a value; every level of nesting and every item takes one of the `left` steps. -/
def value? : (left : Nat) → List Token → Option (Json × List Token)
  | 0, _ => none
  | left + 1, ts =>
    match ts with
    | .null :: ts => some (.null, ts)
    | .bool b :: ts => some (.bool b, ts)
    | .number n :: ts => some (.number n, ts)
    | .string s :: ts => some (.string s, ts)
    | .openArray :: .closeArray :: ts => some (.array [], ts)
    | .openArray :: ts => (items? left ts).map fun (vs, ts) => (.array vs, ts)
    | .openObject :: .closeObject :: ts => some (.object [], ts)
    | .openObject :: ts => (fields? left ts).map fun (fs, ts) => (.object fs, ts)
    | _ => none

/-- Reads the items of an array that is not empty, up to its end. -/
def items? : (left : Nat) → List Token → Option (List Json × List Token)
  | 0, _ => none
  | left + 1, ts => do
    let (v, ts) ← value? left ts
    match ts with
    | .closeArray :: ts => return ([v], ts)
    | .comma :: ts =>
      let (vs, ts) ← items? left ts
      return (v :: vs, ts)
    | _ => none

/-- Reads the fields of an object that is not empty, up to its end. -/
def fields? : (left : Nat) → List Token → Option (List (List Piece × Json) × List Token)
  | 0, _ => none
  | left + 1, ts =>
    match ts with
    | .string key :: .colon :: ts => do
      let (v, ts) ← value? left ts
      match ts with
      | .closeObject :: ts => return ([(key, v)], ts)
      | .comma :: ts =>
        let (fs, ts) ← fields? left ts
        return ((key, v) :: fs, ts)
      | _ => none
    | _ => none

end

/-- The value that a whole text stands for. -/
def read? (text : String) : Option Json := do
  let cs := text.toList
  let ts ← tokens? cs.length cs
  match ← value? (2 * ts.length + 1) ts with
  | (v, []) => return v
  | _ => none

/-! ## Characters of strings -/

/-- The text that pieces stand for. A code unit of a surrogate pair has to meet its partner. -/
def characters? : List Piece → Option (List Char)
  | [] => some []
  | .char c :: ps => (characters? ps).map (c :: ·)
  | .unit u :: ps =>
    if u < 0xD800 ∨ 0xE000 ≤ u then (characters? ps).map (Char.ofNat u :: ·)
    else
      match ps with
      | .unit v :: ps =>
        if u < 0xDC00 ∧ 0xDC00 ≤ v ∧ v < 0xE000 then
          (characters? ps).map (Char.ofNat (0x10000 + (u - 0xD800) * 0x400 + (v - 0xDC00)) :: ·)
        else none
      | _ => none

def text? (s : List Piece) : Option String := (characters? s).map String.ofList

end Json

end LogBarrier

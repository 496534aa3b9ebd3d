import LogBarrier.Json.Number
import LogBarrier.Json.Value
import LogBarrier.Json.Written
import LogBarrier.Options.Slot

/-!
# Options as a document

Options are written as a JSON object with one field per option. They are read from an object, where
fields that are no options are passed over and missing options keep their default values, or from an
array of values in the order of declaration, which may be short but not long.
-/

namespace LogBarrier.Options

variable {α : Type} [Scalar α] [Numeral α]

/-- Puts a JSON value into a slot. The name of a solver is taken as it is. -/
def fillFrom? (o : Options α) (v : Json) : Slot α → Option (Options α)
  | .number _ put => match v with
    | .number n => n.scalar?.map (put o)
    | _ => none
  | .count limit _ put => match v with
    | .number n => (n.nat? limit).map (put o)
    | _ => none
  | .flag _ put => match v with
    | .bool b => some (put o b)
    | _ => none
  | .solver _ put => match v with
    | .string s => (Json.text? s).map (put o)
    | _ => none

/-- Reads the fields of an object; `seen` are the options read before. -/
def ofFields? (o : Options α) (seen : List String) :
    List (List Json.Piece × Json) → Option (Options α)
  | [] => some o
  | (key, v) :: fields => do
    let key ← Json.text? key
    match slots.lookup key with
    | none => ofFields? o seen fields
    | some slot =>
      if key ∈ seen then none
      else ofFields? (← o.fillFrom? v slot) (key :: seen) fields

/-- Reads the items of an array into the slots, one after the other. -/
def ofItems? (o : Options α) : List Json → List (Slot α) → Option (Options α)
  | [], _ => some o
  | _ :: _, [] => none
  | v :: vs, slot :: slots => do ofItems? (← o.fillFrom? v slot) vs slots

/-- The options that a text describes. -/
def ofText? (text : String) : Option (Options α) := do
  match ← Json.read? text with
  | .object fields => ofFields? standard [] fields
  | .array items => ofItems? standard items (slots.map (·.2))
  | _ => none

/-! ## Writing -/

/-- The value in a slot. A number that is not finite has no form of its own and is written as
`null`. -/
def valueText (o : Options α) : Slot α → String
  | .number get _ => match Numeral.decimal? (get o) with
    | some d => Json.decimalText d
    | none => "null"
  | .count _ get _ => toString (get o)
  | .flag get _ => toString (get o)
  | .solver get _ => Json.stringText (get o)

/-- The options as a JSON object. -/
def toText (o : Options α) : String :=
  Json.objectText (slots.map fun (name, slot) => (name, o.valueText slot))

end LogBarrier.Options

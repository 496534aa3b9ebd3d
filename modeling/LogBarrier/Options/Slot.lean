import LogBarrier.Decimal
import LogBarrier.Options

/-!
# Options by name

Every option has a public name and a slot: what kind of value it takes, how to read it off the
options and how to put it there. Setting an option from a text, reading options from a document and
writing them all go through the table of slots.
-/

namespace LogBarrier

open Scalar

/-- The place of one option. -/
inductive Slot (α : Type) where
  | number (get : Options α → α) (put : Options α → α → Options α)
  /-- A natural number of at most `limit`. -/
  | count (limit : Nat) (get : Options α → Nat) (put : Options α → Nat → Options α)
  | flag (get : Options α → Bool) (put : Options α → Bool → Options α)
  | solver (get : Options α → String) (put : Options α → String → Options α)

namespace Options

variable {α : Type}

/-- The largest count. -/
def maxCount : Nat := Nat.pow 2 64 - 1

/-- All options in the order of their declaration. -/
def slots : List (String × Slot α) :=
  [("mu_min", .number muMin fun o v => { o with muMin := v }),
   ("mu_max", .number muMax fun o v => { o with muMax := v }),
   ("rho", .number rho fun o v => { o with rho := v }),
   ("use_linear_damping", .flag linearDamping fun o v => { o with linearDamping := v }),
   ("kappa_d", .number kappa fun o v => { o with kappa := v }),
   ("initial_gtol", .number initialGtol fun o v => { o with initialGtol := v }),
   ("gtol_shrink_rate", .number gtolRate fun o v => { o with gtolRate := v }),
   ("min_gtol", .number minGtol fun o v => { o with minGtol := v }),
   ("initial_stol", .number initialStol fun o v => { o with initialStol := v }),
   ("stol_shrink_rate", .number stolRate fun o v => { o with stolRate := v }),
   ("min_stol", .number minStol fun o v => { o with minStol := v }),
   ("gradient_tolerance", .number gradientTolerance fun o v => { o with gradientTolerance := v }),
   ("max_outer_iterations", .count maxCount maxOuter fun o v => { o with maxOuter := v }),
   ("max_inner_iterations", .count maxCount maxInner fun o v => { o with maxInner := v }),
   ("max_stall_iterations", .count maxCount maxStall fun o v => { o with maxStall := v }),
   ("verbosity", .count 255 verbosity fun o v => { o with verbosity := v }),
   ("print_header", .flag printHeader fun o v => { o with printHeader := v }),
   ("subproblem_name", .solver solverName fun o v => { o with solverName := v }),
   ("secant_memory", .count maxCount secantMemory fun o v => { o with secantMemory := v }),
   ("armijo_c1", .number armijo fun o v => { o with armijo := v }),
   ("backtracking_rate", .number backtrackingRate fun o v => { o with backtrackingRate := v }),
   ("max_backtracks", .count maxCount maxBacktracks fun o v => { o with maxBacktracks := v })]

/-- A change of options that may fail. -/
abbrev Change (α : Type) := EStateM Error (Options α)

/-- What the text for the option called `name` was read as, if it could be. -/
def parsed {β : Type} (name text : String) : Option β → Change α β
  | some v => pure v
  | none => throw (cannotParse name text)

/-- Puts what the text stands for, blanks around it apart, into the slot of the option called
`name`. -/
def assign [Numeral α] (name text : String) : Slot α → Change α Unit
  | .number _ put => do
    let v ← parsed name text (Numeral.read? (Text.trim text))
    modify fun o => put o v
  | .count limit _ put => do
    let k ← parsed name text (Text.readNat? limit (Text.trim text))
    modify fun o => put o k
  | .flag _ put => do
    let b ← parsed name text (Text.readBool? (Text.trim text))
    modify fun o => put o b
  | .solver _ put => do
    let _ ← parsed name text (SolverChoice.ofName? (Text.trim text))
    modify fun o => put o (Text.trim text)

/-- Sets the option called `name` from its text. Whether the options fit together is not checked
before `validate`. -/
def set [Numeral α] (name text : String) : Change α Unit :=
  match slots.lookup name with
  | none => throw (.invalidOption name "unknown option")
  | some slot => assign name text slot

/-- The two options agree in the slot; numbers are compared as numbers. -/
def agree [Scalar α] (o p : Options α) : Slot α → Bool
  | .number get _ => decide (Same (get o) (get p))
  | .count _ get _ => get o == get p
  | .flag get _ => get o == get p
  | .solver get _ => get o == get p

instance [Scalar α] : BEq (Options α) where
  beq o p := slots.all fun s => agree o p s.2

end Options

end LogBarrier

import LogBarrier.Exact
import LogBarrier.Proofs.Wording

/-!
# Eliminating a fixed variable

A variable that its box fixes can be taken out of a problem: points, gradients and the box lose one
coordinate, and the objective is asked at the points that the fixed value completes. What an
elimination does to vectors and problems is defined here, and with it a translation of what a run on
the whole problem does.
-/

namespace LogBarrier

open Exact

variable {α σ τ β γ : Type} {n : ℕ}

/-- The message without a fixed variable: the opening counts one variable and one fixed one less. -/
def Message.eliminated : Message α → Message α
  | .opened m fixed mu gtol gnorm damping => .opened (m - 1) (fixed - 1) mu gtol gnorm damping
  | l => l

/-- The variable that is taken out of a problem with `n + 1` variables, and its value. -/
structure Elimination (n : ℕ) where
  index : Fin (n + 1)
  value : ℝ

namespace Elimination

variable (E : Elimination n)

/-! ## Points and problems -/

/-- Without the entry of the variable, if there is one. -/
def dropArray (xs : Array α) : Array α := xs.eraseIdxIfInBounds E.index

def drop (x : Vector α (n + 1)) : Vector α n := x.eraseIdx E.index

/-- With `t` as the entry of the variable. -/
def insertArray (t : α) (xs : Array α) : Array α := xs.insertIdxIfInBounds E.index t

/-- Completed by the value of the variable. -/
def fill (xs : Array Exact) : Array Exact := E.insertArray (real E.value) xs

/-- The variable has its value at `x`. -/
def Holds (x : Vector Exact (n + 1)) : Prop := x.get E.index = real E.value

def box (B : Box α (n + 1)) : Box α n := ⟨E.drop B.sides⟩

/-- The box fixes the variable at its value. -/
def Fixes (B : Box Exact (n + 1)) : Prop := B.side E.index = ⟨real E.value, real E.value⟩

/-- The objective of the other variables. -/
noncomputable def objective (f : Objective Exact) : Objective Exact where
  value y := f.value (E.fill y)
  gradient y := E.dropArray (f.gradient (E.fill y))
  product? := f.product?.map fun h y v => E.dropArray (h (E.fill y) (E.insertArray 0 v))

/-- Wherever the variable has its value, the gradient has a real entry for it. -/
def Smooth (f : Objective Exact) : Prop :=
  ∀ y : Vector Exact n, ∃ r, (f.gradient (E.fill y.toArray))[(E.index : ℕ)]? = some (real r)

noncomputable def augmented (A : Augmented Exact (n + 1)) : Augmented Exact n where
  objective := E.objective A.objective
  box := E.box A.box
  mu := A.mu
  kappa := A.kappa
  damping := A.damping
  tally := A.tally

/-! ## Descent -/

def call : Call α → Call α
  | .value x => .value (E.dropArray x)
  | .gradient x => .gradient (E.dropArray x)
  | .product x v => .product (E.dropArray x) (E.dropArray v)

def trial (t : Trial α (n + 1)) : Trial α n := ⟨t.alpha, E.drop t.x, t.value, t.accepted⟩

def iterate (it : Iterate α (n + 1)) : Iterate α n where
  x := E.drop it.x
  value := it.value
  gradient := E.drop it.gradient
  residual := E.drop it.residual
  scale := it.scale

def exit (e : Exit α τ (n + 1)) : Exit α τ n :=
  ⟨E.drop e.x, e.secant, e.notes.map .eliminated, e.outcome⟩

/-- What the words of a descent mean without the variable. -/
def wording : Wording α τ (n + 1) n := ⟨E.call, E.drop, id, .eliminated⟩

def solved (r : Solved α σ τ) : Solved α σ τ :=
  { r with x := E.dropArray r.x, notes := r.notes.map .eliminated }

/-! ## Sessions -/

def state (t : State α) : State α :=
  { t with x := E.dropArray t.x, gradient := E.dropArray t.gradient }

def journal (j : Journal α) : Journal α := j.translate E.call E.state .eliminated

def method (M : Method α σ τ) : Method α σ τ := { M with state := E.state M.state }

noncomputable def session (s : Session Exact σ τ (n + 1)) : Session Exact σ τ n where
  method := E.method s.method
  augmented := E.augmented s.augmented
  x := E.dropArray s.x
  gradient := E.dropArray s.gradient
  projected := E.dropArray s.projected
  sink := s.sink
  journal := E.journal s.journal

theorem session_log (s : Session Exact σ τ (n + 1)) (e : Event Exact) :
    E.session (s.log e) = (E.session s).log (e.translate E.call E.state .eliminated) := by
  unfold Session.log session journal Journal.translate
  dsimp only
  rw [Array.map_push]

theorem session_charge (s : Session Exact σ τ (n + 1)) (h : β → γ) (q : Metered Exact β) :
    E.session (s.charge q) = (E.session s).charge (q.translate E.call h) :=
  congrArg (fun j => { E.session s with
    augmented := (E.augmented s.augmented).count q.tally, journal := j })
    (s.journal.translate_called E.call E.state .eliminated q.calls)

theorem session_fault (s : Session Exact σ τ (n + 1)) :
    E.session s.fault = (E.session s).fault :=
  E.session_log (s.mapState fun t => { t with status := .faulted })
    (.logged (.faulted s.method.state.iteration))

/-- The same failure, or the objective gave a gradient of a wrong length: that length and the one
asked for are told without the variable. -/
inductive SameFailure (f : Objective Exact) : Failure → Failure → Prop
  | same (e : Failure) : SameFailure f e e
  | mismatch (y : Vector Exact n) (h : (f.gradient (E.fill y.toArray)).size ≠ n + 1) :
      SameFailure f (.error (.dimensionMismatch (n + 1) (f.gradient (E.fill y.toArray)).size))
        (.error (.dimensionMismatch n ((f.gradient (E.fill y.toArray)).size - 1)))

/-- What the words of a problem with the objective `f` mean without the variable. -/
noncomputable def translation (f : Objective Exact) : Translation Exact σ τ (n + 1) n where
  call := E.call
  state := E.state
  message := Message.eliminated
  session := E.session
  SameFailure := E.SameFailure f
  same_refl := .same
  session_log := E.session_log
  session_charge s := E.session_charge s id
  session_fault := E.session_fault
  sink_session _ := rfl
  session_sink _ _ := rfl

end Elimination

end LogBarrier

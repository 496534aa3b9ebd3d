import LogBarrier.Norm
import LogBarrier.Secant

/-!
# Limited memory

The secant of the limited-memory method of Broyden, Fletcher, Goldfarb and Shanno. It keeps the
newest pairs of sufficient curvature, oldest first, and applies them by a recursion from the newest
pair to the oldest and back. With pairs of positive curvature the result is a positive definite map
that takes the newest `y` to the newest `s`.
-/

namespace LogBarrier

open Scalar

/-- A step, the change of the gradient along it, and the inverse of their inner product. -/
structure Pair (α : Type) (n : Nat) where
  s : Vector α n
  y : Vector α n
  rho : α

namespace Pair

variable {α : Type} [Scalar α] {n : Nat}

/-- The least curvature of a stored pair, relative to the norms of its parts. -/
def curvatureTolerance : α := 1e-10

/-- The pair of `s` and `y`, if its curvature is finite and large enough. -/
def of? (s y : Vector α n) : Option (Pair α n) :=
  let sy := dot s y
  if ¬ IsFinite sy ∨ sy ≤ curvatureTolerance * norm s * norm y then none
  else some ⟨s, y, 1 / sy⟩

/-- Applies the pairs, newest first, around a multiple of the identity. -/
def recur (gamma : α) : List (Pair α n) → Vector α n → Vector α n
  | [], q => gamma * q
  | p :: older, q =>
    let a := p.rho * dot p.s q
    let r := recur gamma older (q - a * p.y)
    let b := p.rho * dot p.y r
    r + (a - b) * p.s

/-- The multiple of the identity that fits the newest pair. -/
def scale : List (Pair α n) → α
  | [] => 1
  | p :: _ => dot p.s p.y / dot p.y p.y

/-- Applies the approximation held by the pairs, newest first. -/
def apply (newestFirst : List (Pair α n)) (v : Vector α n) : Vector α n :=
  recur (scale newestFirst) newestFirst v

end Pair

/-- A window of pairs, oldest first, of at most `memory` elements. -/
structure LimitedMemory (α : Type) where
  memory : Nat
  window : List ((n : Nat) × Pair α n)
  memory_pos : 0 < memory
  length_le : window.length ≤ memory

namespace LimitedMemory

variable {α : Type}

/-- An empty window; it always has room for one pair. -/
def empty (memory : Nat) : LimitedMemory α where
  memory := Nat.max memory 1
  window := []
  memory_pos := Nat.le_max_right memory 1
  length_le := Nat.zero_le _

/-- The most pairs that room can be set aside for. A pair takes up 40 bytes at the least, and no
store has `2 ^ 63` bytes. -/
def maxMemory : Nat := (Nat.pow 2 63 - 1) / 40

/-- An empty window with room set aside for all its pairs. -/
def reserve (memory : Nat) : Except Failure (LimitedMemory α) :=
  if Nat.max memory 1 ≤ maxMemory then .ok (empty memory) else .error .noRoom

theorem reserve_eq_ok_iff {memory : Nat} {h : LimitedMemory α} :
    reserve memory = .ok h ↔ Nat.max memory 1 ≤ maxMemory ∧ h = empty memory := by
  unfold reserve
  split
  · rename_i hm
    simp only [Except.ok.injEq, hm, true_and]
    exact eq_comm
  · rename_i hm
    simp only [hm, false_and, reduceCtorEq]

/-- The window that a new pair meets: a full one loses its oldest pair. -/
def room (h : LimitedMemory α) : List ((n : Nat) × Pair α n) :=
  if h.window.length = h.memory then h.window.tail else h.window

theorem length_room_lt (h : LimitedMemory α) : h.room.length < h.memory := by
  have := h.memory_pos
  have := h.length_le
  unfold room
  split
  · rw [List.length_tail]
    omega
  · omega

/-- Appends a pair. -/
def push (h : LimitedMemory α) {n : Nat} (p : Pair α n) : LimitedMemory α :=
  { h with
    window := h.room ++ [⟨n, p⟩]
    length_le := by
      have := h.length_room_lt
      rw [List.length_append, List.length_singleton]
      omega }

@[simp] theorem memory_push (h : LimitedMemory α) {n : Nat} (p : Pair α n) :
    (h.push p).memory = h.memory := rfl

@[simp] theorem window_push (h : LimitedMemory α) {n : Nat} (p : Pair α n) :
    (h.push p).window = h.room ++ [⟨n, p⟩] := rfl

def clear (h : LimitedMemory α) : LimitedMemory α :=
  { h with window := [], length_le := Nat.zero_le _ }

/-- The window as pairs of dimension `n`, if all of them have it. -/
def pairs? (h : LimitedMemory α) (n : Nat) : Option (List (Pair α n)) :=
  h.window.mapM fun p => if e : p.1 = n then some (e ▸ p.2) else none

variable [Scalar α]

instance : Secant α (LimitedMemory α) where
  count h := h.window.length
  reset h := h.clear
  update h s y := match Pair.of? s y with
    | some p => h.push p
    | none => h
  apply h v := match h.pairs? _ with
    | some ps => .ok (Pair.apply ps.reverse v)
    | none => .error .lengthMismatch

end LimitedMemory

end LogBarrier

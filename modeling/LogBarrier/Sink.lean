/-!
# The report sink

Where a report goes. A sink may run out of room; what is written then is cut where the room ends.
-/

namespace LogBarrier

/-- A sink with room for a number of bytes, or for any number. -/
structure Sink where
  room : Option Nat
  deriving Repr, DecidableEq

/-- What a write leaves: the sink, the bytes that it accepted, and whether these are all. -/
structure Written where
  sink : Sink
  accepted : List UInt8
  complete : Bool
  deriving Repr, DecidableEq

namespace Sink

def unlimited : Sink := ⟨none⟩

/-- Writes as many bytes as there is room for. -/
def write (k : Sink) (bytes : List UInt8) : Written :=
  match k.room with
  | none => ⟨k, bytes, true⟩
  | some r => ⟨⟨some (r - bytes.length)⟩, bytes.take r, decide (bytes.length ≤ r)⟩

@[simp] theorem write_unlimited (bytes : List UInt8) :
    unlimited.write bytes = ⟨unlimited, bytes, true⟩ := rfl

theorem write_room (r : Nat) (bytes : List UInt8) :
    write ⟨some r⟩ bytes =
      ⟨⟨some (r - bytes.length)⟩, bytes.take r, decide (bytes.length ≤ r)⟩ := rfl

theorem complete_write_iff {k : Sink} {bytes : List UInt8} :
    (k.write bytes).complete = true ↔ (k.write bytes).accepted = bytes := by
  obtain ⟨room⟩ := k
  cases room with
  | none => simp [write]
  | some r =>
    simp only [write, decide_eq_true_eq]
    constructor
    · exact List.take_of_length_le
    · intro h
      have := List.length_take_le r bytes
      rwa [h] at this

end Sink

end LogBarrier

import LogBarrier.Double

/-!
# Operations on nan

A sum, a difference or a product of doubles with `nan` among them is `nan`.
-/

namespace LogBarrier.Double

open Float.Model

theorem unpack_pack_nan : (Float.Model.pack .notANumber).unpack = .notANumber := rfl

/-- An operation that answers `nan` to `nan` has numbers only behind a number. -/
theorem ne_nan_of_strict {f : UnpackedFloat → UnpackedFloat → UnpackedFloat}
    (hleft : ∀ u, f .notANumber u = .notANumber) (hright : ∀ u, f u .notANumber = .notANumber)
    {a b c : Float}
    (hc : c.toModel.unpack = (Float.Model.pack (f a.toModel.unpack b.toModel.unpack)).unpack)
    (h : c.toModel.unpack ≠ .notANumber) :
    a.toModel.unpack ≠ .notANumber ∧ b.toModel.unpack ≠ .notANumber := by
  constructor
  · intro ha
    rw [hc, ha, hleft] at h
    exact h unpack_pack_nan
  · intro hb
    rw [hc, hb, hright] at h
    exact h unpack_pack_nan

variable {a b : Float}

theorem ne_nan_of_add (h : (a + b).toModel.unpack ≠ .notANumber) :
    a.toModel.unpack ≠ .notANumber ∧ b.toModel.unpack ≠ .notANumber := by
  refine ne_nan_of_strict (f := UnpackedFloat.add .binary64) (fun u => rfl) (fun u => ?_) rfl h
  cases u <;> rfl

theorem ne_nan_of_sub (h : (a - b).toModel.unpack ≠ .notANumber) :
    a.toModel.unpack ≠ .notANumber ∧ b.toModel.unpack ≠ .notANumber := by
  refine ne_nan_of_strict (f := UnpackedFloat.sub .binary64) (fun u => rfl) (fun u => ?_) rfl h
  cases u <;> rfl

theorem ne_nan_of_mul (h : (a * b).toModel.unpack ≠ .notANumber) :
    a.toModel.unpack ≠ .notANumber ∧ b.toModel.unpack ≠ .notANumber := by
  refine ne_nan_of_strict (f := UnpackedFloat.mul .binary64) (fun u => rfl) (fun u => ?_) rfl h
  cases u <;> rfl

end LogBarrier.Double

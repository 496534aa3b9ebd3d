import LogBarrier.Double.Product
import LogBarrier.Exact
import LogBarrier.Proofs.Trace

/-!
# Scalars with an order

The laws of comparison that hold of doubles and of exact scalars alike, and the one law of
multiplication that schedules need. Two positive scalars that are the same are equal, and shrinking
by a factor does not enlarge. Addition is not mentioned: doubles round it.
-/

namespace LogBarrier

open Scalar

class OrderedScalar (α : Type) [Scalar α] : Prop where
  lt_iff_le_not_le {x y : α} : x < y ↔ x ≤ y ∧ ¬ y ≤ x
  le_refl_left {x y : α} : x ≤ y → x ≤ x
  le_refl_right {x y : α} : x ≤ y → y ≤ y
  le_total {x y : α} : x ≤ x → y ≤ y → x ≤ y ∨ y ≤ x
  eq_of_pos {x y : α} : 0 < x → x ≤ y → y ≤ x → x = y
  mul_le_of_lt_one {r x : α} : 0 < r → r < 1 → 0 < x → r * x ≤ x

namespace OrderedScalar

variable {α : Type} [Scalar α] [OrderedScalar α] {x y : α}

theorem le_of_lt (h : x < y) : x ≤ y := (lt_iff_le_not_le.mp h).1

theorem refl_of_lt (h : x < y) : y ≤ y := le_refl_right (le_of_lt h)

/-- Without `nan` one of two scalars is less than the other if it is not reached by it. -/
theorem lt_of_not_le (hx : x ≤ x) (hy : y ≤ y) (h : ¬ y ≤ x) : x < y := by
  refine lt_iff_le_not_le.mpr ⟨?_, h⟩
  obtain hxy | hyx := le_total hx hy
  · exact hxy
  · exact absurd hyx h

theorem not_le_of_lt (h : x < y) : ¬ y ≤ x := (lt_iff_le_not_le.mp h).2

end OrderedScalar

instance : OrderedScalar Exact where
  lt_iff_le_not_le := Exact.lt_iff_le_not_le
  le_refl_left {x y} h := by
    refine Exact.le_refl_of_ne ?_
    rintro rfl
    exact Exact.not_nan_le y h
  le_refl_right {x y} h := by
    refine Exact.le_refl_of_ne ?_
    rintro rfl
    exact Exact.not_le_nan x h
  le_total {x y} hx hy := by
    refine Exact.le_total ?_ ?_
    · rintro rfl
      exact Exact.not_nan_le _ hx
    · rintro rfl
      exact Exact.not_nan_le _ hy
  eq_of_pos _ := Exact.le_antisymm
  mul_le_of_lt_one {r x} hr hr1 hx := by
    have hr1 := (Exact.lt_iff_le_not_le.mp hr1).1
    obtain ⟨a, rfl⟩ := Exact.exists_real_of_le_of_le (Exact.lt_iff_le_not_le.mp hr).1 hr1
    cases x with
    | nan => exact hx.elim
    | negInf => exact hx.elim
    | real b =>
      exact mul_le_of_le_one_left (le_of_lt (Exact.zero_lt_real.mp hx)) (Exact.real_le_real.mp hr1)
    | posInf =>
      show Exact.scaledInf a ≤ .posInf
      rw [Exact.scaledInf, if_pos (Exact.zero_lt_real.mp hr)]
      trivial

instance : OrderedScalar Float where
  lt_iff_le_not_le {x y} := Double.lt_iff_le_not_le x y
  le_refl_left h := Double.le_refl_of_ne_nan (Double.ne_nan_of_le h).1
  le_refl_right h := Double.le_refl_of_ne_nan (Double.ne_nan_of_le h).2
  le_total hx hy :=
    Double.le_total_of_ne_nan (Double.ne_nan_of_le hx).1 (Double.ne_nan_of_le hy).1
  eq_of_pos := Double.eq_of_pos
  mul_le_of_lt_one := Double.mul_le_of_lt_one

/-- Scalars among which comparison is transitive as well. -/
class TransitiveScalar (α : Type) [Scalar α] : Prop extends OrderedScalar α where
  le_trans {x y z : α} : x ≤ y → y ≤ z → x ≤ z

instance : TransitiveScalar Exact where
  le_trans := Exact.le_trans

instance : TransitiveScalar Float where
  le_trans := Double.le_trans

/-! ## Schedules on their floor -/

section

variable {α : Type} [Scalar α] [OrderedScalar α]

/-- A schedule that starts above a positive floor and shrinks. -/
structure Schedule.Falls (s : Schedule α) : Prop where
  floor_pos : 0 < s.floor
  floor_le : s.floor ≤ s.initial
  rate_pos : 0 < s.rate
  rate_lt : s.rate < 1

theorem Schedule.Falls.floor_le_value {s : Schedule α} (h : s.Falls) (k : Nat) :
    s.floor ≤ (s.after k).value ∧ (s.after k).floor = s.floor ∧ (s.after k).rate = s.rate := by
  induction k with
  | zero => exact ⟨h.floor_le, rfl, rfl⟩
  | succ k ih =>
    obtain ⟨-, hfloor, hrate⟩ := ih
    have hrefl : s.floor ≤ s.floor := OrderedScalar.refl_of_lt h.floor_pos
    refine ⟨?_, hfloor, hrate⟩
    rw [Schedule.after, Schedule.value_advance, hfloor, Scalar.max, if_pos hrefl]
    split
    · rename_i hle
      exact hle
    · exact hrefl

/-- A schedule that has met its floor is equal to it and stays there. -/
theorem Schedule.Falls.value_succ_of_atFloor {s : Schedule α} (h : s.Falls) {k : Nat}
    (hk : (s.after k).AtFloor) : (s.after (k + 1)).value = s.floor := by
  obtain ⟨hle, hfloor, hrate⟩ := h.floor_le_value k
  have hrefl : s.floor ≤ s.floor := OrderedScalar.refl_of_lt h.floor_pos
  rw [Schedule.AtFloor, hfloor] at hk
  have hvalue : s.floor = (s.after k).value := OrderedScalar.eq_of_pos h.floor_pos hle hk
  have hshrunk : s.rate * s.floor ≤ s.floor :=
    OrderedScalar.mul_le_of_lt_one h.rate_pos h.rate_lt h.floor_pos
  rw [Schedule.after, Schedule.value_advance, hfloor, hrate, ← hvalue, Scalar.max, if_pos hrefl]
  split
  · -- The maximum is the shrunk floor only if it is as large as the floor.
    rename_i hback
    exact (OrderedScalar.eq_of_pos h.floor_pos hback hshrunk).symm
  · rfl

omit [OrderedScalar α] in
theorem Options.Valid.mu_falls {o : Options α} (h : o.Valid) : (Schedules.ofOptions o).mu.Falls :=
  ⟨h.muMin_pos, h.muMin_le, h.rho.1, h.rho.2⟩

omit [OrderedScalar α] in
theorem Method.Keeps.mu_falls {σ τ : Type} {o : Options α} {M : Method α σ τ} (h : M.Keeps o) :
    M.schedules.mu.Falls := by
  have hplan : M.schedules.mu.reset = (Schedules.ofOptions o).mu :=
    congrArg Schedules.mu h.plan
  have hfalls : M.schedules.mu.reset.Falls := hplan ▸ h.valid.mu_falls
  exact ⟨hfalls.floor_pos, hfalls.floor_le, hfalls.rate_pos, hfalls.rate_lt⟩

end

end LogBarrier

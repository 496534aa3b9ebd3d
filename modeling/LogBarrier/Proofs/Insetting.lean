import LogBarrier.Proofs.Nearest
import LogBarrier.Proofs.Terms

/-!
# Insetting is a projection

With exact arithmetic, a side whose finite ends are drawn in by their margins is a side again: the
margins of two different ends never take more than the whole width. Insetting clamps to the sides
that were drawn in, although it looks at the lower end first, so it leads to the nearest of the
points that keep the margins.
-/

namespace LogBarrier

open Scalar Exact

variable {n : ℕ}

/-! ## One side -/

namespace Interval

/-- How far a point keeps from the finite end `b`. -/
noncomputable def push (I : Interval Exact) (b : ℝ) : ℝ :=
  match I.lower, I.upper with
  | .real l, .real u => min (wideMargin b) (0.01 * (u - l))
  | _, _ => wideMargin b

/-- The numbers that keep the margins of the finite ends, or the value of a fixed variable. -/
structure Spaced (I : Interval Exact) (z : ℝ) : Prop where
  fixed : I.lower = I.upper → real z = I.lower
  above : I.lower ≠ I.upper → ∀ l, I.lower = real l → l + I.push l ≤ z
  below : I.lower ≠ I.upper → ∀ u, I.upper = real u → z ≤ u - I.push u

open Classical in
/-- The side with its ends drawn in. -/
noncomputable def core (I : Interval Exact) : Interval Exact :=
  match I.lower, I.upper with
  | .real l, .real u => if l = u then I else ⟨real (l + I.push l), real (u - I.push u)⟩
  | .real l, _ => ⟨real (l + I.push l), .posInf⟩
  | _, .real u => ⟨.negInf, real (u - I.push u)⟩
  | _, _ => I

variable {I : Interval Exact} {l u z : ℝ}

theorem core_above (l : ℝ) :
    (⟨real l, .posInf⟩ : Interval Exact).core = ⟨real (l + wideMargin l), .posInf⟩ := rfl

theorem core_below (u : ℝ) :
    (⟨.negInf, real u⟩ : Interval Exact).core = ⟨.negInf, real (u - wideMargin u)⟩ := rfl

theorem core_between (h : l ≠ u) :
    (⟨real l, real u⟩ : Interval Exact).core =
      ⟨real (l + min (wideMargin l) (0.01 * (u - l))),
        real (u - min (wideMargin u) (0.01 * (u - l)))⟩ :=
  if_neg h

theorem core_fixed (l : ℝ) : (⟨real l, real l⟩ : Interval Exact).core = ⟨real l, real l⟩ :=
  if_pos rfl

/-- Two margins take at most a fiftieth of the width. -/
theorem ends_le (h : l ≤ u) :
    l + min (wideMargin l) (0.01 * (u - l)) ≤ u - min (wideMargin u) (0.01 * (u - l)) := by
  have hlower : min (wideMargin l) (0.01 * (u - l)) ≤ 0.01 * (u - l) := min_le_right ..
  have hupper : min (wideMargin u) (0.01 * (u - l)) ≤ 0.01 * (u - l) := min_le_right ..
  linarith

theorem Regular.core (hI : I.Regular) : I.core.Regular := by
  cases hI with
  | free => exact .free
  | above l => exact .above _
  | below u => exact .below _
  | @between l u hle =>
    by_cases h : l = u
    · subst h
      rw [core_fixed]
      exact .between le_rfl
    · rw [core_between h]
      exact .between (ends_le hle)

/-- Insetting is clamping to the side with its ends drawn in. -/
theorem Regular.inset_real (hI : I.Regular) (r : ℝ) : I.inset (real r) = I.core.clamp (real r) := by
  cases hI with
  | free =>
    unfold inset
    rw [if_neg (show ¬ (⟨.negInf, .posInf⟩ : Interval Exact).IsFixed from And.right),
      if_neg not_isFinite_negInf, if_neg not_isFinite_posInf]
    exact (clamp_of_contains ⟨trivial, trivial⟩).symm
  | above l =>
    unfold inset
    rw [if_neg fun hfixed => hfixed.2.elim, if_pos (isFinite_real l), if_neg not_isFinite_posInf,
      margin_of_infinite l not_isFinite_posInf, real_add_real, core_above, clamp, raise_real,
      cut_posInf]
  | below u =>
    unfold inset
    rw [if_neg fun hfixed => hfixed.2.elim, if_neg not_isFinite_negInf, if_pos (isFinite_real u),
      margin_of_infinite u not_isFinite_negInf, real_sub_real, core_below, clamp, raise_negInf]
  | @between l u hle =>
    by_cases h : l = u
    · subst h
      rw [inset_of_fixed ⟨real_le_real.mpr le_rfl, real_le_real.mpr le_rfl⟩, core_fixed, clamp,
        raise_real, cut_real, min_eq_left (le_max_left l r)]
    · unfold inset
      rw [if_neg fun hfixed => h (le_antisymm hfixed.1 hfixed.2), if_pos (isFinite_real l),
        if_pos (isFinite_real u), margin_between, margin_between, real_add_real, real_sub_real,
        core_between h]
      rfl

/-- The side with its ends drawn in has the numbers that keep the margins. -/
theorem Regular.core_contains_iff (hI : I.Regular) : I.core.Contains (real z) ↔ I.Spaced z := by
  cases hI with
  | free => exact iff_of_true ⟨trivial, trivial⟩ ⟨nofun, nofun, nofun⟩
  | above l =>
    constructor
    · rintro ⟨hlower, -⟩
      refine ⟨nofun, fun _ b hb => ?_, nofun⟩
      cases hb
      exact hlower
    · intro h
      exact ⟨h.above nofun l rfl, trivial⟩
  | below u =>
    constructor
    · rintro ⟨-, hupper⟩
      refine ⟨nofun, nofun, fun _ b hb => ?_⟩
      cases hb
      exact hupper
    · intro h
      exact ⟨trivial, h.below nofun u rfl⟩
  | @between l u hle =>
    by_cases h : l = u
    · subst h
      rw [core_fixed]
      constructor
      · rintro ⟨hlower, hupper⟩
        exact ⟨fun _ => Exact.le_antisymm hupper hlower, fun hne => absurd rfl hne,
          fun hne => absurd rfl hne⟩
      · intro hz
        have heq : real z = real l := hz.fixed rfl
        rw [heq]
        exact ⟨real_le_real.mpr le_rfl, real_le_real.mpr le_rfl⟩
    · have hne : real l ≠ real u := fun heq => h (Exact.real.inj heq)
      rw [core_between h]
      constructor
      · rintro ⟨hlower, hupper⟩
        refine ⟨fun heq => absurd heq hne, fun _ b hb => ?_, fun _ b hb => ?_⟩
        · cases hb
          exact hlower
        · cases hb
          exact hupper
      · intro hz
        exact ⟨hz.above hne l rfl, hz.below hne u rfl⟩

end Interval

/-! ## Boxes -/

namespace Box

/-- The points that keep the margins of all sides. -/
def Spaced (B : Box Exact n) (z : Fin n → ℝ) : Prop := ∀ i, (B.side i).Spaced (z i)

noncomputable def core (B : Box Exact n) : Box Exact n := ⟨B.sides.map Interval.core⟩

variable {B : Box Exact n} {a p z : Fin n → ℝ}

@[simp] theorem side_core (B : Box Exact n) (i : Fin n) : B.core.side i = (B.side i).core :=
  Vector.getElem_map _ i.isLt

theorem Regular.core (hB : B.Regular) : B.core.Regular := by
  intro i
  rw [side_core]
  exact (hB i).core

theorem Regular.core_feasible_iff (hB : B.Regular) : B.core.Feasible (vec z) ↔ B.Spaced z := by
  refine forall_congr' fun i => ?_
  rw [side_core, get_vec]
  exact (hB i).core_contains_iff

theorem Regular.inset_vec (hB : B.Regular) (a : Fin n → ℝ) :
    B.inset (vec a) = vec (B.core.nearest a) := by
  rw [← hB.core.project_vec]
  refine ext_get fun i => ?_
  rw [get_inset, get_project, side_core, get_vec]
  exact (hB i).inset_real (a i)

/-- The nearest point, a feasible point and the point that was projected make an angle that is not
acute. -/
theorem Regular.sq_length_sub_nearest_le (hB : B.Regular) (hz : B.Feasible (vec z)) :
    length (a - B.nearest a) ^ 2 + length (z - B.nearest a) ^ 2 ≤ length (a - z) ^ 2 := by
  have hobtuse := hB.project_obtuse (hB.project_vec a) hz
  have hsplit : a - z = (a - B.nearest a) - (z - B.nearest a) := (sub_sub_sub_cancel_right ..).symm
  rw [hsplit]
  generalize a - B.nearest a = d at hobtuse ⊢
  generalize z - B.nearest a = e at hobtuse ⊢
  rw [sq_length, sq_length, sq_length, sub_dotProduct, dotProduct_sub, dotProduct_sub,
    dotProduct_comm e d]
  linarith

/-- What becomes of the real point `a` when it is moved inside to `p`. -/
structure Insets (B : Box Exact n) (a p : Fin n → ℝ) : Prop where
  inset_eq : B.inset (vec a) = vec p
  spaced : B.Spaced p
  interior : B.Interior (vec p)
  closest : ∀ z, B.Spaced z → length (a - p) ≤ length (a - z)
  unique : ∀ z, B.Spaced z → length (a - z) ≤ length (a - p) → z = p
  idempotent : B.inset (B.inset (vec a)) = B.inset (vec a)
  unmoved_iff : B.inset (vec a) = vec a ↔ B.Spaced a
  project_eq : B.project (vec p) = vec p
  barrier_finite (κ : ℝ) : IsFinite (B.barrier (real κ) (vec p))
  slopes_finite (κ : ℝ) : AllFinite (B.barrierSlopes (real κ) (vec p))
  curvatures_finite (κ : ℝ) : AllFinite (B.barrierCurvatures (real κ) (vec p))

/-- Insetting leads to the nearest of the points that keep the margins, all of which lie strictly
between the ends, where the barrier and its derivatives are finite. -/
theorem Regular.inset_to_nearest (hB : B.Regular) (a : Fin n → ℝ) : ∃ p, B.Insets a p := by
  have hcore := hB.core
  have hspaced : B.Spaced (B.core.nearest a) :=
    hB.core_feasible_iff.mp (hcore.feasible_nearest a)
  have hfixed (z : Fin n → ℝ) (hz : B.Spaced z) : B.inset (vec z) = vec z := by
    rw [hB.inset_vec, hcore.nearest_of_feasible (hB.core_feasible_iff.mpr hz)]
  have hinterior : B.Interior (vec (B.core.nearest a)) := by
    rw [← hB.inset_vec]
    exact hB.interior_inset (allFinite_vec a)
  have hangle (z : Fin n → ℝ) (hz : B.Spaced z) :=
    hcore.sq_length_sub_nearest_le (a := a) (hB.core_feasible_iff.mpr hz)
  refine ⟨B.core.nearest a, hB.inset_vec a, hspaced, hinterior, fun z hz => ?_, fun z hz hle => ?_,
    ?_, ⟨fun heq => ?_, hfixed a⟩, hB.project_of_interior hinterior, fun κ => ?_, fun κ => ?_,
    fun κ => ?_⟩
  · have hsq : length (a - B.core.nearest a) ^ 2 ≤ length (a - z) ^ 2 :=
      (le_add_of_nonneg_right (sq_nonneg _)).trans (hangle z hz)
    exact le_of_sq_le_sq hsq (length_nonneg _)
  · have hsq : length (a - z) ^ 2 ≤ length (a - B.core.nearest a) ^ 2 :=
      pow_le_pow_left₀ (length_nonneg _) hle 2
    have hzero : length (z - B.core.nearest a) ^ 2 = 0 :=
      le_antisymm (by linarith [hangle z hz]) (sq_nonneg _)
    exact sub_eq_zero.mp (length_eq_zero_iff.mp (pow_eq_zero_iff two_ne_zero |>.mp hzero))
  · rw [hB.inset_vec, hfixed _ hspaced]
  · rw [hB.inset_vec] at heq
    rw [← vec_injective heq]
    exact hspaced
  · rw [hB.barrier_vec hinterior]
    exact isFinite_real _
  · rw [hB.barrierSlopes_vec hinterior]
    exact allFinite_vec _
  · rw [hB.barrierCurvatures_vec hinterior]
    exact allFinite_vec _

/-- One side of each kind. -/
theorem Regular.inset_to_nearest_kinds :
    let B : Box Exact 5 := between
      #v[.negInf, .real 0, .negInf, .real 2, .real 0]
      #v[.posInf, .posInf, .real 3, .real 2, .real 1]
    B.Regular ∧ ∃ p, B.Insets ![7, -1, 5, 0, 1 / 2] p := by
  intro B
  have hB : B.Regular := by
    intro i
    rw [side_between]
    fin_cases i
    · exact .free
    · exact .above 0
    · exact .below 3
    · exact .between le_rfl
    · exact .between zero_le_one
  exact ⟨hB, hB.inset_to_nearest _⟩

end Box

end LogBarrier

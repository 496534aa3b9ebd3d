import LogBarrier.Barrier
import LogBarrier.Exact.Vector
import LogBarrier.Proofs.Numbers
import Mathlib.Tactic.Linarith
import Mathlib.Tactic.Positivity

/-!
# The interior of a box

With exact arithmetic, the points strictly between the ends of every interval that is not fixed.
Moving a point inside leads there, projecting leaves such a point alone, and the barrier has a term
at no other point.
-/

namespace LogBarrier

open Scalar Exact

variable {n : ℕ}

namespace Interval

/-- Some number lies in the interval, and its infinite ends are on their sides. -/
inductive Regular : Interval Exact → Prop
  | free : Regular ⟨.negInf, .posInf⟩
  | above (l : ℝ) : Regular ⟨.real l, .posInf⟩
  | below (u : ℝ) : Regular ⟨.negInf, .real u⟩
  | between {l u : ℝ} (h : l ≤ u) : Regular ⟨.real l, .real u⟩

/-- Strictly between the ends, or at the value of a fixed variable. -/
structure Interior (I : Interval Exact) (x : Exact) : Prop where
  between : I.lower ≠ I.upper → I.lower < x ∧ x < I.upper
  fixed : I.lower = I.upper → x = I.lower

variable {I : Interval Exact} {x : Exact}

theorem Regular.nonempty (h : I.Regular) : I.lower ≤ I.upper := by
  cases h with
  | free => trivial
  | above l => trivial
  | below u => trivial
  | between h => exact h

theorem isFixed_iff (hI : I.Regular) : I.IsFixed ↔ I.lower = I.upper := by
  constructor
  · rintro ⟨hle, hge⟩
    exact Exact.le_antisymm hle hge
  · intro h
    have hle := hI.nonempty
    rw [← h] at hle
    exact ⟨h ▸ hle, h ▸ hle⟩

theorem Interior.contains (hI : I.Regular) (h : I.Interior x) : I.Contains x := by
  by_cases hfixed : I.lower = I.upper
  · have hle := hI.nonempty
    rw [h.fixed hfixed]
    exact ⟨hfixed ▸ hle, hle⟩
  · obtain ⟨hlower, hupper⟩ := h.between hfixed
    exact ⟨(lt_iff_le_not_le.mp hlower).1, (lt_iff_le_not_le.mp hupper).1⟩

theorem Interior.isFinite (hI : I.Regular) (h : I.Interior x) : IsFinite x := by
  by_cases hfixed : I.lower = I.upper
  · rw [h.fixed hfixed]
    cases hI with
    | free => cases hfixed
    | above l => exact isFinite_real l
    | below u => cases hfixed
    | between hle => exact isFinite_real _
  · obtain ⟨hlower, hupper⟩ := h.between hfixed
    refine isFinite_iff.mpr ?_
    cases x with
    | real r => exact ⟨r, rfl⟩
    | nan => cases hI <;> exact hlower.elim
    | negInf => cases hI <;> exact hlower.elim
    | posInf => cases hI <;> exact hupper.elim

/-! ## Clamping -/

@[simp] theorem raise_real (b r : ℝ) : raise (real b) (real r) = real (max b r) := by
  unfold raise
  by_cases h : r < b
  · rw [if_pos (real_lt_real.mpr h), max_eq_left h.le]
  · rw [if_neg (mt real_lt_real.mp h), max_eq_right (le_of_not_gt h)]

@[simp] theorem cut_real (b r : ℝ) : cut (real b) (real r) = real (min b r) := by
  unfold cut
  by_cases h : b < r
  · rw [if_pos (real_lt_real.mpr h), min_eq_left h.le]
  · rw [if_neg (mt real_lt_real.mp h), min_eq_right (le_of_not_gt h)]

@[simp] theorem raise_negInf (r : ℝ) : raise negInf (real r) = real r := if_neg id

@[simp] theorem cut_posInf (r : ℝ) : cut posInf (real r) = real r := if_neg id

theorem Regular.isFinite_clamp (hI : I.Regular) (r : ℝ) : IsFinite (I.clamp (.real r)) := by
  unfold clamp
  cases hI <;> simp only [raise_real, raise_negInf, cut_real, cut_posInf] <;> exact isFinite_real _

/-! ## Insetting -/

section

variable {l u : ℝ}

/-- The margin of an end without a finite end opposite. -/
noncomputable def wideMargin (b : ℝ) : ℝ := 0.01 * max 1 |b|

theorem wideMargin_pos (b : ℝ) : 0 < wideMargin b :=
  mul_pos (by norm_num) (lt_max_of_lt_left one_pos)

theorem margin_of_infinite (b : ℝ) {c : Exact} (hc : ¬ IsFinite c) :
    I.margin (.real b) c = .real (wideMargin b) := by
  unfold margin
  rw [if_neg hc, magnitude_real, one_eq, max_real]
  rfl

theorem margin_between (b c : ℝ) :
    (⟨.real l, .real u⟩ : Interval Exact).margin (.real b) (.real c) =
      .real (min (wideMargin b) (0.01 * (u - l))) := by
  unfold margin
  rw [if_pos (isFinite_real c), magnitude_real, one_eq, max_real, real_sub_real]
  exact min_real ..

theorem not_isFinite_posInf : ¬ IsFinite Exact.posInf := fun h => h.2

theorem not_isFinite_negInf : ¬ IsFinite Exact.negInf := fun h => h.1

/-- Both margins together leave room between two different ends. -/
theorem inset_between (h : l < u) (r : ℝ) :
    ∃ z, (⟨.real l, .real u⟩ : Interval Exact).inset (.real r) = .real z ∧ l < z ∧ z < u := by
  have hfixed : ¬ (⟨.real l, .real u⟩ : Interval Exact).IsFixed :=
    fun hfixed => absurd (real_le_real.mp hfixed.2) (not_le.mpr h)
  have hwidth : 0 < 0.01 * (u - l) := mul_pos (by norm_num) (sub_pos.mpr h)
  have hlower : 0 < min (wideMargin l) (0.01 * (u - l)) := lt_min (wideMargin_pos l) hwidth
  have hupper : 0 < min (wideMargin u) (0.01 * (u - l)) := lt_min (wideMargin_pos u) hwidth
  have hupper_le : min (wideMargin u) (0.01 * (u - l)) ≤ 0.01 * (u - l) := min_le_right ..
  unfold inset
  rw [if_neg hfixed, if_pos (isFinite_real l), if_pos (isFinite_real u), margin_between,
    margin_between, real_add_real, real_sub_real, raise_real, cut_real]
  refine ⟨_, rfl, ?_, ?_⟩
  · refine lt_min (by linarith) (lt_max_of_lt_left (by linarith))
  · exact min_lt_of_left_lt (by linarith)

end

theorem Regular.interior_inset (hI : I.Regular) (r : ℝ) : I.Interior (I.inset (.real r)) := by
  by_cases hfixed : I.IsFixed
  · rw [inset_of_fixed hfixed]
    exact ⟨fun hne => absurd ((isFixed_iff hI).mp hfixed) hne, fun _ => rfl⟩
  refine ⟨fun hne => ?_, fun heq => absurd ((isFixed_iff hI).mpr heq) hfixed⟩
  cases hI with
  | free =>
    unfold inset
    rw [if_neg hfixed, if_neg not_isFinite_negInf, if_neg not_isFinite_posInf]
    exact ⟨trivial, trivial⟩
  | above l =>
    have hmargin := wideMargin_pos l
    unfold inset
    rw [if_neg hfixed, if_pos (isFinite_real l), if_neg not_isFinite_posInf,
      margin_of_infinite l not_isFinite_posInf, real_add_real, raise_real]
    exact ⟨real_lt_real.mpr (lt_max_of_lt_left (by linarith)), trivial⟩
  | below u =>
    have hmargin := wideMargin_pos u
    unfold inset
    rw [if_neg hfixed, if_neg not_isFinite_negInf, if_pos (isFinite_real u),
      margin_of_infinite u not_isFinite_negInf, real_sub_real, cut_real]
    exact ⟨trivial, real_lt_real.mpr (min_lt_of_left_lt (by linarith))⟩
  | @between l u hle =>
    have hlt : l < u := lt_of_le_of_ne hle fun h => hne (congrArg Exact.real h)
    obtain ⟨z, hz, hlower, hupper⟩ := inset_between hlt r
    rw [hz]
    exact ⟨hlower, hupper⟩

/-! ## The barrier -/

theorem Regular.interior_of_barrier? (hI : I.Regular) {k : Exact} {r : ℝ} {t : BarrierTerm Exact}
    (h : I.barrier? k (.real r) = some t) : I.Interior (.real r) := by
  by_cases hfixed : I.IsFixed
  · -- A fixed variable has no logarithm, but it has a term at its value only.
    unfold barrier? at h
    rw [if_pos hfixed] at h
    split at h
    · rename_i hsame
      refine ⟨fun hne => absurd ((isFixed_iff hI).mp hfixed) hne, fun _ => ?_⟩
      exact Exact.le_antisymm hsame.1 hsame.2
    · cases h
  refine ⟨fun hne => ?_, fun heq => absurd ((isFixed_iff hI).mpr heq) hfixed⟩
  unfold barrier? at h
  rw [if_neg hfixed] at h
  cases hI with
  | free => exact ⟨trivial, trivial⟩
  | above l =>
    dsimp only at h
    rw [if_pos (isFinite_real l), if_neg not_isFinite_posInf] at h
    split at h
    · rename_i hpos
      rw [real_sub_real] at hpos
      exact ⟨real_lt_real.mpr (sub_pos.mp (zero_lt_real.mp hpos)), trivial⟩
    · cases h
  | below u =>
    dsimp only at h
    rw [if_neg not_isFinite_negInf, if_pos (isFinite_real u)] at h
    split at h
    · rename_i hpos
      rw [real_sub_real] at hpos
      exact ⟨trivial, real_lt_real.mpr (sub_pos.mp (zero_lt_real.mp hpos))⟩
    · cases h
  | @between l u hle =>
    dsimp only at h
    rw [if_pos (isFinite_real l), if_pos (isFinite_real u)] at h
    split at h
    · rename_i hpos
      rw [real_sub_real, real_sub_real] at hpos
      exact ⟨real_lt_real.mpr (sub_pos.mp (zero_lt_real.mp hpos.1)),
        real_lt_real.mpr (sub_pos.mp (zero_lt_real.mp hpos.2))⟩
    · cases h

end Interval

/-! ## Boxes -/

namespace Box

variable {B : Box Exact n} {x : Vector Exact n}

def Regular (B : Box Exact n) : Prop := ∀ i : Fin n, (B.side i).Regular

def Interior (B : Box Exact n) (x : Vector Exact n) : Prop :=
  ∀ i : Fin n, (B.side i).Interior (x.get i)

theorem Regular.not_isEmpty (hB : B.Regular) (i : Fin n) : ¬ (B.side i).IsEmpty :=
  not_not.mpr (hB i).nonempty

theorem Regular.allFinite (hB : B.Regular) (h : B.Interior x) : AllFinite x :=
  fun i => (h i).isFinite (hB i)

theorem Regular.allFinite_project (hB : B.Regular) (h : AllFinite x) : AllFinite (B.project x) := by
  intro i
  obtain ⟨r, hr⟩ := isFinite_iff.mp (h i)
  rw [get_project, hr]
  exact (hB i).isFinite_clamp r

theorem Regular.project_of_interior (hB : B.Regular) (h : B.Interior x) : B.project x = x := by
  ext i hi
  exact (get_project B x ⟨i, hi⟩).trans
    (Interval.clamp_of_contains ((h ⟨i, hi⟩).contains (hB ⟨i, hi⟩)))

theorem Regular.interior_inset (hB : B.Regular) (h : AllFinite x) : B.Interior (B.inset x) := by
  intro i
  obtain ⟨r, hr⟩ := isFinite_iff.mp (h i)
  rw [get_inset, hr]
  exact (hB i).interior_inset r

/-- A sum that has a value has all its terms. -/
theorem exists_term_of_barrier? {k b : Exact} (h : B.barrier? k x = some b) (i : Fin n) :
    ∃ t, (B.side i).barrier? k (x.get i) = some t := by
  -- The sum runs through the coordinates and stops at the first one that has no term.
  have hfold (l : List (Fin n)) (total : Exact)
      (h : l.foldlM (fun total i => ((B.side i).barrier? k (x.get i)).map fun t =>
        total + t.value) total = some b) :
      ∀ i ∈ l, ∃ t, (B.side i).barrier? k (x.get i) = some t := by
    induction l generalizing total with
    | nil => simp
    | cons j l ih =>
      rw [List.foldlM_cons] at h
      cases hj : (B.side j).barrier? k (x.get j) with
      | none =>
        rw [hj] at h
        cases h
      | some t =>
        rw [hj] at h
        intro i hi
        obtain rfl | hi := List.mem_cons.mp hi
        · exact ⟨t, hj⟩
        · exact ih _ h i hi
  exact hfold _ _ h i (List.mem_finRange i)

/-- Where the barrier is not infinite, the point is inside. -/
theorem Regular.interior_of_barrier (hB : B.Regular) (hx : AllFinite x) {k : Exact}
    (h : ¬ Same (B.barrier k x) inf) : B.Interior x := by
  intro i
  cases hb : B.barrier? k x with
  | none =>
    unfold barrier at h
    rw [hb] at h
    exact absurd ⟨trivial, trivial⟩ h
  | some b =>
    obtain ⟨t, ht⟩ := exists_term_of_barrier? hb i
    obtain ⟨r, hr⟩ := isFinite_iff.mp (hx i)
    rw [hr] at ht ⊢
    exact (hB i).interior_of_barrier? ht

end Box

end LogBarrier

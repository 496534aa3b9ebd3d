import LogBarrier.Double.Read
import LogBarrier.Proofs.Interior
import LogBarrier.Proofs.Numbers
import LogBarrier.Proofs.Opening

/-!
# Starts that are not finite

What opening a run makes of infinite entries and of `nan`. Moving a point inside takes an infinite
entry to the finite end on its side, if there is one, and leaves `nan` alone unless the variable is
fixed. The value and the gradient are checked, the point and the stationarity are not: they are
finite exactly if every entry of the start was moved to a real number.
-/

namespace LogBarrier

open Scalar Exact LogBarrier.Action

variable {n : ℕ}

/-! ## Finite results tell of finite arguments -/

namespace Exact

variable {s t : Exact}

theorem isFinite_of_add (h : IsFinite (s + t)) : IsFinite s ∧ IsFinite t := by
  obtain ⟨r, hr⟩ := isFinite_iff.mp h
  cases s with
  | real a =>
    cases t with
    | real b => exact ⟨isFinite_real a, isFinite_real b⟩
    | _ => cases hr
  | _ => cases t <;> cases hr

theorem isFinite_of_sub (h : IsFinite (s - t)) : IsFinite s ∧ IsFinite t := by
  obtain ⟨hs, ht⟩ := isFinite_of_add (t := -t) h
  refine ⟨hs, ?_⟩
  cases t with
  | real b => exact isFinite_real b
  | nan => exact ht
  | negInf => exact ht.2.elim
  | posInf => exact ht.1.elim

theorem not_isFinite_scaledInf (a : ℝ) : ¬ IsFinite (scaledInf a) := by
  unfold scaledInf
  split_ifs
  · exact fun h => h.2
  · exact fun h => h.1
  · exact fun h => h.1

theorem isFinite_of_mul (h : IsFinite (s * t)) : IsFinite s ∧ IsFinite t := by
  cases s with
  | real a =>
    cases t with
    | real b => exact ⟨isFinite_real a, isFinite_real b⟩
    | nan => exact h.1.elim
    | negInf => exact (not_isFinite_scaledInf _ h).elim
    | posInf => exact (not_isFinite_scaledInf _ h).elim
  | nan => exact h.1.elim
  | negInf =>
    cases t with
    | real b => exact (not_isFinite_scaledInf _ h).elim
    | nan => exact h.1.elim
    | negInf => exact h.2.elim
    | posInf => exact h.1.elim
  | posInf =>
    cases t with
    | real b => exact (not_isFinite_scaledInf _ h).elim
    | nan => exact h.1.elim
    | negInf => exact h.1.elim
    | posInf => exact h.2.elim

theorem isFinite_of_sqrt (h : IsFinite (sqrt s)) : IsFinite s := by
  cases s with
  | real a => exact isFinite_real a
  | nan => exact h
  | negInf => exact h.1.elim
  | posInf => exact h

theorem allFinite_of_sub {x y : Vector Exact n} (h : AllFinite (x - y)) :
    AllFinite x ∧ AllFinite y := by
  have hentry (i : Fin n) : IsFinite (x.get i - y.get i) := by
    have hi : IsFinite ((x - y)[i.val]) := h i
    rwa [Vector.getElem_sub] at hi
  exact ⟨fun i => (isFinite_of_sub (hentry i)).1, fun i => (isFinite_of_sub (hentry i)).2⟩

theorem allFinite_of_energy {c : Exact} {x : Vector Exact n} (h : IsFinite (energy c x)) :
    AllFinite x := by
  have hscaled := (forall_of_dot isFinite_of_add isFinite_of_mul h).1
  intro i
  have hi : IsFinite ((c * x)[i.val]) := hscaled i
  rw [Vector.getElem_hmul] at hi
  exact (isFinite_of_mul hi).2

theorem isFinite_norm_iff {x : Vector Exact n} : IsFinite (norm x) ↔ AllFinite x := by
  constructor
  · intro h
    unfold norm at h
    split at h
    · exact allFinite_of_energy (isFinite_of_sqrt (isFinite_of_mul h).1)
    · split at h
      · exact allFinite_of_energy (isFinite_of_sqrt h)
      · exact allFinite_of_energy (isFinite_of_sqrt (isFinite_of_mul h).1)
  · intro h
    obtain ⟨a, rfl⟩ := allFinite_iff.mp h
    rw [norm_vec]
    exact isFinite_real _

end Exact

/-! ## Moving inside -/

namespace Interval

variable {I : Interval Exact} {x : Exact}

/-- The entries of a start that are moved to real numbers: any entry of a variable fixed at one, and
else every number that is real or has a finite end on its side. -/
def Tames (I : Interval Exact) (x : Exact) : Prop :=
  if I.IsFixed then IsFinite I.lower
  else match x with
    | .nan => False
    | .negInf => IsFinite I.lower
    | .real _ => True
    | .posInf => IsFinite I.upper

theorem regular_of_not_isFixed (hI : ¬ I.IsEmpty) (hfixed : ¬ I.IsFixed) : I.Regular := by
  obtain ⟨l, u⟩ := I
  have hle : l ≤ u := not_not.mp hI
  have hne : ¬ u ≤ l := fun h => hfixed ⟨hle, h⟩
  cases l with
  | nan => exact hle.elim
  | negInf =>
    cases u with
    | nan => exact hle.elim
    | negInf => exact (hne trivial).elim
    | real u => exact .below u
    | posInf => exact .free
  | real l =>
    cases u with
    | nan => exact hle.elim
    | negInf => exact hle.elim
    | real u => exact .between hle
    | posInf => exact .above l
  | posInf =>
    cases u with
    | posInf => exact (hne trivial).elim
    | _ => exact hle.elim

theorem regular_of_isFixed (hfixed : I.IsFixed) (h : IsFinite I.lower) : I.Regular := by
  obtain ⟨l, u⟩ := I
  obtain ⟨r, rfl⟩ := isFinite_iff.mp h
  have hu : Exact.real r = u := Exact.le_antisymm hfixed.1 hfixed.2
  subst hu
  exact .between le_rfl

theorem cut_nan (b : Exact) : cut b .nan = .nan := if_neg (by cases b <;> exact id)

theorem cut_negInf (b : Exact) : cut b .negInf = .negInf := if_neg (by cases b <;> exact id)

theorem raise_posInf (b : Exact) : raise b .posInf = .posInf := if_neg (by cases b <;> exact id)

theorem tames_of_isFinite_inset (h : IsFinite (I.inset x)) : I.Tames x := by
  unfold Tames
  split
  · rename_i hfixed
    rwa [inset_of_fixed hfixed] at h
  · rename_i hfixed
    unfold inset at h
    rw [if_neg hfixed] at h
    cases x with
    | nan =>
      have hraise (b : Exact) : raise b .nan = .nan := if_neg id
      simp only [hraise, cut_nan, ite_self] at h
      exact h.1
    | negInf =>
      by_contra hlower
      simp only [if_neg hlower, cut_negInf, ite_self] at h
      exact h.1
    | real r => trivial
    | posInf =>
      by_contra hupper
      simp only [if_neg hupper, raise_posInf, ite_self] at h
      exact h.2

/-- An infinite entry is moved as the end on its side would be. -/
theorem Regular.inset_posInf (hI : I.Regular) (hfixed : ¬ I.IsFixed) :
    I.inset .posInf = I.inset I.upper := by
  have hcut (b : ℝ) : cut (Exact.real b) .posInf = .real b := if_pos trivial
  cases hI with
  | free => rfl
  | above l => rfl
  | below u =>
    have hmargin := wideMargin_pos u
    simp only [inset, if_neg hfixed, if_neg not_isFinite_negInf, if_pos (isFinite_real u),
      margin_of_infinite u not_isFinite_negInf, real_sub_real, hcut, cut_real]
    rw [min_eq_left (by linarith)]
  | @between l u hle =>
    have hmargin : 0 ≤ min (wideMargin u) (0.01 * (u - l)) :=
      le_min (wideMargin_pos u).le (mul_nonneg (by norm_num) (sub_nonneg.mpr hle))
    simp only [inset, if_neg hfixed, if_pos (isFinite_real _), margin_between, real_add_real,
      real_sub_real, raise_posInf, hcut, raise_real, cut_real]
    rw [min_eq_left (le_max_of_le_right (by linarith))]

theorem Regular.inset_negInf (hI : I.Regular) (hfixed : ¬ I.IsFixed) :
    I.inset .negInf = I.inset I.lower := by
  have hraise (b : ℝ) : raise (Exact.real b) .negInf = .real b := if_pos trivial
  cases hI with
  | free => rfl
  | above l =>
    have hmargin := wideMargin_pos l
    simp only [inset, if_neg hfixed, if_pos (isFinite_real l), if_neg not_isFinite_posInf,
      margin_of_infinite l not_isFinite_posInf, real_add_real, hraise, raise_real]
    rw [max_eq_left (by linarith)]
  | below u => rfl
  | @between l u hle =>
    have hmargin : 0 ≤ min (wideMargin l) (0.01 * (u - l)) :=
      le_min (wideMargin_pos l).le (mul_nonneg (by norm_num) (sub_nonneg.mpr hle))
    simp only [inset, if_neg hfixed, if_pos (isFinite_real _), margin_between, real_add_real,
      real_sub_real, hraise, raise_real, cut_real]
    rw [max_eq_left (by linarith)]

theorem Tames.interior (hI : ¬ I.IsEmpty) (h : I.Tames x) : I.Regular ∧ I.Interior (I.inset x) := by
  unfold Tames at h
  split at h
  · rename_i hfixed
    have hregular := regular_of_isFixed hfixed h
    rw [inset_of_fixed hfixed]
    exact ⟨hregular, fun hne => absurd ((isFixed_iff hregular).mp hfixed) hne, fun _ => rfl⟩
  · rename_i hfixed
    have hregular := regular_of_not_isFixed hI hfixed
    refine ⟨hregular, ?_⟩
    cases x with
    | nan => exact h.elim
    | negInf =>
      obtain ⟨l, hl⟩ := isFinite_iff.mp h
      rw [hregular.inset_negInf hfixed, hl]
      exact hregular.interior_inset l
    | real r => exact hregular.interior_inset r
    | posInf =>
      obtain ⟨u, hu⟩ := isFinite_iff.mp h
      rw [hregular.inset_posInf hfixed, hu]
      exact hregular.interior_inset u

end Interval

/-! ## Opening a run -/

/-- The state is at a point of the box, and all that was computed there is finite. -/
structure State.Sound {α : Type} [Scalar α] (B : Box α n) (t : State α) : Prop where
  feasible : ∃ x : Vector α n, t.x = x.toArray ∧ B.Feasible x
  value : IsFinite t.value
  gradient : ∃ g : Vector α n, t.gradient = g.toArray ∧ AllFinite g
  gnorm : IsFinite t.gnorm

variable {σ τ : Type} {B : Box Exact n}

/-- The stationarity is finite only at a finite point. -/
theorem Box.isFinite_norm_residual_iff {x g : Vector Exact n}
    (hB : ∀ i : Fin n, ¬ (B.side i).IsEmpty) (hg : AllFinite g) :
    IsFinite (norm (B.residual (B.inset x) g)) ↔ ∀ i : Fin n, (B.side i).Tames (x.get i) := by
  rw [isFinite_norm_iff]
  constructor
  · intro h i
    have hinset := (allFinite_of_sub h).2 i
    rw [get_inset] at hinset
    exact Interval.tames_of_isFinite_inset hinset
  · intro h
    have hregular : B.Regular := fun i => ((h i).interior (hB i)).1
    have hinterior : B.Interior (B.inset x) := by
      intro i
      rw [get_inset]
      exact ((h i).interior (hB i)).2
    have hinset := hregular.allFinite hinterior
    exact allFinite_sub (hregular.allFinite_project (allFinite_sub hinset hg)) hinset

section

variable [Numeral Exact]

/-- Opening a run either marks a fault or records a state, and that state is as it should be exactly
if every entry of the start was moved to a real number. -/
theorem Action.openRun_sound_iff (s : Session Exact σ τ n) (x : Vector Exact n) :
    openRun.Ends
      (fun _ t => t.method.state.Sound s.augmented.box ↔
        ∀ i : Fin n, (s.augmented.box.side i).Tames (x.get i))
      (fun _ t => t.method.state.status = .faulted) { s with x := x.toArray } := by
  refine (openRun_ends _).mono ?_ fun _ t ht => ht.status
  rintro _ t ⟨y, g, v, ht⟩
  obtain ⟨x', hx, hempty, rfl⟩ := Box.exists_of_opening_eq_ok ht.opening
  obtain rfl : x = x' := Vector.toArray_inj.mp hx
  obtain ⟨-, hg⟩ := Objective.checkedGradient_eq_ok ht.gradient_at
  obtain ⟨-, hv⟩ := Objective.checkedValue_eq_ok ht.value_at
  have hgnorm : t.method.state.gnorm =
      norm (s.augmented.box.residual (s.augmented.box.inset x) g) :=
    congrArg State.gnorm ht.state
  -- The gradient has been checked, so the stationarity is finite exactly where the point is.
  rw [← Box.isFinite_norm_residual_iff hempty hg, ← hgnorm]
  refine ⟨State.Sound.gnorm, fun h => ?_⟩
  have htame := (Box.isFinite_norm_residual_iff hempty hg).mp (hgnorm ▸ h)
  constructor
  · refine ⟨s.augmented.box.inset x, congrArg State.x ht.state, fun i => ?_⟩
    rw [Box.get_inset]
    obtain ⟨hregular, hinterior⟩ := (htame i).interior (hempty i)
    exact hinterior.contains hregular
  · rwa [ht.state]
  · exact ⟨g, congrArg State.gradient ht.state, hg⟩
  · exact h

end

/-- A run opens at a point that is not a number if the objective does not look at it. -/
theorem Action.exists_opened_unsound :
    ∃ (M : Method Float Unit (LimitedMemory Float)) (s : Session Float Unit _ 1),
      Method.ofOptions .standard = .ok M ∧
      openRun (M.session .zero (.free 1) #[nan] #[0] .unlimited) = .ok () s ∧
      ¬ s.method.state.Sound (.free 1) := by
  have h : (Method.ofOptions (.standard : Options Float)).toOption.any (fun M =>
      match openRun (M.session .zero (.free 1) #[nan] #[0] .unlimited) with
      | .ok _ s => ¬ IsFinite s.method.state.gnorm
      | .error .. => false) = true := by
    decide +kernel
  cases hM : Method.ofOptions (.standard : Options Float) with
  | error e =>
    rw [hM] at h
    cases h
  | ok M =>
    rw [hM] at h
    dsimp only [Except.toOption, Option.any] at h
    cases hs : openRun (M.session .zero (.free 1) #[nan] #[0] .unlimited) with
    | error e s =>
      rw [hs] at h
      cases h
    | ok _ s =>
      rw [hs] at h
      exact ⟨M, s, rfl, hs, fun hsound => of_decide_eq_true h hsound.gnorm⟩

end LogBarrier

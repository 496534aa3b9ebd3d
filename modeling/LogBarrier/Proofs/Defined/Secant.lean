import LogBarrier.Proofs.Defined.Arithmetic
import LogBarrier.Proofs.Window

/-!
# Defined secants

With exact arithmetic a limited memory divides only by the curvature of a pair that it accepts and
by the square of the newest `y`, and neither is zero. So all that it does with vectors of one length
is defined, and applying it never fails.
-/

namespace LogBarrier

open Scalar Exact

variable {n : ℕ}

/-! ## Pairs -/

namespace Pair

theorem suffices_of_eq_some {s y : Vector Exact n} {p : Pair Exact n} (h : of? s y = some p) :
    Suffices s y := by
  rw [of?_eq_ite (comparable_exact s y)] at h
  exact (Option.ite_none_right_eq_some.mp h).1

/-- Only real vectors have a curvature that is finite and large enough. -/
theorem positive_of_of? {s y : Vector Exact n} {p : Pair Exact n} (h : of? s y = some p) :
    p.Positive := by
  obtain ⟨hfinite, hfinite'⟩ := allFinite_of_dot (suffices_of_eq_some h).1
  exact positive_of_eq_some hfinite hfinite' h

theorem defined_of? (s y : Vector Exact n) : Defined fun _ => of? s y := by
  intro w
  refine ite_congr rfl (fun _ => rfl) fun h => ?_
  have hsome : of? s y = some ⟨s, y, 1 / dot s y⟩ := if_neg h
  have hpos := (suffices_of_eq_some hsome).dot_pos
  exact congrArg (fun q => some (⟨s, y, q⟩ : Pair Exact n)) (w.div_of_pos 1 hpos)

theorem defined_recur (gamma : Exact) (ps : List (Pair Exact n)) (q : Vector Exact n) :
    Defined fun _ => recur gamma ps q := by
  intro w
  induction ps generalizing q with
  | nil => rfl
  | cons p older ih =>
    let a := p.rho * dot p.s q
    exact congrArg (fun r => r + (a - p.rho * dot p.y r) * p.s) (ih (q - a * p.y))

theorem Positive.dot_pos {p : Pair Exact n} (h : p.Positive) : 0 < dot p.s p.y := by
  obtain ⟨s, y, hpos, rfl⟩ := h
  rw [dot_vec, zero_lt_real]
  exact hpos

/-- The square of the newest `y` is positive. -/
theorem Positive.dot_self_pos {p : Pair Exact n} (h : p.Positive) : 0 < dot p.y p.y := by
  obtain ⟨s, y, hpos, rfl⟩ := h
  rw [dot_vec, zero_lt_real]
  exact dotProduct_self_pos hpos.ne'

theorem defined_scale {ps : List (Pair Exact n)} (hps : ∀ p ∈ ps, p.Positive) :
    Defined fun _ => scale ps := by
  intro w
  cases ps with
  | nil => rfl
  | cons p older => exact w.div_of_pos _ (hps p List.mem_cons_self).dot_self_pos

theorem defined_apply {ps : List (Pair Exact n)} (hps : ∀ p ∈ ps, p.Positive)
    (v : Vector Exact n) : Defined fun _ => apply ps v := by
  intro w
  have hscale : @scale _ w.scalar n ps = scale ps := defined_scale hps w
  show @recur _ w.scalar n (@scale _ w.scalar n ps) ps v = recur (scale ps) ps v
  rw [hscale]
  exact defined_recur _ ps v w

end Pair

/-! ## Limited memories -/

namespace LimitedMemory

variable {h : LimitedMemory Exact}

/-- Pairs of vectors of length `n`, of positive curvature each. -/
def Fits (n : ℕ) (h : LimitedMemory Exact) : Prop := ∀ p ∈ h.window, p.1 = n ∧ p.2.Positive

theorem fits_empty (n m : ℕ) : Fits n (empty m) := fun _ hp => nomatch hp

theorem fits_clear (n : ℕ) (h : LimitedMemory Exact) : Fits n h.clear := fun _ hp => nomatch hp

theorem Fits.positive (hh : h.Fits n) : h.Positive := fun p hp => (hh p hp).2

/-- What the pairs of the window have in common, they keep if every pair of positive curvature has
it. -/
theorem forall_update {P : (m : ℕ) × Pair Exact m → Prop} (hh : ∀ p ∈ h.window, P p)
    (s y : Vector Exact n) (hP : ∀ p : Pair Exact n, p.Positive → P ⟨n, p⟩) :
    ∀ p ∈ (Secant.update h s y).window, P p := by
  unfold Secant.update instSecant
  dsimp only
  split
  · rename_i hp
    exact forall_push hh (hP _ (Pair.positive_of_of? hp))
  · exact hh

theorem Fits.update (hh : h.Fits n) (s y : Vector Exact n) : (Secant.update h s y).Fits n :=
  forall_update hh s y fun _ hp => ⟨rfl, hp⟩

theorem Positive.update (hh : h.Positive) (s y : Vector Exact n) :
    (Secant.update h s y).Positive :=
  forall_update hh s y fun _ hp => hp

theorem defined_update (h : LimitedMemory Exact) (s y : Vector Exact n) :
    Defined fun _ => Secant.update h s y := by
  intro w
  have hof : @Pair.of? _ w.scalar n s y = Pair.of? s y := Pair.defined_of? s y w
  show @Secant.update _ _ (@instSecant _ w.scalar) n h s y = Secant.update h s y
  unfold Secant.update instSecant
  dsimp only
  rw [hof]

/-- A window of pairs of length `n` applies to all vectors of that length. -/
theorem Fits.exists_apply (hh : h.Fits n) (v : Vector Exact n) :
    ∃ u, Secant.apply h v = .ok u := by
  -- All pairs have the length of `v`, so none of them is missing from the list that is applied.
  obtain ⟨cs, hw⟩ := Positive.exists_window hh.positive fun p hp => (hh p hp).1
  unfold Secant.apply instSecant
  dsimp only
  rw [pairs?_of_window hw]
  exact ⟨_, rfl⟩

theorem Positive.defined_apply (hh : h.Positive) (v : Vector Exact n) :
    Defined fun _ => Secant.apply h v := by
  intro w
  show @Secant.apply _ _ (@instSecant _ w.scalar) n h v = Secant.apply h v
  unfold Secant.apply instSecant
  dsimp only
  cases hps : h.pairs? n with
  | none => rfl
  | some ps =>
    have hpositive : ∀ p ∈ ps.reverse, p.Positive :=
      fun p hp => hh.pairs? hps p (List.mem_reverse.mp hp)
    exact congrArg Except.ok (Pair.defined_apply hpositive v w)

end LimitedMemory

/-! ## Requests -/

namespace Request

/-- Vectors are offered of length `n` only. -/
def OfLength {α : Type} (n : ℕ) : Request α → Prop
  | .offer (n := m) _ _ => m = n
  | .reset => True
  | .lent r => r.OfLength n

theorem fits_serve {r : Request Exact} (hr : r.OfLength n) {h : LimitedMemory Exact}
    (hh : h.Fits n) : (r.serve h).Fits n := by
  induction r with
  | offer s y =>
    obtain rfl := hr
    exact hh.update s y
  | reset => exact h.fits_clear n
  | lent r ih =>
    rw [serve_lent]
    exact ih hr

theorem defined_serve (r : Request Exact) (h : LimitedMemory Exact) :
    Defined fun _ => r.serve h := by
  intro w
  induction r with
  | offer s y => exact LimitedMemory.defined_update h s y w
  | reset => rfl
  | lent r ih =>
    show @serve _ (.lent r) _ (@LimitedMemory.instSecant _ w.scalar) h = r.lent.serve h
    rw [serve_lent, serve_lent]
    exact ih

end Request

namespace LimitedMemory

theorem fits_after (m : ℕ) {rs : List (Request Exact)} (hrs : ∀ r ∈ rs, r.OfLength n) :
    (after m rs).Fits n := by
  induction rs using List.reverseRecOn with
  | nil => exact fits_empty n m
  | append_singleton rs r ih =>
    rw [after_concat]
    refine Request.fits_serve (hrs r (List.mem_append_right _ List.mem_cons_self)) ?_
    exact ih fun r hr => hrs r (List.mem_append_left _ hr)

theorem defined_after (m : ℕ) (rs : List (Request Exact)) : Defined fun _ => after m rs := by
  intro w
  induction rs using List.reverseRecOn with
  | nil => rfl
  | append_singleton rs r ih =>
    calc @after _ w.scalar m (rs ++ [r])
        = @Request.serve _ r _ (@instSecant _ w.scalar) (@after _ w.scalar m rs) :=
          List.foldl_concat ..
      _ = @Request.serve _ r _ (@instSecant _ w.scalar) (after m rs) := congrArg _ ih
      _ = r.serve (after m rs) := r.defined_serve _ w
      _ = after m (rs ++ [r]) := (after_concat m rs r).symm

end LimitedMemory

end LogBarrier

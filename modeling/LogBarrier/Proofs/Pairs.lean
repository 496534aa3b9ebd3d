import LogBarrier.Exact.Vector
import LogBarrier.Secant.LimitedMemory

/-!
# Secants among real numbers

A secant that is offered real vectors only, and that gives real vectors back. The limited memory is
one: it holds pairs of real vectors with a positive curvature, by which it may divide.
-/

namespace LogBarrier

open Scalar Exact

variable {n : ℕ}

/-- What a secant keeps while it is offered real vectors. -/
class RealSecant (τ : Type) [Secant Exact τ] where
  Sound : τ → Prop
  sound_reset (h : τ) : Sound (Secant.reset h)
  sound_update {n : ℕ} {h : τ} {s y : Vector Exact n} :
    Sound h → AllFinite s → AllFinite y → Sound (Secant.update h s y)
  allFinite_apply {n : ℕ} {h : τ} {v w : Vector Exact n} :
    Sound h → AllFinite v → Secant.apply h v = .ok w → AllFinite w

/-! ## Pairs -/

namespace Pair

/-- A pair of real vectors with positive curvature. -/
def Positive (p : Pair Exact n) : Prop :=
  ∃ s y : Fin n → ℝ, 0 < s ⬝ᵥ y ∧ p = ⟨vec s, vec y, real (1 / (s ⬝ᵥ y))⟩

/-- The pair of `s` and `y`, if its curvature is finite and large enough for vectors of norms `a`
and `b`. -/
def measured? {α : Type} [Scalar α] (a b : α) (s y : Vector α n) : Option (Pair α n) :=
  if ¬ IsFinite (dot s y) ∨ dot s y ≤ curvatureTolerance * a * b then none
  else some ⟨s, y, 1 / dot s y⟩

theorem of?_eq_measured? {α : Type} [Scalar α] (s y : Vector α n) :
    of? s y = measured? (norm s) (norm y) s y := rfl

/-- Of the norms only the sign matters. -/
theorem positive_of_measured? {a b : ℝ} (ha : 0 ≤ a) (hb : 0 ≤ b) {s y : Fin n → ℝ}
    {p : Pair Exact n} (h : measured? (real a) (real b) (vec s) (vec y) = some p) :
    p.Positive := by
  unfold measured? at h
  split at h
  · cases h
  · rename_i hcurved
    cases h
    have hbound : 0 ≤ (1e-10 : ℝ) * a * b := mul_nonneg (mul_nonneg (by norm_num) ha) hb
    have hlt : (1e-10 : ℝ) * a * b < s ⬝ᵥ y := by
      refine not_le.mp fun hle => hcurved (.inr ?_)
      rw [dot_vec]
      exact hle
    have hpos := hbound.trans_lt hlt
    refine ⟨s, y, hpos, ?_⟩
    rw [dot_vec, one_eq, real_div_real 1 hpos.ne']

theorem positive_of_eq_some {s y : Vector Exact n} (hs : AllFinite s) (hy : AllFinite y)
    {p : Pair Exact n} (h : of? s y = some p) : p.Positive := by
  obtain ⟨s, rfl⟩ := allFinite_iff.mp hs
  obtain ⟨y, rfl⟩ := allFinite_iff.mp hy
  rw [of?_eq_measured?, norm_vec, norm_vec] at h
  exact positive_of_measured? (length_nonneg s) (length_nonneg y) h

/-- Every step of the recursion stays among real vectors. -/
theorem allFinite_recur {gamma : Exact} (hgamma : IsFinite gamma) {ps : List (Pair Exact n)}
    (hps : ∀ p ∈ ps, p.Positive) {q : Vector Exact n} (hq : AllFinite q) :
    AllFinite (recur gamma ps q) := by
  induction ps generalizing q with
  | nil => exact allFinite_mul hgamma hq
  | cons p older ih =>
    obtain ⟨s, y, hpos, rfl⟩ := hps p List.mem_cons_self
    have hrho := isFinite_real (1 / (s ⬝ᵥ y))
    have ha : IsFinite (real (1 / (s ⬝ᵥ y)) * dot (vec s) q) :=
      isFinite_mul hrho (isFinite_dot (allFinite_vec s) hq)
    have hr := ih (fun p hp => hps p (List.mem_cons_of_mem _ hp))
      (allFinite_sub hq (allFinite_mul ha (allFinite_vec y)))
    have hb := isFinite_mul hrho (isFinite_dot (allFinite_vec y) hr)
    exact allFinite_add hr (allFinite_mul (isFinite_sub ha hb) (allFinite_vec s))

theorem isFinite_scale {ps : List (Pair Exact n)} (hps : ∀ p ∈ ps, p.Positive) :
    IsFinite (scale ps) := by
  cases ps with
  | nil => exact isFinite_real 1
  | cons p older =>
    obtain ⟨s, y, hpos, rfl⟩ := hps p List.mem_cons_self
    show IsFinite (dot (vec s) (vec y) / dot (vec y) (vec y))
    rw [dot_vec y y]
    exact isFinite_div_real (isFinite_dot (allFinite_vec s) (allFinite_vec y))
      (dotProduct_self_pos hpos.ne').ne'

theorem allFinite_apply {ps : List (Pair Exact n)} (hps : ∀ p ∈ ps, p.Positive)
    {v : Vector Exact n} (hv : AllFinite v) : AllFinite (apply ps v) :=
  allFinite_recur (isFinite_scale hps) hps hv

end Pair

/-! ## The window -/

namespace LimitedMemory

def Positive (h : LimitedMemory Exact) : Prop := ∀ p ∈ h.window, p.2.Positive

variable {h : LimitedMemory Exact}

theorem positive_clear (h : LimitedMemory Exact) : h.clear.Positive := by
  intro p hp
  cases hp

/-- What the pairs of the window have in common, a pair that joins them may have too. -/
theorem forall_push {P : (n : ℕ) × Pair Exact n → Prop} (hh : ∀ p ∈ h.window, P p)
    {p : Pair Exact n} (hp : P ⟨n, p⟩) : ∀ q ∈ (h.push p).window, P q := by
  intro q hq
  rw [window_push, List.mem_append, List.mem_singleton] at hq
  obtain hq | rfl := hq
  · refine hh q ?_
    unfold room at hq
    split at hq
    · exact List.mem_of_mem_tail hq
    · exact hq
  · exact hp

theorem Positive.push (hh : h.Positive) {p : Pair Exact n} (hp : p.Positive) :
    (h.push p).Positive :=
  forall_push hh hp

theorem forall_of_mapM {β γ : Type} {f : β → Option γ} {P : γ → Prop} {xs : List β} {ys : List γ}
    (hf : ∀ x ∈ xs, ∀ y, f x = some y → P y) (h : xs.mapM f = some ys) : ∀ y ∈ ys, P y := by
  induction xs generalizing ys with
  | nil =>
    cases h
    simp
  | cons x xs ih =>
    rw [List.mapM_cons] at h
    obtain ⟨y, hy, h⟩ := Option.bind_eq_some_iff.mp h
    obtain ⟨tail, htail, h⟩ := Option.bind_eq_some_iff.mp h
    cases h
    intro z hz
    obtain rfl | hz := List.mem_cons.mp hz
    · exact hf x List.mem_cons_self _ hy
    · exact ih (fun x hx => hf x (List.mem_cons_of_mem _ hx)) htail z hz

/-- The pairs of one dimension come from the window. -/
theorem Positive.pairs? (hh : h.Positive) {ps : List (Pair Exact n)} (hps : h.pairs? n = some ps) :
    ∀ p ∈ ps, p.Positive := by
  refine forall_of_mapM (fun w hw p hp => ?_) hps
  obtain ⟨m, q⟩ := w
  by_cases hm : m = n
  · subst hm
    rw [dif_pos rfl] at hp
    cases hp
    exact hh _ hw
  · rw [dif_neg hm] at hp
    cases hp

instance : RealSecant (LimitedMemory Exact) where
  Sound := Positive
  sound_reset h := positive_clear h
  sound_update {n h s y} hh hs hy := by
    unfold Secant.update instSecant
    dsimp only
    split
    · rename_i hp
      exact hh.push (Pair.positive_of_eq_some hs hy hp)
    · exact hh
  allFinite_apply {n h v w} hh hv hw := by
    unfold Secant.apply instSecant at hw
    dsimp only at hw
    split at hw
    · rename_i hps
      cases hw
      refine Pair.allFinite_apply (fun p hp => ?_) hv
      exact hh.pairs? hps p (List.mem_reverse.mp hp)
    · cases hw

end LimitedMemory

end LogBarrier

import LogBarrier.Proofs.Clipped
import LogBarrier.Proofs.Curvature
import LogBarrier.Proofs.Smooth

/-!
# Held variables

The quasi-Newton solver holds the variables on a bound that would leave the box along steepest
descent. On the others a limited memory is positive definite, so its direction leads down. Along the
projected ray the variables that the direction drives over a bound stay there, which does no harm: a
variable that is not held would only have climbed.
-/

namespace LogBarrier

open Scalar Exact
open scoped Matrix

variable {n : ℕ} {F : Oracle Exact n} {B : Box Exact n}

/-! ## One variable -/

namespace Interval.Regular

variable {I : Interval Exact} {a b d : ℝ}

theorem exists_above (hI : I.Regular) (ha : I.Contains (real a)) (hne : real a ≠ I.upper) :
    ∃ c, a < c ∧ I.Contains (real c) := by
  have hnext : a < a + 1 := lt_add_one a
  cases hI with
  | free => exact ⟨a + 1, hnext, trivial, trivial⟩
  | above l => exact ⟨a + 1, hnext, (real_le_real.mp ha.1).trans hnext.le, trivial⟩
  | below u =>
    have hlt : a < u := lt_of_le_of_ne ha.2 fun h => hne (congrArg real h)
    exact ⟨u, hlt, trivial, le_refl u⟩
  | @between l u hle =>
    have hlt : a < u := lt_of_le_of_ne ha.2 fun h => hne (congrArg real h)
    exact ⟨u, hlt, hle, le_refl u⟩

theorem exists_below (hI : I.Regular) (ha : I.Contains (real a)) (hne : real a ≠ I.lower) :
    ∃ c, c < a ∧ I.Contains (real c) := by
  have hnext : a - 1 < a := sub_one_lt a
  cases hI with
  | free => exact ⟨a - 1, hnext, trivial, trivial⟩
  | above l =>
    have hlt : l < a := lt_of_le_of_ne ha.1 fun h => hne (congrArg real h.symm)
    exact ⟨l, hlt, le_refl l, trivial⟩
  | below u => exact ⟨a - 1, hnext, trivial, hnext.le.trans (real_le_real.mp ha.2)⟩
  | @between l u hle =>
    have hlt : l < a := lt_of_le_of_ne ha.1 fun h => hne (congrArg real h.symm)
    exact ⟨l, hlt, le_refl l, hle⟩

/-- There is room for a short step that does not lead out of the interval at once. -/
theorem exists_room (hI : I.Regular) (ha : I.Contains (real a))
    (hlower : d < 0 → real a ≠ I.lower) (hupper : 0 < d → real a ≠ I.upper) :
    ∃ s > 0, ∀ t, 0 ≤ t → t ≤ s → I.Contains (real (a + t * d)) := by
  obtain ⟨s, hs, hc⟩ : ∃ s > 0, I.Contains (real (a + s * d)) := by
    rcases lt_trichotomy d 0 with hd | rfl | hd
    · obtain ⟨c, hca, hc⟩ := hI.exists_below ha (hlower hd)
      refine ⟨(c - a) / d, div_pos_of_neg_of_neg (sub_neg.mpr hca) hd, ?_⟩
      rwa [div_mul_cancel₀ _ hd.ne, add_sub_cancel]
    · refine ⟨1, one_pos, ?_⟩
      rwa [mul_zero, add_zero]
    · obtain ⟨c, hac, hc⟩ := hI.exists_above ha (hupper hd)
      refine ⟨(c - a) / d, div_pos (sub_pos.mpr hac) hd, ?_⟩
      rwa [div_mul_cancel₀ _ hd.ne', add_sub_cancel]
  refine ⟨s, hs, fun t ht hts => ?_⟩
  have hsegment := contains_segment ha hc (div_nonneg ht hs.le) (div_le_one_of_le₀ hts hs.le)
  rwa [add_sub_cancel_left, ← mul_assoc, div_mul_cancel₀ _ hs.ne'] at hsegment

/-- A short step of a variable that is not held costs no more after clamping than before. -/
theorem exists_clamp_le (hI : I.Regular) (ha : I.Contains (real a))
    (hheld : I.Holds (real a) (real b) → d = 0) :
    ∃ s > 0, ∀ t, 0 < t → t ≤ s → ∀ c, I.clamp (real (a + t * d)) = real c →
      b * (c - a) ≤ t * (b * d) := by
  by_cases hstuck : (real a = I.lower ∧ d < 0) ∨ (real a = I.upper ∧ 0 < d)
  · -- The variable stays where it is, and the direction leads up in it.
    refine ⟨1, one_pos, fun t ht _ c hc => ?_⟩
    have hstays : I.clamp (real (a - -(t * d))) = real a := by
      rw [hI.clamp_sub_eq_iff ha]
      rcases hstuck with ⟨hend, hd⟩ | ⟨hend, hd⟩
      · exact .inr (.inl ⟨hend, neg_pos.mpr (mul_neg_of_pos_of_neg ht hd)⟩)
      · exact .inr (.inr ⟨hend, neg_neg_of_pos (mul_pos ht hd)⟩)
    rw [sub_neg_eq_add, hc] at hstays
    obtain rfl := real.inj hstays
    have hup : 0 ≤ b * d := by
      rcases hstuck with ⟨hend, hd⟩ | ⟨hend, hd⟩
      · have hb : ¬ 0 < b := fun hb => hd.ne (hheld (.inl ⟨hend ▸ le_refl c, hb⟩))
        exact mul_nonneg_of_nonpos_of_nonpos (not_lt.mp hb) hd.le
      · have hb : ¬ b < 0 := fun hb => hd.ne' (hheld (.inr ⟨hend ▸ le_refl c, hb⟩))
        exact mul_nonneg (not_lt.mp hb) hd.le
    rw [sub_self, mul_zero]
    exact mul_nonneg ht.le hup
  · rw [not_or, not_and', not_and'] at hstuck
    obtain ⟨s, hs, hroom⟩ := hI.exists_room ha hstuck.1 hstuck.2
    refine ⟨s, hs, fun t ht hts c hc => ?_⟩
    rw [clamp_of_contains (hroom t ht.le hts)] at hc
    obtain rfl := real.inj hc
    rw [add_sub_cancel_left, mul_left_comm]

end Interval.Regular

/-! ## The variables that are not held -/

namespace Box

variable {a b d : Fin n → ℝ}

/-- `v` on the variables that are not held at `a`, where the gradient is `b`. -/
noncomputable def loose (B : Box Exact n) (a b v : Fin n → ℝ) : Fin n → ℝ :=
  fun i => if (B.side i).Holds (real (a i)) (real (b i)) then 0 else v i

theorem freePart_vec (B : Box Exact n) (a b v : Fin n → ℝ) :
    B.freePart (vec a) (vec b) (vec v) = vec (B.loose a b v) := by
  rw [freePart_eq_vec]
  simp only [get_vec]
  rfl

theorem loose_of_holds (v : Fin n → ℝ) {i : Fin n}
    (hi : (B.side i).Holds (real (a i)) (real (b i))) : B.loose a b v i = 0 :=
  if_pos hi

/-- Between two vectors it does not matter from which the held variables are left out. -/
theorem dotProduct_loose (B : Box Exact n) (a b u v : Fin n → ℝ) :
    u ⬝ᵥ B.loose a b v = B.loose a b u ⬝ᵥ v := by
  refine Finset.sum_congr rfl fun i _ => ?_
  unfold loose
  split
  · rw [mul_zero, zero_mul]
  · rfl

theorem Regular.project_sub_eq_iff (hB : B.Regular) :
    B.project (vec a - vec b) = vec a ↔ B.step a b 1 = 0 := by
  rw [vec_sub_vec, hB.project_vec, vec_injective.eq_iff, step, one_smul, sub_eq_zero]

/-- At a point that is not stationary the gradient has a part that is not held. -/
theorem Regular.loose_ne_zero (hB : B.Regular) (ha : B.Feasible (vec a))
    (hgoing : B.step a b 1 ≠ 0) : B.loose a b b ≠ 0 := by
  refine fun hzero => hgoing ((hB.step_one_eq_zero_iff ha).mpr fun i => ?_)
  have hi := congrFun hzero i
  have hcontains := ha i
  rw [get_vec] at hcontains
  unfold loose at hi
  split at hi
  · rename_i hholds
    rcases hholds with ⟨hlower, hb⟩ | ⟨hupper, hb⟩
    · exact .inr (.inl ⟨Exact.le_antisymm hlower hcontains.1, hb⟩)
    · exact .inr (.inr ⟨Exact.le_antisymm hcontains.2 hupper, hb⟩)
  · exact .inl hi

/-- Along a direction that leads down and leaves the held variables alone, the gradient predicts a
decrease for all short lengths of the projected ray. -/
theorem Regular.exists_arc_descends (hB : B.Regular) (ha : B.Feasible (vec a))
    (hheld : ∀ i, (B.side i).Holds (real (a i)) (real (b i)) → d i = 0) (hdown : b ⬝ᵥ d < 0) :
    ∃ s > 0, ∀ t, 0 < t → t ≤ s →
      dot (vec b) (LineSearch.arc B (vec a) (vec d) (real t) - vec a) < 0 := by
  have hcontains (i : Fin n) : (B.side i).Contains (real (a i)) := by
    rw [← get_vec a i]
    exact ha i
  choose room hroom hle using fun i => (hB i).exists_clamp_le (hcontains i) (hheld i)
  obtain ⟨⟨s, hs⟩, hleast⟩ := Finite.exists_ge fun i => (⟨room i, hroom i⟩ : Set.Ioi (0 : ℝ))
  refine ⟨s, hs, fun t ht hts => ?_⟩
  have hsum : b ⬝ᵥ (B.nearest (a + t • d) - a) ≤ t * (b ⬝ᵥ d) := by
    unfold dotProduct
    rw [Finset.mul_sum]
    exact Finset.sum_le_sum fun i _ =>
      hle i t ht (hts.trans (hleast i)) _ (hB.clamp_eq_nearest (a + t • d) i)
  rw [hB.arc_vec, vec_sub_vec, dot_vec]
  exact hsum.trans_lt (mul_neg_of_pos_of_neg ht hdown)

end Box

/-! ## The direction of a limited memory -/

namespace LimitedMemory

variable {h : LimitedMemory Exact} {L M : Set ℕ} {a b : Fin n → ℝ}

/-- What the limited memory `h` says of the direction `d` that it gives at the point `a` with the
gradient `b`. -/
structure Leads (h : LimitedMemory Exact) (B : Box Exact n) (a b d : Fin n → ℝ) : Prop where
  free_ne_zero : B.freePart (vec a) (vec b) (vec b) ≠ vec 0
  applies : ∃ v, Secant.apply h (B.freePart (vec a) (vec b) (vec b)) = .ok v ∧
    B.freePart (vec a) (vec b) (-v) = vec d
  descends : b ⬝ᵥ d < 0
  taken (it : Iterate Exact n) (hx : it.x = vec a) (hg : it.gradient = vec b) :
    secantDirection? B it (some h) = .ok (some (vec d))
  arc : ∃ s > 0, ∀ t, 0 < t → t ≤ s →
    dot (vec b) (LineSearch.arc B (vec a) (vec d) (real t) - vec a) < 0

theorem Used.exists_leads (hh : Used L h) (hn : ∀ p ∈ h.window, p.1 = n)
    (hcount : Secant.count h ≠ 0) (hB : B.Regular) (ha : B.Feasible (vec a))
    (hgoing : B.step a b 1 ≠ 0) : ∃ d, h.Leads B a b d := by
  obtain ⟨cs, hw⟩ := hh.exists_window hn
  set g := B.loose a b b with hg
  set d := B.loose a b (-(Curved.inverse cs *ᵥ g)) with hd
  have hfree : g ≠ 0 := hB.loose_ne_zero ha hgoing
  have happly : Secant.apply h (B.freePart (vec a) (vec b) (vec b)) =
      .ok (vec (Curved.inverse cs *ᵥ g)) := by
    rw [Box.freePart_vec, apply_of_window hw]
  have hpart : B.freePart (vec a) (vec b) (-vec (Curved.inverse cs *ᵥ g)) = vec d := by
    rw [neg_vec, Box.freePart_vec]
  have hdown : b ⬝ᵥ d < 0 := by
    rw [hd, Box.dotProduct_loose, dotProduct_neg]
    exact neg_neg_of_pos ((Curved.posDef_inverse cs).dotProduct_mulVec_pos hfree)
  refine ⟨d, ⟨?_, ⟨_, happly, hpart⟩, hdown, fun it hx hslope => ?_, ?_⟩⟩
  · rw [Box.freePart_vec]
    exact vec_injective.ne hfree
  · unfold secantDirection?
    dsimp only
    rw [if_neg hcount, hx, hslope, happly]
    show Except.ok (if dot (vec b) (B.freePart (vec a) (vec b) (-vec _)) < 0 then _ else _) = _
    rw [hpart, dot_vec, if_pos (real_lt_zero.mpr hdown)]
  · exact hB.exists_arc_descends ha (fun i hi => Box.loose_of_holds _ hi) hdown

theorem Used.mono (hL : L ⊆ M) (hh : Used L h) : Used M h := by
  induction hh with
  | empty memory => exact .empty memory
  | reset hh ih => exact ih.reset
  | offer hh hn s y ha hb ih => exact ih.offer (hL hn) s y ha hb

/-- What a solve does with its limited memory is more use of the same kind. -/
theorem Used.of_visits {o : Options Exact} (hB : B.Regular) (hfraction : 0 < o.armijo)
    (hh : Used L h) (hn : ∀ p ∈ h.window, p.1 = n) {x : Fin n → ℝ}
    {earlier : List (Iterate Exact n)} {it : Iterate Exact n} {k : Option (LimitedMemory Exact)}
    (hvisits : (SolverChoice.quasiNewton.descent o F B).Visits F B (vec x) (some h) earlier it k) :
    ∃ g, k = some g ∧ Used (insert n L) g ∧ ∀ p ∈ g.window, p.1 = n := by
  have hsearches := SolverChoice.quasiNewton.searches (τ := LimitedMemory Exact) o F B
  have hreal := Descent.acceptsReal_of_fraction hsearches hfraction
  induction hvisits with
  | start => exact ⟨h, rfl, hh.mono (Set.subset_insert n L), hn⟩
  | @step earlier it k t g hvisits hsearch haccepted hgradient ih =>
    obtain ⟨m, rfl, hm, hdim⟩ := ih
    obtain ⟨a, b, _, hit⟩ := hvisits.standsAt hB hsearches hreal
    obtain ⟨a', b', _, hnext⟩ :=
      (hvisits.step hsearch haccepted hgradient).standsAt hB hsearches hreal
    have hs : t.x - it.x = vec (a' - a) := by
      rw [hit.point, ← vec_sub_vec]
      exact congrArg (· - vec a) hnext.point
    have hy : g - it.gradient = vec (b' - b) := by
      rw [hit.gradient, ← vec_sub_vec]
      exact congrArg (· - vec b) hnext.gradient
    refine ⟨Secant.update m (t.x - it.x) (g - it.gradient), rfl, ?_, ?_⟩
    · rw [hs, hy]
      exact hm.update (Set.mem_insert n L) _ _
    · rw [update_eq_offer]
      unfold LimitedMemory.offer
      split
      · exact forall_push hdim rfl
      · exact hdim

/-- Where the projected gradient is not zero, a limited memory with a pair in it gives a direction
of descent, and short steps along the projected ray lead down. The solver takes that direction at
every iterate, as long as its memory is not empty. -/
theorem quasiNewton_leads (hB : B.Regular) {L : Set ℕ} {h : LimitedMemory Exact} (hh : Used L h)
    (hn : ∀ p ∈ h.window, p.1 = n) :
    (∀ a b : Fin n → ℝ, Secant.count h ≠ 0 → B.Feasible (vec a) →
      B.project (vec a - vec b) ≠ vec a → ∃ d, h.Leads B a b d) ∧
    ∀ (o : Options Exact) (F : Oracle Exact n) (x : Fin n → ℝ) (earlier : List (Iterate Exact n))
      (it : Iterate Exact n) (k : Option (LimitedMemory Exact)), 0 < o.armijo →
      (SolverChoice.quasiNewton.descent o F B).Visits F B (vec x) (some h) earlier it k →
      norm it.residual ≠ 0 →
      ∃ g a b, k = some g ∧ it.x = vec a ∧ it.gradient = vec b ∧
        (Secant.count g ≠ 0 → ∃ d, g.Leads B a b d) := by
  constructor
  · intro a b hcount ha hgoing
    exact hh.exists_leads hn hcount hB ha (hB.project_sub_eq_iff.not.mp hgoing)
  · intro o F x earlier it k hfraction hvisits hgoing
    have hsearches := SolverChoice.quasiNewton.searches (τ := LimitedMemory Exact) o F B
    obtain ⟨g, hk, hused, hdim⟩ := hh.of_visits hB hfraction hn hvisits
    obtain ⟨a, b, t, hit⟩ := hvisits.standsAt hB hsearches
      (Descent.acceptsReal_of_fraction hsearches hfraction)
    refine ⟨g, a, b, hk, hit.point, hit.gradient, fun hcount => ?_⟩
    have hmoves := hit.norm_residual_eq_zero_iff.not.mp hgoing
    exact hused.exists_leads hdim hcount hB hit.feasible hmoves

end LimitedMemory

namespace Box

/-- The unit square. -/
noncomputable def square : Box Exact 2 := .between (vec fun _ => 0) (vec fun _ => 1)

theorem regular_square : square.Regular := regular_between fun _ => zero_le_one

theorem feasible_square : square.Feasible (vec ![0, 1]) := by
  intro i
  rw [square, side_between, get_vec, get_vec, get_vec]
  fin_cases i
  · exact ⟨le_refl (0 : ℝ), zero_le_one (α := ℝ)⟩
  · exact ⟨zero_le_one (α := ℝ), le_refl (1 : ℝ)⟩

/-- At a corner of the square where the first variable is held, the second one may move. -/
theorem step_square {b : Fin 2 → ℝ} (hb : 0 < b 1) : square.step ![0, 1] b 1 ≠ 0 := by
  intro hstep
  rw [regular_square.step_one_eq_zero_iff feasible_square] at hstep
  rcases hstep 1 with h | ⟨h, -⟩ | ⟨-, h⟩
  · exact hb.ne' h
  · rw [square, side_between, get_vec, Exact.real.injEq] at h
    exact one_ne_zero h
  · exact hb.not_gt h

end Box

namespace LimitedMemory

/-- The three pairs of a plane, at a corner of the unit square. -/
theorem quasiNewton_leads_plane :
    let F : Oracle Exact 2 := Objective.squares.oracle
    Box.square.Regular ∧ Used {2} plane ∧ (∀ p ∈ plane.window, p.1 = 2) ∧ Secant.count plane ≠ 0 ∧
      Box.square.Feasible (vec ![0, 1]) ∧
      Box.square.project (vec ![0, 1] - vec ![1, 1]) ≠ vec ![0, 1] ∧
      (∃ d, plane.Leads Box.square ![0, 1] ![1, 1] d) ∧
      ∃ it, (SolverChoice.quasiNewton.descent .standard F Box.square).Visits F Box.square
          (vec ![0, 1]) (some plane) [] it (some plane) ∧ norm it.residual ≠ 0 ∧
        ∃ a b d, it.x = vec a ∧ it.gradient = vec b ∧ plane.Leads Box.square a b d := by
  intro F
  have hdim (p : (n : ℕ) × Pair Exact n) (hp : p ∈ plane.window) : p.1 = 2 :=
    (used_plane.window p hp).1
  have hcount : Secant.count plane ≠ 0 := by
    show plane.window.length ≠ 0
    rw [window_plane]
    decide
  have hproject : Box.square.project (vec ![0, 1] - vec ![1, 1]) ≠ vec ![0, 1] :=
    Box.regular_square.project_sub_eq_iff.not.mpr (Box.step_square one_pos)
  obtain ⟨hpoints, hsolves⟩ := quasiNewton_leads Box.regular_square used_plane hdim
  obtain ⟨it, t, hstart, hit⟩ := Objective.exists_start_squares Box.regular_square ![0, 1]
  rw [Box.regular_square.nearest_of_feasible Box.feasible_square] at hit
  have hresidual : norm it.residual ≠ 0 :=
    hit.norm_residual_eq_zero_iff.not.mpr (Box.step_square (by norm_num))
  have hvisits : (SolverChoice.quasiNewton.descent .standard F Box.square).Visits F Box.square
      (vec ![0, 1]) (some plane) [] it (some plane) := .start hstart
  have hfraction : 0 < (.standard : Options Exact).armijo := Options.standard_valid.armijo.1
  obtain ⟨g, a, b, hg, hx, hgradient, hleads⟩ :=
    hsolves .standard F _ [] it _ hfraction hvisits hresidual
  obtain rfl := Option.some.inj hg
  obtain ⟨d, hd⟩ := hleads hcount
  exact ⟨Box.regular_square, used_plane, hdim, hcount, Box.feasible_square, hproject,
    hpoints _ _ hcount Box.feasible_square hproject, it, hvisits, hresidual, a, b, d, hx, hgradient,
    hd⟩

end LimitedMemory

end LogBarrier

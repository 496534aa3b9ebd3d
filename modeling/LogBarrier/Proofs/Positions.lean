import LogBarrier.Proofs.Course
import LogBarrier.Proofs.Inward
import LogBarrier.Proofs.Nearest
import LogBarrier.Proofs.Trials

/-!
# Where iterates stand

With exact arithmetic the iterates of a solve stand at real points of the box, with real gradients
and step lengths between their bounds, as long as no search accepts a trial with an infinite entry.
A search tries the powers of its rate one after the other, so its trials lie on one arc.
-/

namespace LogBarrier

open Scalar Exact

variable {n : ℕ} {F : Oracle Exact n} {B : Box Exact n}

/-! ## Iterates -/

/-- The iterate stands at the point `a` of the box. The gradient there is `b` and the step length
`t`. -/
structure Iterate.StandsAt (it : Iterate Exact n) (B : Box Exact n) (a b : Fin n → ℝ) (t : ℝ) :
    Prop where
  point : it.x = vec a
  gradient : it.gradient = vec b
  residual : it.residual = vec (B.step a b 1)
  scale : it.scale = real t
  feasible : B.Feasible (vec a)
  scale_ge : 1e-10 ≤ t
  scale_le : t ≤ 1e10

theorem Iterate.StandsAt.scale_pos {it : Iterate Exact n} {a b : Fin n → ℝ} {t : ℝ}
    (h : it.StandsAt B a b t) : 0 < t :=
  lt_of_lt_of_le (by norm_num) h.scale_ge

theorem Iterate.StandsAt.norm_residual {it : Iterate Exact n} {a b : Fin n → ℝ} {t : ℝ}
    (h : it.StandsAt B a b t) : norm it.residual = real (length (B.step a b 1)) := by
  rw [h.residual, norm_vec]

theorem Iterate.StandsAt.norm_residual_eq_zero_iff {it : Iterate Exact n} {a b : Fin n → ℝ}
    {t : ℝ} (h : it.StandsAt B a b t) : norm it.residual = 0 ↔ B.step a b 1 = 0 := by
  rw [h.norm_residual, zero_eq, Exact.real.injEq, length_eq_zero_iff]

theorem Iterate.StandsAt.not_stationary {it : Iterate Exact n} {a b : Fin n → ℝ} {t : ℝ}
    (h : it.StandsAt B a b t) (hgoing : norm it.residual ≠ 0) : ¬ it.Stationary (real 0) := by
  intro hstationary
  rw [Iterate.Stationary, h.norm_residual, real_le_real] at hstationary
  have hzero := le_antisymm hstationary (length_nonneg _)
  exact hgoing (h.norm_residual.trans (congrArg real hzero))

theorem Iterate.StandsAt.spectralDirection_eq {it : Iterate Exact n} {a b : Fin n → ℝ} {t : ℝ}
    (h : it.StandsAt B a b t) (hB : B.Regular) :
    spectralDirection B it = vec (B.step a b t) := by
  rw [spectralDirection, h.point, h.gradient, h.scale, hB.project_sub_vec]

theorem Iterate.Sound.standsAt {it : Iterate Exact n} (h : it.Sound F B) (hB : B.Regular)
    {a : Fin n → ℝ} (hx : it.x = vec a) (ha : B.Feasible (vec a)) (hscale : Scaled it.scale) :
    ∃ b t, it.StandsAt B a b t := by
  obtain ⟨b, hb⟩ := allFinite_iff.mp h.gradient_finite
  obtain ⟨t, ht, hge, hle⟩ := hscale.exists_real
  refine ⟨b, t, hx, hb, ?_, ht, ha, hge, hle⟩
  rw [h.residual_at, hx, hb, hB.residual_vec]

theorem Iterate.scaled_of_start {x : Vector Exact n} {it : Iterate Exact n}
    (h : (Iterate.start F B x).run.result = .ok it) : Scaled it.scale := by
  unfold start at h
  obtain ⟨v, -, h⟩ := Trying.bind_eq_ok_iff.mp h
  obtain ⟨g, -, h⟩ := Trying.bind_eq_ok_iff.mp h
  cases h
  exact scaled_initialScale _

/-- Where the value and the gradient are finite, a solve can start. -/
theorem Iterate.exists_start {x : Vector Exact n} (hx : F.FiniteAt x) :
    ∃ it, (Iterate.start F B x).run.result = .ok it := by
  cases hstart : (Iterate.start F B x).run.result with
  | error e => exact absurd hx (Iterate.start_eq_error hstart)
  | ok it => exact ⟨it, rfl⟩

/-- A projection without `nan` lies in the box. -/
theorem Box.Regular.feasible_of_project (hB : B.Regular) {x z : Vector Exact n}
    (hx : x = B.project z) (hfinite : AllFinite x) : B.Feasible x := by
  obtain ⟨a, rfl⟩ := allFinite_iff.mp hfinite
  have hnumbers := allNumbers_vec a
  rw [hx] at hnumbers ⊢
  exact Box.feasible_project hB.not_isEmpty
    (Box.allNumbers_of_project hnumbers)

namespace Descent

variable {τ : Type} {D : Descent Exact τ n} {P : LineSearch Exact}

/-- From a real point the search accepts real points only. -/
def AcceptsReal (D : Descent Exact τ n) (F : Oracle Exact n) (B : Box Exact n) : Prop :=
  ∀ (k : Option τ) (it : Iterate Exact n) (a b : Fin n → ℝ) (s : ℝ) (t : Trial Exact n),
    it.StandsAt B a b s → it.Sound F B → (D.search k it).run.result = .ok t → t.accepted = true →
      AllFinite t.x

theorem Visits.standsAt (hB : B.Regular) (hD : D.Searches P F B) (hreal : D.AcceptsReal F B)
    {x : Fin n → ℝ} {h k : Option τ} {it : Iterate Exact n} {earlier : List (Iterate Exact n)}
    (hvisits : D.Visits F B (vec x) h earlier it k) : ∃ a b t, it.StandsAt B a b t := by
  induction hvisits with
  | start hstart =>
    obtain ⟨hx, hsound⟩ := Iterate.start_eq_ok hstart
    rw [hB.project_vec] at hx
    exact ⟨_, hsound.standsAt hB hx (hB.feasible_nearest x) (Iterate.scaled_of_start hstart)⟩
  | @step earlier it k t g hvisits hsearch haccepted hgradient ih =>
    obtain ⟨a, b, s, hit⟩ := ih
    have hfinite := hreal k it a b s t hit (hvisits.sound_last hD) hsearch haccepted
    obtain ⟨z, hz⟩ := (hD k it t hsearch haccepted).projected
    have hfeasible := hB.feasible_of_project hz hfinite
    obtain ⟨c, hc⟩ := allFinite_iff.mp hfinite
    have hnext := (hvisits.step hsearch haccepted hgradient).sound_last hD
    exact ⟨c, hnext.standsAt hB hc (hc ▸ hfeasible) (scaled_spectralScale ..)⟩

end Descent

/-! ## Trials -/

theorem Box.Regular.arc_vec (hB : B.Regular) (a d : Fin n → ℝ) (s : ℝ) :
    LineSearch.arc B (vec a) (vec d) (real s) = vec (B.nearest (a + s • d)) := by
  rw [LineSearch.arc, real_mul_vec, vec_add_vec, hB.project_vec]

/-- Between a point of the box and a step to another one, the arc is the segment. -/
theorem Box.Regular.arc_step (hB : B.Regular) {a : Fin n → ℝ} (ha : B.Feasible (vec a))
    (b : Fin n → ℝ) (t : ℝ) {s : ℝ} (hs : 0 ≤ s) (hs1 : s ≤ 1) :
    LineSearch.arc B (vec a) (vec (B.step a b t)) (real s) = vec (a + s • B.step a b t) := by
  have hsegment := feasible_segment ha (hB.feasible_add_step a b t) hs hs1
  rw [add_sub_cancel_left] at hsegment
  rw [hB.arc_vec, hB.nearest_of_feasible hsegment]

namespace LineSearch

variable {P : LineSearch Exact} {x g d : Vector Exact n} {fx last : Exact} {r alpha : ℝ}

/-- The trial of length `alpha` moves, and the gradient predicts a decrease for it. -/
def Predicts (B : Box Exact n) (x g d : Vector Exact n) (alpha : Exact) : Prop :=
  0 < norm (arc B x d alpha - x) ∧ dot g (arc B x d alpha - x) < 0

theorem predicts_of_arc {a b w : Fin n → ℝ} (harc : arc B (vec a) d (real alpha) = vec (a + w))
    (hw : w ≠ 0) (hdown : b ⬝ᵥ w < 0) : Predicts B (vec a) (vec b) d (real alpha) := by
  unfold Predicts
  rw [harc, vec_sub_vec, add_sub_cancel_left, norm_vec, dot_vec]
  exact ⟨length_pos_iff.mpr hw, hdown⟩

/-- The trial of length `alpha` is acceptable. -/
structure Passes (P : LineSearch Exact) (F : Oracle Exact n) (B : Box Exact n)
    (x : Vector Exact n) (fx : Exact) (g d : Vector Exact n) (alpha : Exact) : Prop where
  predicts : Predicts B x g d alpha
  finite : IsFinite (F.value (arc B x d alpha)).result
  enough : (F.value (arc B x d alpha)).result ≤
    fx + P.fraction * dot g (arc B x d alpha - x)

theorem Passes.suffices {alpha : Exact} (h : P.Passes F B x fx g d alpha) :
    P.Suffices F x fx g (arc B x d alpha) :=
  ⟨h.finite, h.enough⟩

theorem lengthOf_real (hr : P.rate = real r) (alpha : ℝ) (k : ℕ) :
    P.lengthOf (real alpha) k = real (alpha * r ^ k) := by
  induction k with
  | zero => rw [lengthOf, pow_zero, mul_one]
  | succ k ih => rw [lengthOf, ih, hr, real_mul_real, pow_succ, mul_assoc]

/-- A search ends at one of the lengths that it tries, and it fails at the one after the last. -/
theorem exists_length (hr : P.rate = real r) (alpha : ℝ) (last : Exact) {left : ℕ} :
    let t := (P.go F B x fx g d left (real alpha) last).result
    ∃ i ≤ left, t.alpha = real (alpha * r ^ i) ∧ (t.accepted = true ↔ i < left) := by
  rcases exists_first_or_rejected P F x fx g (P.point B x d (real alpha)) left with
    ⟨k, hk, hpromises, hsuffices, hrejected⟩ | hrejected
  · rw [(go_first last hk hpromises hsuffices hrejected).1]
    exact ⟨k, hk.le, lengthOf_real hr alpha k, iff_of_true rfl hk⟩
  · rw [(go_exhausted last hrejected).1]
    exact ⟨left, le_rfl, lengthOf_real hr alpha left,
      iff_of_false Bool.false_ne_true (lt_irrefl left)⟩

/-- The trial at which a search ends lies on its arc, at a power of the rate. -/
theorem exists_trial_eq_arc (hr : P.rate = real r) {it : Iterate Exact n}
    (haccepted : (P.trial F B it d).accepted = true) :
    ∃ i ≤ P.maxBacktracks, (P.trial F B it d).alpha = real (r ^ i) ∧
      (P.trial F B it d).x = arc B it.x d (real (r ^ i)) := by
  have harc : (P.trial F B it d).x = arc B it.x d (P.trial F B it d).alpha :=
    (go_accepted haccepted).1
  obtain ⟨i, -, halpha, hlength⟩ : ∃ i ≤ P.maxBacktracks + 1,
      (P.trial F B it d).alpha = real (1 * r ^ i) ∧
        ((P.trial F B it d).accepted = true ↔ i < P.maxBacktracks + 1) := exists_length hr 1 inf
  rw [one_mul] at halpha
  rw [halpha] at harc
  exact ⟨i, Nat.le_of_lt_succ (hlength.mp haccepted), halpha, harc⟩

end LineSearch

/-! ## An objective with a minimum -/

/-- The square of the distance to the origin. -/
noncomputable def Objective.squares : Objective Exact where
  value x := dot x.toVector x.toVector
  gradient x := (x.toVector + x.toVector).toArray
  product? := none

namespace Objective

theorem value_squares (a : Fin n → ℝ) :
    (squares.oracle.value (vec a)).result = real (a ⬝ᵥ a) := by
  have hdot (x : Vector Exact n) : squares.value x.toArray = dot x x := by
    obtain ⟨xs, rfl⟩ := x
    rfl
  exact (hdot (vec a)).trans (dot_vec a a)

theorem gradient_squares (a : Fin n → ℝ) :
    (squares.oracle.gradient (vec a)).run.result = .ok (vec ((2 : ℝ) • a)).toArray := by
  have hdouble (x : Vector Exact n) : squares.gradient x.toArray = (x + x).toArray := by
    obtain ⟨xs, rfl⟩ := x
    rfl
  refine congrArg Except.ok ((hdouble (vec a)).trans ?_)
  rw [vec_add_vec, two_smul]

theorem finiteAt_squares (a : Fin n → ℝ) : (squares.oracle : Oracle Exact n).FiniteAt (vec a) := by
  refine ⟨?_, _, gradient_squares a, allFinite_vec _⟩
  rw [value_squares]
  exact isFinite_real _

theorem exists_start_squares (hB : B.Regular) (x : Fin n → ℝ) :
    ∃ it t, (Iterate.start squares.oracle B (B.project (vec x))).run.result = .ok it ∧
      it.StandsAt B (B.nearest x) ((2 : ℝ) • B.nearest x) t := by
  rw [hB.project_vec]
  obtain ⟨it, hstart⟩ := Iterate.exists_start (B := B) (finiteAt_squares (B.nearest x))
  obtain ⟨hx, hsound⟩ := Iterate.start_eq_ok hstart
  obtain ⟨b, t, hit⟩ :=
    hsound.standsAt hB hx (hB.feasible_nearest x) (Iterate.scaled_of_start hstart)
  have hgradient := hsound.gradient_at
  rw [hx, gradient_squares, hit.gradient] at hgradient
  obtain rfl := vec_injective (Vector.toArray_inj.mp (Except.ok.inj hgradient))
  exact ⟨it, t, hstart, hit⟩

end Objective

end LogBarrier

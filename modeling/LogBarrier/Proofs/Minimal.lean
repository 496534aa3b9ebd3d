import LogBarrier.Proofs.Account
import LogBarrier.Proofs.Verdict

/-!
# What convergence means

With exact arithmetic, a projected gradient step of length `r` bounds how much a function can fall
below its tangent plane anywhere in the box: by `r` times the length of the gradient plus the
distance. A run that converges for an objective that stays above its tangent planes ends at a point
that is minimal up to that.
-/

namespace LogBarrier

open Scalar Exact LogBarrier.Action

variable {σ τ : Type} {n : ℕ} {f : Objective Exact} {B : Box Exact n}

/-! ## Lengths -/

namespace Exact

variable {a b c p : Fin n → ℝ}

theorem length_sub_comm (a b : Fin n → ℝ) : length (a - b) = length (b - a) := by
  rw [length, ← neg_sub b a, neg_dotProduct_neg]
  rfl

/-- A function with the gradient `b` at `a` falls towards `c` at most this fast, if `p` is where the
step from `a` along `-b` was cut off and `c` lies on this side of the cut. -/
theorem dotProduct_sub_le (h : (a - b - p) ⬝ᵥ (c - p) ≤ 0) :
    b ⬝ᵥ (a - c) ≤ length (p - a) * (length b + length (a - c)) := by
  have hsplit : b ⬝ᵥ (a - c) + (p - a) ⬝ᵥ (p - a) =
      (a - b - p) ⬝ᵥ (c - p) + (a - p) ⬝ᵥ b + (a - p) ⬝ᵥ (a - c) := by
    unfold dotProduct
    rw [← Finset.sum_add_distrib, ← Finset.sum_add_distrib, ← Finset.sum_add_distrib]
    refine Finset.sum_congr rfl fun i _ => ?_
    simp only [Pi.sub_apply]
    ring
  have hsquare := dotProduct_self_nonneg (p - a)
  calc b ⬝ᵥ (a - c)
      ≤ (a - p) ⬝ᵥ b + (a - p) ⬝ᵥ (a - c) := by linarith
    _ ≤ length (a - p) * length b + length (a - p) * length (a - c) :=
        add_le_add (dotProduct_le _ _) (dotProduct_le _ _)
    _ = length (p - a) * (length b + length (a - c)) := by rw [length_sub_comm a p, mul_add]

end Exact

/-! ## Tangent planes -/

/-- Over the box, `f` lies above the tangent plane at each of its points. -/
def Objective.AboveTangents (f : Objective Exact) (B : Box Exact n) : Prop :=
  ∀ x y g : Fin n → ℝ, B.Feasible (vec x) → B.Feasible (vec y) →
    f.gradient (vec x).toArray = (vec g).toArray →
    f.value (vec x).toArray + real (g ⬝ᵥ (y - x)) ≤ f.value (vec y).toArray

/-- The point is minimal for `f` over the box, up to `tolerance` times the length of the gradient
there plus the distance. -/
structure Box.NearlyMinimal (B : Box Exact n) (f : Objective Exact) (tolerance : ℝ)
    (a b : Fin n → ℝ) : Prop where
  gradient_at : f.gradient (vec a).toArray = (vec b).toArray
  feasible : B.Feasible (vec a)
  value_le (c : Fin n → ℝ) : B.Feasible (vec c) → f.value (vec a).toArray ≤
    f.value (vec c).toArray + real (tolerance * (length b + length (a - c)))

/-- A state with a small stationarity measure describes a point that is nearly minimal. -/
theorem State.Describes.nearlyMinimal {t : State Exact} {a b : Fin n → ℝ}
    (h : t.Describes f B a b) (hB : B.Regular) (hf : f.AboveTangents B) {tolerance : ℝ}
    (ht : t.gnorm ≤ real tolerance) : B.NearlyMinimal f tolerance a b := by
  refine ⟨h.gradient_at, h.feasible, fun c hc => ?_⟩
  obtain ⟨p, hp, hgnorm⟩ := h.gnorm
  obtain ⟨v, hv⟩ := isFinite_iff.mp h.value_finite
  have htangent := hf a c b h.feasible hc h.gradient_at
  rw [h.value_at, hv] at htangent ⊢
  rw [hgnorm, real_le_real] at ht
  have hfall : b ⬝ᵥ (a - c) ≤ tolerance * (length b + length (a - c)) := by
    refine (dotProduct_sub_le (hB.project_obtuse hp hc)).trans ?_
    exact mul_le_mul_of_nonneg_right ht (add_nonneg (length_nonneg b) (length_nonneg _))
  -- Nothing is asked of the value elsewhere, which may even be infinite.
  cases hw : f.value (vec c).toArray with
  | nan =>
    rw [hw] at htangent
    exact (not_le_nan _ htangent).elim
  | negInf =>
    rw [hw] at htangent
    exact htangent.elim
  | posInf => trivial
  | real w =>
    rw [hw, real_add_real, real_le_real] at htangent
    rw [real_add_real, real_le_real]
    have hneg : b ⬝ᵥ (c - a) = -(b ⬝ᵥ (a - c)) := by rw [← neg_sub a c, dotProduct_neg]
    linarith

/-! ## Whole runs -/

/-- A run that converges has found its last state to be good enough. -/
theorem Session.Stops.gnorm_le {s t : Session Exact σ τ n} [Numeral Exact] {k : ℕ}
    (h : s.Stops k .converged t) :
    t.method.state.gnorm ≤ s.method.options.gradientTolerance := by
  have halike := h.alike
  -- The iterations being used up is another status, so an iteration has answered.
  generalize hv : Status.converged = v at h
  cases h with
  | exhausted => cases hv
  | judged ht h =>
    obtain ⟨hverdict, -⟩ := ht.exists_iterated h
    rw [← halike.options]
    refine Options.verdict?_eq_converged_iff.mp ?_
    rw [hv]
    exact hverdict.symm

/-- Whatever the solver did: where a run converges, an objective above its tangent planes is
minimal up to the tolerance. -/
theorem Method.run_nearly_minimal [Numeral Exact] [Secant Exact τ] {M : Method Exact σ τ}
    (hB : B.Proper) {x : Array Exact} (hx : AllFinite x.toVector) {g : Array Exact} {k : Sink}
    (hends : ∀ i t, (M.session f B x g k).GetsTo i t → t.LeavesReal) (hf : f.AboveTangents B)
    {tolerance : ℝ} (htolerance : M.options.gradientTolerance = real tolerance)
    {t : Session Exact σ τ n} (hrun : M.run f B x g k = .ok .converged t) :
    ∃ a b : Fin n → ℝ, t.x = (vec a).toArray ∧ B.NearlyMinimal f tolerance a b := by
  have hstart : (M.session f B x g k).RealStart f B := ⟨rfl, rfl, hB, rfl, rfl, hx, hends⟩
  obtain ⟨i, u, hu, ht⟩ := (run_stages _).of_ok hrun
  have hfaithful := hstart.stops hu
  obtain ⟨a, b, hdescribed, hpoint, -⟩ := hfaithful.described
  have hgnorm := hu.gnorm_le
  refine ⟨a, b, ht.point.trans hpoint, hdescribed.nearlyMinimal hfaithful.regular hf ?_⟩
  rw [← htolerance]
  exact hgnorm

theorem Objective.aboveTangents_falling (B : Box Exact 1) : falling.AboveTangents B := by
  intro x y g _ _ hg
  have hslope : g = fun _ => -1 := by
    rw [gradient_falling, Vector.toArray_inj] at hg
    funext i
    have hi := congrArg (fun v => v.get i) hg
    rw [get_vec, get_vec] at hi
    exact (Exact.real.inj hi).symm
  subst hslope
  rw [value_falling, value_falling, real_add_real, real_le_real]
  simp [dotProduct]

/-- The solver wanders off to the right, where the objective is least. -/
theorem Method.run_nearly_minimal_wandering :
    letI := Exact.unwritten
    let x := (vec fun _ : Fin 1 => 3).toArray
    Box.unit.Proper ∧ AllFinite x.toVector ∧
      (∀ i t, (wandering.session .falling .unit x #[] .unlimited).GetsTo i t → t.LeavesReal) ∧
      Objective.falling.AboveTangents Box.unit ∧
      wandering.options.gradientTolerance = real 1e-6 ∧
      ∃ t, wandering.run .falling .unit x #[] .unlimited = .ok .converged t ∧
        ∃ a b : Fin 1 → ℝ, t.x = (vec a).toArray ∧ Box.unit.NearlyMinimal .falling 1e-6 a b := by
  let _ := Exact.unwritten
  have hx : AllFinite (vec fun _ : Fin 1 => 3).toArray.toVector :=
    (allFinite_toVector _).mpr (allFinite_vec _)
  have hf := Objective.aboveTangents_falling Box.unit
  obtain ⟨t, ht⟩ := exists_run_wandering
  exact ⟨Box.regular_unit.proper, hx, leavesReal_of_getsTo, hf, rfl, t, ht,
    Method.run_nearly_minimal Box.regular_unit.proper hx leavesReal_of_getsTo hf rfl ht⟩

end LogBarrier

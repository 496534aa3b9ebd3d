import LogBarrier.Proofs.Account
import LogBarrier.Proofs.Positions

/-!
# Searching a segment

A spectral step points from a point of the box to another one, so its search stays on the segment
between them. The step is downhill unless the point is stationary, and then each trial moves and has
a predicted decrease: none of them is passed over.
-/

namespace LogBarrier

open Scalar Exact

variable {n : ℕ} {F : Oracle Exact n} {B : Box Exact n}

/-! ## The step -/

/-- What the step `d` from `a` to the projection of the gradient step of length `t` says of `a`. -/
structure Box.SteepestStep (B : Box Exact n) (a b d : Fin n → ℝ) (t : ℝ) : Prop where
  step_eq : B.project (vec a - real t * vec b) - vec a = vec d
  descends : b ⬝ᵥ d ≤ -length d ^ 2 / t
  stationary : [d = 0,
    B.residual (vec a) (vec b) = vec 0,
    ∀ i, b i = 0 ∨ (real (a i) = (B.side i).lower ∧ 0 < b i) ∨
      (real (a i) = (B.side i).upper ∧ b i < 0),
    ∀ c, B.Feasible (vec c) → 0 ≤ b ⬝ᵥ (c - a)].TFAE
  segment (s : ℝ) (hs : 0 ≤ s) (hs1 : s ≤ 1) :
    LineSearch.arc B (vec a) (vec d) (real s) = vec (a + s • d)

theorem Box.Regular.steepestStep (hB : B.Regular) {a b : Fin n → ℝ} {t : ℝ}
    (ha : B.Feasible (vec a)) (ht : 0 < t) : B.SteepestStep a b (B.step a b t) t where
  step_eq := hB.project_sub_vec a b t
  descends := by
    have h := hB.step_descends ha b t
    rw [← sq_length] at h
    rw [le_div_iff₀ ht, mul_comm]
    exact h
  stationary := by
    rw [hB.residual_vec, vec_injective.eq_iff]
    tfae_have 1 ↔ 2 := hB.step_eq_zero_iff_of_pos ha ht one_pos
    tfae_have 2 ↔ 3 := hB.step_one_eq_zero_iff ha
    tfae_have 1 ↔ 4 := hB.step_eq_zero_iff ha ht
    tfae_finish
  segment s hs hs1 := hB.arc_step ha b t hs hs1

/-- From a point that is not stationary the step leads down, and so does each part of it. -/
theorem Box.Regular.predicts_step (hB : B.Regular) {a b : Fin n → ℝ} {s t : ℝ}
    (ha : B.Feasible (vec a)) (hgoing : B.step a b 1 ≠ 0) (ht : 0 < t) (hs : 0 < s) (hs1 : s ≤ 1) :
    LineSearch.Predicts B (vec a) (vec b) (vec (B.step a b t)) (real s) := by
  have hmoves : B.step a b t ≠ 0 := fun h =>
    hgoing ((hB.step_eq_zero_iff_of_pos ha ht one_pos).mp h)
  have hdown : b ⬝ᵥ B.step a b t < 0 := by
    have hdescends := hB.step_descends ha b t
    have hpos := pow_pos (length_pos_iff.mpr hmoves) 2
    rw [sq_length] at hpos
    exact neg_of_mul_neg_right (by linarith) ht.le
  refine LineSearch.predicts_of_arc (hB.arc_step ha b t hs.le hs1) ?_ ?_
  · exact smul_ne_zero hs.ne' hmoves
  · rw [dotProduct_smul, smul_eq_mul]
    exact mul_neg_of_pos_of_neg hs hdown

/-! ## The search -/

namespace LineSearch

variable {P : LineSearch Exact}

/-- If all its trials move and descend, a search asks for the value at each of them in turn. -/
theorem go_calls (F : Oracle Exact n) {x g d : Vector Exact n} {r : ℝ} (hr : P.rate = real r)
    (fx last : Exact) (alpha : ℝ) {left : ℕ}
    (hall : ∀ i < left, Predicts B x g d (real (alpha * r ^ i))) :
    let m := P.go F B x fx g d left (real alpha) last
    ∃ k ≤ left, m.calls = (List.range k).flatMap (fun i =>
        (F.value (arc B x d (real (alpha * r ^ i)))).calls) ∧
      (m.result.accepted = true → ∃ i, k = i + 1 ∧ m.result.alpha = real (alpha * r ^ i)) ∧
      (m.result.accepted = false → k = left) := by
  intro m
  have hasked {k : ℕ} (hk : k ≤ left) : asked F x g (P.point B x d (real alpha)) k =
      (List.range k).flatMap fun i => (F.value (arc B x d (real (alpha * r ^ i)))).calls := by
    have hpoint (i : ℕ) : P.point B x d (real alpha) i = arc B x d (real (alpha * r ^ i)) :=
      congrArg (arc B x d) (lengthOf_real hr alpha i)
    unfold asked
    simp only [hpoint]
    rw [List.filter_eq_self.mpr]
    intro i hi
    exact decide_eq_true (hall i ((List.mem_range.mp hi).trans_le hk))
  rcases exists_first_or_rejected P F x fx g (P.point B x d (real alpha)) left with
    ⟨k, hk, hpromises, hsuffices, hrejected⟩ | hrejected
  · obtain ⟨hresult, hcalls⟩ := go_first last hk hpromises hsuffices hrejected
    refine ⟨k + 1, hk, hcalls.trans (hasked hk), fun _ => ⟨k, rfl, ?_⟩, fun hfailed => ?_⟩
    · rw [hresult]
      exact lengthOf_real hr alpha k
    · rw [hresult] at hfailed
      cases hfailed
  · obtain ⟨hresult, hcalls⟩ := go_exhausted last hrejected
    refine ⟨left, le_rfl, hcalls.trans (hasked le_rfl), fun haccepted => ?_, fun _ => rfl⟩
    rw [hresult] at haccepted
    cases haccepted

/-- The search from `it` along `d` tries the first `k` powers of `r`. Every power leads to a
predicted decrease, and at those that are tried the value is asked. -/
structure AsksEverywhere (P : LineSearch Exact) (F : Oracle Exact n) (B : Box Exact n)
    (it : Iterate Exact n) (d : Vector Exact n) (r : ℝ) (k : ℕ) : Prop where
  le : k ≤ P.maxBacktracks + 1
  descends (i : ℕ) : dot it.gradient (arc B it.x d (real (r ^ i)) - it.x) < 0
  calls : (P.search F B it.x it.value it.gradient d 1).calls =
    (List.range k).flatMap fun i => (F.value (arc B it.x d (real (r ^ i)))).calls
  accepted : (P.trial F B it d).accepted = true →
    ∃ i, k = i + 1 ∧ (P.trial F B it d).alpha = real (r ^ i)
  rejected : (P.trial F B it d).accepted = false → k = P.maxBacktracks + 1

theorem exists_asksEverywhere {it : Iterate Exact n} {d : Vector Exact n} {r : ℝ}
    (hr : P.rate = real r) (hall : ∀ i, Predicts B it.x it.gradient d (real (r ^ i))) :
    ∃ k, P.AsksEverywhere F B it d r k := by
  have hpowers : ∀ i < P.maxBacktracks + 1, Predicts B it.x it.gradient d (real (1 * r ^ i)) := by
    intro i _
    rw [one_mul]
    exact hall i
  obtain ⟨k, hk, hcalls, haccepted, hrejected⟩ := go_calls F hr it.value inf 1 hpowers
  simp only [one_mul] at hcalls haccepted
  exact ⟨k, hk, fun i => (hall i).2, hcalls, haccepted, hrejected⟩

end LineSearch

theorem Box.feasible_unit : Box.unit.Feasible (vec fun _ => 1) := by
  rw [← Box.project_unit le_rfl]
  exact Box.regular_unit.feasible_project _

/-! ## The spectral method -/

namespace Descent

variable {τ : Type} {P : LineSearch Exact}

theorem searches_spectral : (spectral P F B : Descent Exact τ n).Searches P F B := by
  intro k it t hsearch haccepted
  cases hsearch
  exact LineSearch.accepts_trial haccepted

theorem acceptsReal_spectral (hB : B.Regular) {r : ℝ} (hr : P.rate = real r) :
    (spectral P F B : Descent Exact τ n).AcceptsReal F B := by
  intro k it a b s t hit hsound hsearch haccepted
  cases hsearch
  obtain ⟨i, -, -, harc⟩ := LineSearch.exists_trial_eq_arc hr haccepted
  rw [hit.point, hit.spectralDirection_eq hB, hB.arc_vec] at harc
  show AllFinite (P.trial F B it (spectralDirection B it)).x
  rw [hit.spectralDirection_eq hB, harc]
  exact allFinite_vec _

/-- The step to the projection of a gradient step is downhill, and zero at stationary points only.
All steps of the spectral method are of this kind, for lengths between fixed bounds, so its searches
ask for the value at every trial. -/
theorem spectral_asks_everywhere (hB : B.Regular) :
    (∀ (a b : Fin n → ℝ) (t : ℝ), B.Feasible (vec a) → 0 < t → ∃ d, B.SteepestStep a b d t) ∧
    ∀ (τ : Type) (P : LineSearch Exact) (F : Oracle Exact n) (r : ℝ) (x : Fin n → ℝ)
      (h k : Option τ) (earlier : List (Iterate Exact n)) (it : Iterate Exact n),
      P.rate = real r → 0 < r → r ≤ 1 →
      (spectral P F B : Descent Exact τ n).Visits F B (vec x) h earlier it k →
      ∃ a b t d, it.StandsAt B a b t ∧ spectralDirection B it = vec d ∧
        B.SteepestStep a b d t ∧
        (norm it.residual ≠ 0 → ∃ m, P.AsksEverywhere F B it (vec d) r m) := by
  constructor
  · intro a b t ha ht
    exact ⟨_, hB.steepestStep ha ht⟩
  · intro τ P F r x h k earlier it hr hpos hle hvisits
    obtain ⟨a, b, t, hit⟩ := hvisits.standsAt hB searches_spectral (acceptsReal_spectral hB hr)
    refine ⟨a, b, t, _, hit, hit.spectralDirection_eq hB,
      hB.steepestStep hit.feasible hit.scale_pos, fun hgoing => ?_⟩
    have hstep := hit.norm_residual_eq_zero_iff.not.mp hgoing
    refine LineSearch.exists_asksEverywhere hr fun i => ?_
    rw [hit.point, hit.gradient]
    exact hB.predicts_step hit.feasible hstep hit.scale_pos (pow_pos hpos i)
      (pow_le_one₀ hpos.le hle)

/-- At the right end of the unit interval the squares lead down, into the interval. -/
theorem exists_start_unit :
    ∃ it t, (Iterate.start Objective.squares.oracle Box.unit
        (Box.unit.project (vec fun _ => 3))).run.result = .ok it ∧
      it.StandsAt Box.unit (fun _ => 1) (fun _ => 2) t ∧ it.value = real 1 ∧
      norm it.residual ≠ 0 := by
  obtain ⟨it, t, hstart, hit⟩ := Objective.exists_start_squares Box.regular_unit fun _ => 3
  have hnearest : Box.unit.nearest (fun _ => 3) = fun _ => 1 := by
    funext i
    rw [Box.nearest_unit]
    norm_num
  have hdouble : (2 : ℝ) • (fun _ : Fin 1 => (1 : ℝ)) = fun _ => 2 := by
    funext i
    norm_num
  rw [hnearest, hdouble] at hit
  have hvalue := (Iterate.start_eq_ok hstart).2.value_at
  rw [hit.point, Objective.value_squares] at hvalue
  refine ⟨it, t, hstart, hit, hvalue.symm.trans ?_, hit.norm_residual_eq_zero_iff.not.mpr ?_⟩
  · norm_num [dotProduct]
  · intro hstep
    have hentry := congrFun hstep 0
    rw [Box.step, Pi.sub_apply, Box.nearest_unit] at hentry
    norm_num at hentry

/-- Over the unit interval, from its right end down to the origin. -/
theorem spectral_asks_everywhere_squares :
    let P : LineSearch Exact := ⟨real 1e-4, real 0.5, 60⟩
    let F : Oracle Exact 1 := Objective.squares.oracle
    Box.unit.Regular ∧
      (Box.unit.Feasible (vec fun _ => 1) ∧ (0 : ℝ) < 3 ∧
        ∃ d, Box.unit.SteepestStep (fun _ => 1) (fun _ => 2) d 3) ∧
      P.rate = real 0.5 ∧ (0 : ℝ) < 0.5 ∧ (0.5 : ℝ) ≤ 1 ∧
      ∃ it, (spectral P F .unit : Descent Exact (LimitedMemory Exact) 1).Visits F .unit
          (vec fun _ => 3) none [] it none ∧ norm it.residual ≠ 0 ∧
        ∃ a b t d, it.StandsAt .unit a b t ∧ spectralDirection .unit it = vec d ∧
          Box.unit.SteepestStep a b d t ∧ ∃ m, P.AsksEverywhere F .unit it (vec d) 0.5 m := by
  intro P F
  have hB := Box.regular_unit
  have hfeasible := Box.feasible_unit
  have hpos : (0 : ℝ) < 0.5 := by norm_num
  have hle : (0.5 : ℝ) ≤ 1 := by norm_num
  obtain ⟨hsteps, hsolves⟩ := spectral_asks_everywhere hB
  obtain ⟨it, -, hstart, -, -, hgoing⟩ := exists_start_unit
  have hvisits : (spectral P F .unit : Descent Exact (LimitedMemory Exact) 1).Visits F .unit
      (vec fun _ => 3) none [] it none := .start hstart
  obtain ⟨a, b, t, d, hit, hd, hstep, hasks⟩ :=
    hsolves _ P F 0.5 _ none none [] it rfl hpos hle hvisits
  exact ⟨hB, ⟨hfeasible, by norm_num, hsteps _ _ 3 hfeasible (by norm_num)⟩, rfl, hpos, hle, it,
    hvisits, hgoing, a, b, t, d, hit, hd, hstep, hasks hgoing⟩

end Descent

end LogBarrier

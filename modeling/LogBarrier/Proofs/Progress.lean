import LogBarrier.Proofs.Smooth

/-!
# Progress

On a smooth function each iteration of the spectral method lowers the value by a fixed amount, as
long as the projected gradient exceeds the tolerance. A function that is bounded below allows only
so many of these iterations, and their number depends on neither the dimension nor the box.
-/

namespace LogBarrier

open Scalar Exact

variable {n : ℕ} {F : Oracle Exact n} {B : Box Exact n} {f : (Fin n → ℝ) → ℝ}
  {f' : (Fin n → ℝ) → Fin n → ℝ} {L : ℝ}

/-! ## The course up to the end -/

namespace Descent

variable {τ : Type} {D : Descent Exact τ n} {tol : Tolerances Exact} {x : Vector Exact n}
  {h k : Option τ} {it : Iterate Exact n} {earlier : List (Iterate Exact n)}

/-- No solve goes on from a stationary iterate. -/
theorem loop_going {left : ℕ} (hvisits : D.Visits F B x h earlier it k)
    (hgoing : ∀ a ∈ earlier, ¬ a.Stationary tol.gradient) {report : SolveReport}
    (hok : (D.loop F B tol left earlier.length it k).result.outcome = .ok report) :
    ∃ earlier it k, D.Visits F B x h earlier it k ∧ earlier.length = report.iterations ∧
      ∀ a ∈ earlier, ¬ a.Stationary tol.gradient := by
  induction left generalizing earlier it k with
  | zero =>
    obtain rfl := Except.ok.inj hok
    exact ⟨earlier, it, k, hvisits, rfl, hgoing⟩
  | succ left ih =>
    unfold loop at hok
    split at hok
    · obtain rfl := Except.ok.inj hok
      exact ⟨earlier, it, k, hvisits, rfl, hgoing⟩
    · rename_i hmoving
      rw [Metered.result_bind] at hok
      split at hok
      · cases hok
      · rename_i t hsearch
        split at hok
        · obtain rfl := Except.ok.inj hok
          exact ⟨earlier, it, k, hvisits, rfl, hgoing⟩
        · rename_i haccepted
          rw [Metered.result_bind] at hok
          split at hok
          · cases hok
          · rename_i g hgradient
            have hnext := hvisits.step hsearch (Decidable.not_not.mp haccepted) hgradient
            have hgrown : (earlier ++ [it]).length = earlier.length + 1 := List.length_append
            have hall : ∀ a ∈ earlier ++ [it], ¬ a.Stationary tol.gradient := by
              intro a ha
              rcases List.mem_append.mp ha with ha | ha
              · exact hgoing a ha
              · rwa [List.mem_singleton.mp ha]
            dsimp only at hok
            split at hok
            · obtain rfl := Except.ok.inj hok
              exact ⟨_, _, _, hnext, hgrown, hall⟩
            · rw [← hgrown] at hok
              exact ih hnext hall hok

theorem solve_going {report : SolveReport}
    (hok : (D.solve F B tol x h).result.outcome = .ok report) :
    ∃ earlier it k, D.Visits F B x h earlier it k ∧ earlier.length = report.iterations ∧
      ∀ a ∈ earlier, ¬ a.Stationary tol.gradient := by
  unfold solve at hok
  rw [Metered.result_bind] at hok
  split at hok
  · cases hok
  · rename_i it hstart
    exact loop_going (.start hstart) (List.forall_mem_nil _) hok

end Descent

/-! ## The fall in one iteration -/

/-- The least fall of the value in an iteration from a point whose projected gradient is longer than
`gtol`. -/
noncomputable def leastFall (L gtol c r : ℝ) : ℝ :=
  c * gtol ^ 2 * min 1e-10 (2e-20 * (r * (1 - c) / L))

/-- The number of iterations in which the value can fall by no more than `gap`. -/
noncomputable def iterationBound (gap L gtol c r : ℝ) : ℕ := ⌊gap / leastFall L gtol c r⌋₊ + 1

/-- The share that the scale `t` of a step and the accepted length `s` have in the fall. A length
other than one exceeds `2 * q / t`. -/
theorem leastShare_le {q s t : ℝ} (hq : 0 < q) (hge : 1e-10 ≤ t) (hle : t ≤ 1e10)
    (hs : s = 1 ∨ 2 * q / t < s) : 0 < s ∧ min 1e-10 (2e-20 * q) ≤ s * min 1 t ^ 2 / t := by
  have ht : 0 < t := lt_of_lt_of_le (by norm_num) hge
  rcases hs with rfl | hlt
  · refine ⟨one_pos, (min_le_left _ _).trans ?_⟩
    rw [one_mul, le_div_iff₀ ht]
    rcases le_total 1 t with h | h
    · rw [min_eq_left h]
      linarith
    · rw [min_eq_right h, sq]
      exact mul_le_mul_of_nonneg_right hge ht.le
  · have hratio : 1e-10 ≤ min 1 t / t := by
      rw [le_div_iff₀ ht]
      exact le_min (by linarith) (by linarith)
    have hpos : 0 < 2 * q := mul_pos two_pos hq
    refine ⟨(div_pos hpos ht).trans hlt, (min_le_right _ _).trans ?_⟩
    calc 2e-20 * q = 1e-10 ^ 2 * (2 * q) := by ring
      _ ≤ (min 1 t / t) ^ 2 * (2 * q) :=
          mul_le_mul_of_nonneg_right (pow_le_pow_left₀ (by norm_num) hratio 2) hpos.le
      _ = 2 * q / t * (min 1 t ^ 2 / t) := by ring
      _ ≤ s * (min 1 t ^ 2 / t) :=
          mul_le_mul_of_nonneg_right hlt.le (div_nonneg (sq_nonneg _) ht.le)
      _ = s * min 1 t ^ 2 / t := by ring

namespace LineSearch.Suits

variable {P : LineSearch Exact} {c r gtol : ℝ}

theorem ratio_pos (hP : P.Suits c r L) (hL : 0 < L) : 0 < r * (1 - c) / L := by
  have hfraction := hP.fraction_lt
  exact div_pos (mul_pos hP.rate_pos (by linarith)) hL

theorem leastFall_pos (hP : P.Suits c r L) (hL : 0 < L) (hgtol : 0 < gtol) :
    0 < leastFall L gtol c r := by
  have hleast : (0 : ℝ) < min 1e-10 (2e-20 * (r * (1 - c) / L)) :=
    lt_min (by norm_num) (mul_pos (by norm_num) (hP.ratio_pos hL))
  exact mul_pos (mul_pos hP.fraction_pos (pow_pos hgtol 2)) hleast

/-- A step of the length `len` and the scale `t` falls by no less, if it is as long as the projected
gradient requires and the search shortens it no more than the curvature does. -/
theorem leastFall_le (hP : P.Suits c r L) (hL : 0 < L) (hgtol : 0 ≤ gtol) {s t len : ℝ}
    (hge : 1e-10 ≤ t) (hle : t ≤ 1e10) (hs : s = 1 ∨ 2 * r * (1 - c) / (L * t) < s)
    (hlen : min 1 t * gtol ≤ len) : leastFall L gtol c r ≤ c * (s * len ^ 2 / t) := by
  have ht : 0 < t := lt_of_lt_of_le (by norm_num) hge
  have hmin : 0 < min 1 t := lt_min one_pos ht
  have hshortest : 2 * r * (1 - c) / (L * t) = 2 * (r * (1 - c) / L) / t := by
    rw [← div_div, mul_assoc, mul_div_assoc]
  rw [hshortest] at hs
  obtain ⟨hs_pos, hleast⟩ := leastShare_le (hP.ratio_pos hL) hge hle hs
  calc leastFall L gtol c r
      ≤ c * gtol ^ 2 * (s * min 1 t ^ 2 / t) :=
        mul_le_mul_of_nonneg_left hleast (mul_nonneg hP.fraction_pos.le (sq_nonneg _))
    _ = c * (s / t * (min 1 t * gtol) ^ 2) := by ring
    _ ≤ c * (s / t * len ^ 2) := by
        have hsquare := pow_le_pow_left₀ (mul_nonneg hmin.le hgtol) hlen 2
        have hscaled := mul_le_mul_of_nonneg_left hsquare (div_pos hs_pos ht).le
        exact mul_le_mul_of_nonneg_left hscaled hP.fraction_pos.le
    _ = c * (s * len ^ 2 / t) := by ring

end LineSearch.Suits

namespace SolverChoice

variable {τ : Type} [Secant Exact τ] {o : Options Exact} {c r gtol : ℝ} {tol : Tolerances Exact}
  {it : Iterate Exact n} {x : Fin n → ℝ} {h k : Option τ} {earlier : List (Iterate Exact n)}

section

variable (hB : B.Regular) (hL : 0 < L) (hF : F.Smooth B f f' L)
  (hP : (LineSearch.ofOptions o).Suits c r L) (hgtol : 0 < gtol) (htol : tol.gradient = real gtol)

include hB hL hF hP hgtol htol

/-- In one iteration the value falls by `leastFall` at least. -/
theorem spectral_falls
    (hvisits : (spectral.descent o F B).Visits F B (vec x) h earlier it k)
    (hgoing : ¬ it.Stationary tol.gradient) {v : ℝ} (hv : it.value = real v) :
    ∃ w, ((LineSearch.ofOptions o).trial F B it (spectralDirection B it)).value = real w ∧
      w + leastFall L gtol c r ≤ v := by
  have hnonneg : 0 ≤ tol.gradient := by
    rw [htol]
    exact hgtol.le
  obtain ⟨a, b, t, s, hit, haccepted, halpha, hlength⟩ :=
    exists_spectral_trial hB hL hF hP hnonneg hvisits hgoing
  have haccepts := LineSearch.accepts_trial haccepted
  obtain ⟨i, -, hpower, harc⟩ := LineSearch.exists_trial_eq_arc hP.rate haccepted
  rw [hit.spectralDirection_eq hB] at haccepts halpha hpower harc ⊢
  obtain rfl : s = r ^ i := real.inj (halpha.symm.trans hpower)
  have hs := pow_pos hP.rate_pos i
  have hs1 := pow_le_one₀ hP.rate_pos.le hP.rate_lt.le (n := i)
  rw [hit.point, hB.arc_step hit.feasible b t hs.le hs1] at harc
  obtain ⟨w, hw⟩ := isFinite_iff.mp haccepts.value_finite
  refine ⟨w, hw, ?_⟩
  have henough := haccepts.enough
  rw [hw, hv, hit.point, hit.gradient, harc, hP.fraction, vec_sub_vec, add_sub_cancel_left,
    dot_vec, real_mul_real, real_add_real, real_le_real, dotProduct_smul, smul_eq_mul] at henough
  have hlong : gtol ≤ length (B.step a b 1) := by
    rw [Iterate.Stationary, hit.norm_residual, htol, real_le_real] at hgoing
    exact (not_le.mp hgoing).le
  have hlen := (mul_le_mul_of_nonneg_left hlong
    (le_min zero_le_one hit.scale_pos.le)).trans (hB.min_mul_length_le hit.scale_pos a b)
  have hfall := hP.leastFall_le hL hgtol.le hit.scale_ge hit.scale_le hlength hlen
  have hdown := (hB.steepestStep (b := b) hit.feasible hit.scale_pos).descends
  have hscaled := mul_le_mul_of_nonneg_left
    (mul_le_mul_of_nonneg_left hdown hs.le) hP.fraction_pos.le
  rw [neg_div, mul_neg, mul_neg, ← mul_div_assoc] at hscaled
  linarith

/-- Over all iterations up to `it` the value falls by a multiple of `leastFall`. -/
theorem spectral_falls_by
    (hvisits : (spectral.descent o F B).Visits F B (vec x) h earlier it k)
    (hgoing : ∀ a ∈ earlier, ¬ a.Stationary tol.gradient) :
    ∃ v, it.value = real v ∧ v + earlier.length * leastFall L gtol c r ≤ f (B.nearest x) := by
  induction hvisits with
  | start hstart =>
    obtain ⟨hx, hsound⟩ := Iterate.start_eq_ok hstart
    rw [hB.project_vec] at hx
    refine ⟨_, hF.value_eq hsound hx (hB.feasible_nearest x), ?_⟩
    simp
  | @step earlier it k t g hvisits hsearch haccepted hgradient ih =>
    obtain ⟨hearlier, hlast⟩ := List.forall_mem_append.mp hgoing
    obtain ⟨v, hv, hsum⟩ := ih hearlier
    obtain ⟨w, hw, hfall⟩ := spectral_falls hB hL hF hP hgtol htol hvisits
      (hlast it (List.mem_singleton_self it)) hv
    cases hsearch
    refine ⟨w, hw, ?_⟩
    rw [List.length_append, List.length_singleton]
    push_cast
    linarith

/-- A function that is bounded below leaves the solver fewer iterations than `iterationBound`. -/
theorem length_lt_iterationBound {low : ℝ} (hlow : ∀ a, B.Feasible (vec a) → low ≤ f a)
    (hvisits : (spectral.descent o F B).Visits F B (vec x) h earlier it k)
    (hgoing : ∀ a ∈ earlier, ¬ a.Stationary tol.gradient) :
    earlier.length < iterationBound (f (B.nearest x) - low) L gtol c r := by
  have hsearches := spectral.searches (τ := τ) o F B
  obtain ⟨v, hv, hsum⟩ := spectral_falls_by hB hL hF hP hgtol htol hvisits hgoing
  obtain ⟨a, b, t, hit⟩ :=
    hvisits.standsAt hB hsearches (Descent.acceptsReal_spectral hB hP.rate)
  have hvalue := hF.value_eq (hvisits.sound_last hsearches) hit.point hit.feasible
  obtain rfl : v = f a := real.inj (hv.symm.trans hvalue)
  have hlow := hlow a hit.feasible
  refine Nat.lt_succ_of_le (Nat.le_floor ?_)
  rw [le_div_iff₀ (hP.leastFall_pos hL hgtol)]
  linarith

end

/-- On a smooth function that is bounded below the spectral solver ends within `iterationBound`
iterations. It has converged then, or made a short step. -/
theorem spectral_converges (hB : B.Regular) (hL : 0 < L) (hF : F.Smooth B f f' L) {low : ℝ}
    (hlow : ∀ a, B.Feasible (vec a) → low ≤ f a) (hP : (LineSearch.ofOptions o).Suits c r L)
    (hgtol : 0 < gtol) (htol : tol.gradient = real gtol) (x : Fin n → ℝ) (h : Option τ)
    (hlimit : iterationBound (f (B.nearest x) - low) L gtol c r ≤ tol.maxIterations) :
    let solved := ((spectral.solver o).solve F B tol (vec x) () h).result
    ∃ report earlier it k, solved.outcome = .ok report ∧ solved.x = it.x.toArray ∧
      spectral.Honest o F B tol (vec x) h earlier it k report ∧
      report.iterations ≤ iterationBound (f (B.nearest x) - low) L gtol c r ∧
      ((report.converged = true ∧ norm (B.residual it.x it.gradient) ≤ tol.gradient) ∨
        ∃ prev, earlier.getLast? = some prev ∧ norm (it.x - prev.x) ≤ tol.step) := by
  intro solved
  have hnonneg : 0 ≤ tol.gradient := by
    rw [htol]
    exact hgtol.le
  obtain ⟨report, hreport⟩ := exists_spectral_report hB hF hP.rate x h
  obtain ⟨earlier, it, k, hx, hhonest, hunconverged⟩ :=
    (spectral.persists hB hL hF hP hnonneg x h).unconverged hreport
  have hrun := hreport
  rw [solve_result] at hrun
  obtain ⟨earlier', it', k', hvisits, hlength, hgoing⟩ := Descent.solve_going hrun
  have hfew := length_lt_iterationBound hB hL hF hP hgtol htol hlow hvisits hgoing
  rw [hlength] at hfew
  refine ⟨report, earlier, it, k, hreport, hx, hhonest, hfew.le, ?_⟩
  cases hconverged : report.converged with
  | true => exact .inl ⟨rfl, hhonest.converged_iff.mp hconverged⟩
  | false =>
    rcases hunconverged hconverged with hall | hshort
    · exact absurd hall (hfew.trans_le hlimit).ne
    · exact .inr hshort

/-- The squares over the unit interval. -/
theorem spectral_converges_squares :
    let F : Oracle Exact 1 := Objective.squares.oracle
    let f : (Fin 1 → ℝ) → ℝ := fun a => a ⬝ᵥ a
    let x : Fin 1 → ℝ := fun _ => 3
    let bound := iterationBound (f (Box.unit.nearest x) - 0) 2 1e-6 1e-4 0.5
    let tol : Tolerances Exact := ⟨real 1e-6, real 1e-8, bound⟩
    let h : Option (LimitedMemory Exact) := none
    let solved := ((spectral.solver .standard).solve F .unit tol (vec x) () h).result
    Box.unit.Regular ∧ F.Smooth .unit f (fun a => (2 : ℝ) • a) 2 ∧
      (∀ a, Box.unit.Feasible (vec a) → 0 ≤ f a) ∧
      (LineSearch.ofOptions (.standard : Options Exact)).Suits 1e-4 0.5 2 ∧
      ∃ report earlier it k, solved.outcome = .ok report ∧ solved.x = it.x.toArray ∧
        spectral.Honest .standard F .unit tol (vec x) h earlier it k report ∧
        report.iterations ≤ bound ∧
        ((report.converged = true ∧ norm (Box.unit.residual it.x it.gradient) ≤ real 1e-6) ∨
          ∃ prev, earlier.getLast? = some prev ∧ norm (it.x - prev.x) ≤ real 1e-8) := by
  intro F f x bound tol h solved
  have hF : F.Smooth .unit f (fun a => (2 : ℝ) • a) 2 := Objective.smooth_squares
  have hlow (a : Fin 1 → ℝ) (_ : Box.unit.Feasible (vec a)) : 0 ≤ f a := dotProduct_self_nonneg a
  exact ⟨Box.regular_unit, hF, hlow, Options.suits_standard,
    spectral_converges Box.regular_unit two_pos hF hlow Options.suits_standard (by norm_num) rfl x h
      le_rfl⟩

end SolverChoice

end LogBarrier

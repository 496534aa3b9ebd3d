import LogBarrier.Exact
import LogBarrier.Proofs.Usage

/-!
# The standard method

The method that the default options describe, in exact arithmetic. Its options pass all checks.
-/

namespace LogBarrier

open Scalar Exact

theorem Options.choice_standard {α : Type} [Scalar α] :
    (Options.standard : Options α).choice = .ok .spectral := by
  show Options.readChoice "spectral_projected_gradient" = .ok .spectral
  decide +kernel

theorem Options.standard_valid : (Options.standard : Options Exact).Valid where
  muMin_pos := by
    show (0 : ℝ) < 1e-8
    norm_num
  muMin_le := by
    show (1e-8 : ℝ) ≤ 1
    norm_num
  muMax_finite := isFinite_real 1
  rho := by
    show (0 : ℝ) < 0.1 ∧ (0.1 : ℝ) < 1
    norm_num
  kappa := by
    refine ⟨?_, isFinite_real _⟩
    show (0 : ℝ) < 1e-4
    norm_num
  minGtol_pos := by
    show (0 : ℝ) < 1e-8
    norm_num
  initialGtol := by
    refine ⟨?_, isFinite_real _⟩
    show (1e-8 : ℝ) ≤ 1e-2
    norm_num
  gtolRate := by
    show (0 : ℝ) < 0.1 ∧ (0.1 : ℝ) ≤ 1
    norm_num
  minStol_pos := by
    show (0 : ℝ) < 1e-12
    norm_num
  initialStol := by
    refine ⟨?_, isFinite_real _⟩
    show (1e-12 : ℝ) ≤ 1e-8
    norm_num
  stolRate := by
    show (0 : ℝ) < 1 ∧ (1 : ℝ) ≤ 1
    norm_num
  gradientTolerance_pos := by
    show (0 : ℝ) < 1e-6
    norm_num
  maxInner_pos := by decide
  maxStall_pos := by decide
  choice := ⟨_, choice_standard⟩
  secantMemory_pos := by decide
  armijo := by
    show (0 : ℝ) < 1e-4 ∧ (1e-4 : ℝ) < 1
    norm_num
  backtrackingRate := by
    show (0 : ℝ) < 0.5 ∧ (0.5 : ℝ) < 1
    norm_num
  maxBacktracks_pos := by decide

/-- Numbers that are written as nothing at all, for runs without a report. -/
@[reducible] noncomputable def Exact.unwritten : Numeral Exact where
  scientific _ _ := ""
  shortest _ := ""
  decimal? _ := none
  ofDecimal _ := 0
  read? _ := none

namespace Method

/-- The method that the default options describe. -/
noncomputable def standard : Method Exact Unit (LimitedMemory Exact) where
  options := .standard
  solver := SolverChoice.spectral.solver .standard
  memory := ()
  secant := none
  schedules := .ofOptions .standard
  state := .initial

theorem ofOptions_standard : ofOptions (.standard : Options Exact) = .ok standard := by
  unfold ofOptions
  rw [Options.validate_eq_ok_iff.mpr Options.standard_valid, Options.choice_standard]
  rfl

variable [Numeral Exact]

theorem from_standard : standard.From .standard :=
  .new ofOptions_standard

end Method

end LogBarrier

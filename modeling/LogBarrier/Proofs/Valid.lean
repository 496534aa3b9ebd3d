import LogBarrier.Options

/-!
# Valid options

What the checks of a method guarantee. They are made one after the other, and each one that fails
ends them.
-/

namespace LogBarrier.Options

open Scalar

variable {α : Type}

theorem check_bind_eq_ok_iff {option reason : String} {p : Prop} [Decidable p]
    {f : Unit → Except Error Unit} :
    (check option p reason >>= f) = .ok () ↔ p ∧ f () = .ok () := by
  unfold check
  split
  · rename_i hp
    exact (and_iff_right hp).symm
  · rename_i hp
    refine iff_of_false (fun h => ?_) fun h => hp h.1
    cases h

theorem check_eq_ok_iff {option reason : String} {p : Prop} [Decidable p] :
    check option p reason = .ok () ↔ p := by
  unfold check
  split <;> simp [*]

theorem discard_bind_eq_ok_iff {β : Type} {r : Except Error β} {f : PUnit → Except Error Unit} :
    (discard r >>= f) = .ok () ↔ (∃ b, r = .ok b) ∧ f ⟨⟩ = .ok () := by
  cases r with
  | error e =>
    refine iff_of_false (fun h => ?_) fun h => ?_
    · cases h
    · obtain ⟨⟨b, hb⟩, -⟩ := h
      cases hb
  | ok b => exact (and_iff_right ⟨b, rfl⟩).symm

/-- A check of one option raises no error about another. -/
theorem check_bind_ne {option reason : String} {p : Prop} [Decidable p] {e : Error}
    {f : Unit → Except Error Unit} (he : e ≠ .invalidOption option reason)
    (h : f () ≠ .error e) : (check option p reason >>= f) ≠ .error e := by
  unfold check
  split
  · exact h
  · exact fun heq => he (Except.error.inj heq).symm

variable [Scalar α]

/-- The options pass every check. -/
structure Valid (o : Options α) : Prop where
  muMin_pos : 0 < o.muMin
  muMin_le : o.muMin ≤ o.muMax
  muMax_finite : IsFinite o.muMax
  rho : 0 < o.rho ∧ o.rho < 1
  kappa : 0 < o.kappa ∧ IsFinite o.kappa
  minGtol_pos : 0 < o.minGtol
  initialGtol : o.minGtol ≤ o.initialGtol ∧ IsFinite o.initialGtol
  gtolRate : 0 < o.gtolRate ∧ o.gtolRate ≤ 1
  minStol_pos : 0 < o.minStol
  initialStol : o.minStol ≤ o.initialStol ∧ IsFinite o.initialStol
  stolRate : 0 < o.stolRate ∧ o.stolRate ≤ 1
  gradientTolerance_pos : 0 < o.gradientTolerance
  maxInner_pos : 1 ≤ o.maxInner
  maxStall_pos : 1 ≤ o.maxStall
  choice : ∃ c, o.choice = .ok c
  secantMemory_pos : 1 ≤ o.secantMemory
  armijo : 0 < o.armijo ∧ o.armijo < 1
  backtrackingRate : 0 < o.backtrackingRate ∧ o.backtrackingRate < 1
  maxBacktracks_pos : 1 ≤ o.maxBacktracks

theorem validate_eq_ok_iff {o : Options α} : o.validate = .ok () ↔ o.Valid := by
  unfold validate
  simp only [check_bind_eq_ok_iff, discard_bind_eq_ok_iff, check_eq_ok_iff]
  constructor
  · rintro ⟨h1, h2, h3, h4, h5, h6, h7, h8, h9, h10, h11, h12, h13, h14, h15, h16, h17, h18, h19⟩
    exact ⟨h1, h2, h3, h4, h5, h6, h7, h8, h9, h10, h11, h12, h13, h14, h15, h16, h17, h18, h19⟩
  · rintro ⟨h1, h2, h3, h4, h5, h6, h7, h8, h9, h10, h11, h12, h13, h14, h15, h16, h17, h18, h19⟩
    exact ⟨h1, h2, h3, h4, h5, h6, h7, h8, h9, h10, h11, h12, h13, h14, h15, h16, h17, h18, h19⟩

/-- As long as the name of the solver can be read, no check finds fault with it. -/
theorem validate_ne_of_choice {o : Options α} {c : SolverChoice} (h : o.choice = .ok c)
    (reason : String) : o.validate ≠ .error (.invalidOption "subproblem_name" reason) := by
  unfold validate
  iterate 14 refine check_bind_ne (by simp) ?_
  rw [h]
  show (check _ _ _ >>= _) ≠ _
  iterate 3 refine check_bind_ne (by simp) ?_
  unfold check
  split <;> simp

end LogBarrier.Options

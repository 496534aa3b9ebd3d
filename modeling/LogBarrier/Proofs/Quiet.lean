import LogBarrier.Proofs.Stages

/-!
# Runs without a report

A run that writes nothing fails only where an evaluation or its solver does. If the objective is
finite wherever the run comes to and every subproblem is answered by a point of the right length,
the run succeeds.
-/

namespace LogBarrier

open LogBarrier.Action

variable {α σ τ : Type} {n : Nat}

/-- The action does not fail. -/
abbrev Action.Succeeds {β : Type} (act : Action α σ τ n β) (s : Session α σ τ n) : Prop :=
  act.Ends (fun _ _ => True) (fun _ _ => False) s

theorem Action.Succeeds.exists_ok {β : Type} {act : Action α σ τ n β} {s : Session α σ τ n}
    (h : act.Succeeds s) : ∃ b t, act s = .ok b t := by
  cases hact : act s with
  | ok b t => exact ⟨b, t, rfl⟩
  | error e t => exact (h.of_error hact).elim

variable [Scalar α]

/-- The solver answers at `s` with a point of the right length, and the objective is finite at its
projection. -/
def Session.Proceeds (s : Session α σ τ n) (x : Vector α n) : Prop :=
  ∃ (z g : Vector α n) (v : α) (report : SolveReport),
    (s.solution x).result.outcome = .ok report ∧ (s.solution x).result.x = z.toArray ∧
      s.augmented.objective.checkedGradient (s.augmented.box.project z) = .ok g ∧
      s.augmented.objective.checkedValue (s.augmented.box.project z).toArray = .ok v

namespace Action

variable {s : Session α σ τ n} {x y g : Vector α n} {v : α}

theorem solveNext_succeeds (hx : s.x = x.toArray) (h : s.Proceeds x) : solveNext.Succeeds s := by
  obtain ⟨z, -, -, report, hreport, hz, -, -⟩ := h
  change (s.method.solver.solve s.augmented.oracle _ _ _ _ _).result.outcome = _ at hreport
  change (s.method.solver.solve s.augmented.oracle _ _ _ _ _).result.x = _ at hz
  unfold solveNext
  simp only [ends_bind, ends_get, ends_modify, ends_note, ends_of, ends_ask, ends_forM_note,
    ends_faulting, hx, sized_toArray, Except.ok.injEq, forall_eq', reduceCtorEq, false_implies,
    implies_true, and_true]
  simp only [Session.log, Session.charge, hreport, hz, sized_toArray]
  refine ⟨fun _ _ => ⟨fun _ _ => ?_, fun _ he => ?_⟩, fun _ he => ?_⟩
  · exact (ends_ite ..).mpr ⟨fun _ => trivial, fun _ => trivial⟩
  · cases he
  · cases he

variable [Numeral α]

theorem openRun_succeeds (hquiet : s.method.options.verbosity = 0)
    (h : s.augmented.objective.Opens s.augmented.box s.x) : openRun.Succeeds s := by
  obtain ⟨x, g, v, hx, hg, hv⟩ := h
  have hreport : (faulting announce).Succeeds (s.openedAt x g v) := by
    unfold Succeeds announce
    rw [ends_faulting, ends_bind, ends_get, ends_ite]
    refine ⟨fun hverbose => ?_, fun _ => trivial⟩
    have hverbosity : 1 ≤ s.method.options.verbosity := hverbose
    omega
  unfold Succeeds Ends at hreport ⊢
  rw [openRun_apply, hx]
  dsimp only
  rw [hg]
  dsimp only
  rw [hv]
  exact hreport

theorem record_succeeds (hquiet : s.method.options.verbosity = 0)
    (hg : s.augmented.objective.checkedGradient y = .ok g)
    (hv : s.augmented.objective.checkedValue y.toArray = .ok v) :
    (record y.toArray).Succeeds s := by
  obtain ⟨y, rfl⟩ := y
  unfold record
  simp only [ends_faulting, ends_bind, ends_gradientAt, ends_of]
  refine ⟨fun g' _ => ?_, fun e he => ?_⟩
  · rw [dif_pos trivial]
    unfold recordAt
    simp only [ends_bind, ends_get, ends_modify, ends_of, ends_valueAt, ends_stationarity]
    refine ⟨fun v' _ => ?_, fun e he => ?_⟩
    · rw [ends_ite]
      refine ⟨fun hverbose => ?_, fun _ => trivial⟩
      have hverbosity : 1 ≤ s.method.options.verbosity := hverbose
      omega
    · cases he.symm.trans hv
  · cases he.symm.trans hg

theorem iterate_succeeds (hquiet : s.method.options.verbosity = 0) (hx : s.x = x.toArray)
    (h : s.Proceeds x) : iterate.Succeeds s := by
  unfold Succeeds iterate
  rw [ends_bind]
  refine ((solveNext_succeeds hx h).and (solveNext_ends hx)).mono ?_ fun _ _ h => h.1
  rintro - t ⟨-, y, report, ht⟩
  obtain ⟨z, g, v, -, -, hz, hg, hv⟩ := h
  -- The recorded point is the projection of where the solver was assumed to end.
  have hy : y = s.augmented.box.project z := by
    obtain ⟨z', hz', rfl⟩ := ht.ended
    rw [Vector.toArray_inj.mp (hz'.symm.trans hz)]
  subst hy
  rw [← ht.objective] at hg hv
  rw [ends_bind, ends_get, ends_bind, ht.point]
  refine (record_succeeds (ht.options ▸ hquiet) hg hv).mono ?_ fun _ _ h => h
  intro _ u _
  rw [ends_bind, ends_modify, ends_bind, ends_get]
  dsimp only
  split <;> trivial

omit [Scalar α] [Numeral α] in
theorem close_succeeds (hquiet : s.method.options.verbosity = 0) (status : Status) :
    (close status).Succeeds s := by
  unfold close
  simp only [ends_bind, ends_get, ends_modify, ends_note, ends_ite, ends_pure]
  refine ⟨fun hverbose => ?_, fun _ => trivial⟩
  have hverbosity : 1 ≤ s.method.options.verbosity := hverbose
  omega

/-- The run comes through all its stages. -/
theorem run_succeeds (hquiet : s.method.options.verbosity = 0)
    (hopens : s.augmented.objective.Opens s.augmented.box s.x)
    (hproceeds : ∀ (k : Nat) (t : Session α σ τ n) (x : Vector α n), s.GetsTo k t →
      t.x = x.toArray → t.Proceeds x) : run.Succeeds s := by
  refine ends_run s.GetsTo (fun v t => ∃ k, s.Stops k v t) ?_ ?_ ?_ ?_
  · refine ((ends_self openRun s).and (openRun_succeeds hquiet hopens)).mono ?_ fun _ _ h => h.2
    rintro ⟨⟩ t ⟨h, -⟩
    exact .opened h
  · intro k t _ ht
    obtain ⟨x, hx⟩ := ht.point
    have hsucceeds := iterate_succeeds (ht.alike.options ▸ hquiet) hx (hproceeds k t x ht hx)
    refine ((ends_self iterate t).and hsucceeds).mono ?_ fun _ _ h => h.2
    rintro (_ | v) u ⟨h, -⟩
    · exact ht.iterated h
    · exact ⟨k + 1, .judged ht h⟩
  · intro t ht
    exact ⟨_, .exhausted ht⟩
  · rintro v t ⟨k, ht⟩
    exact close_succeeds (ht.alike.options ▸ hquiet) v

end Action

end LogBarrier

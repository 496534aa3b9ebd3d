import LogBarrier.Double.Read
import LogBarrier.Proofs.Opening
import LogBarrier.Proofs.Standard
import Mathlib.Data.List.Basic
import Mathlib.Data.List.Induction

/-!
# The flag of convergence

Over any series of runs the flag of the state says whether its status is `converged`, except after
runs that could not be opened: these mark the status of the state at hand and leave the flag as an
earlier run has set it.
-/

namespace LogBarrier

open Scalar LogBarrier.Action

variable {α σ τ : Type} {n : Nat}

/-! ## One run -/

/-- The flag is set exactly if the status is `converged`. -/
def State.Mirrors (t : State α) : Prop := t.converged = true ↔ t.status = .converged

instance (t : State α) : Decidable t.Mirrors := inferInstanceAs (Decidable (_ ↔ _))

theorem State.mirrors_of_unset {t : State α} (hflag : t.converged = false)
    (hstatus : t.status ≠ .converged) : t.Mirrors := by
  refine iff_of_false ?_ hstatus
  rw [hflag]
  exact Bool.false_ne_true

variable [Scalar α] [Numeral α]

namespace Action

/-- A run that can be opened leaves a state whose flag mirrors the status, whichever way it ends. -/
theorem run_mirrors {s : Session α σ τ n}
    (hopens : s.augmented.objective.Opens s.augmented.box s.x) :
    run.Ends (fun _ t => t.method.state.Mirrors) (fun _ t => t.method.state.Mirrors) s := by
  -- As long as the run goes on the flag is not set, and only the end of a run may set it.
  refine ends_run
    (fun _ t => (t.method.state.converged = false ∧ t.method.state.status = .inProgress) ∧
      ∃ x : Vector α n, t.x = x.toArray)
    (fun _ _ => True) ?_ ?_ (fun _ _ => trivial) ?_
  · refine ((openRun_of_opens hopens).and (openRun_ends s)).mono ?_ ?_
    · rintro - t ⟨ht, x, g, v, h⟩
      exact ⟨ht, x, h.point⟩
    · rintro e t ⟨⟨hflag, hstatus⟩, -⟩
      exact State.mirrors_of_unset hflag (by simp [hstatus])
  · rintro k t - ⟨⟨hflag, hstatus⟩, x, hx⟩
    refine (iterate_ends hx).mono ?_ ?_
    · rintro v u ⟨-, y, g, w, report, hu⟩
      cases v with
      | some status => trivial
      | none =>
        refine ⟨?_, y, hu.point⟩
        rw [hu.state]
        exact ⟨hflag, hstatus⟩
    · -- A failure keeps the flag, whether it marks the status or not.
      rintro e u (hu | ⟨hw, hu⟩)
      · rcases hu.reached with ⟨-, hstate⟩ | ⟨-, hstate⟩
        · rw [hstate]
          exact State.mirrors_of_unset hflag (by simp)
        · rw [hstate]
          exact State.mirrors_of_unset hflag (by simp [hstatus])
      · refine State.mirrors_of_unset ?_ (by simp [hu.status])
        rcases hu.state with hstate | ⟨-, hstate⟩
        · rw [hstate, hw.state]
          exact hflag
        · rw [hstate, hw.state]
          exact hflag
  · intro status t _
    refine (close_ends t status).mono ?_ ?_
    · rintro v u ⟨-, hu⟩
      rw [hu.state]
      exact beq_iff_eq
    · rintro e u ⟨-, hu⟩
      rw [hu.state]
      exact beq_iff_eq

end Action

/-! ## A series of runs -/

/-- What a method is asked to run. -/
structure Task (α : Type) where
  dimension : Nat
  objective : Objective α
  box : Box α dimension
  x : Array α
  gradient : Array α
  sink : Sink

def Task.Opens (q : Task α) : Prop := q.objective.Opens q.box q.x

namespace Method

variable [Secant α τ]

/-- The method after one more run. -/
def after (M : Method α σ τ) (q : Task α) : Method α σ τ :=
  (Session.after (M.run q.objective q.box q.x q.gradient q.sink)).method

/-- The method after a series of runs. -/
def afterAll (M : Method α σ τ) (qs : List (Task α)) : Method α σ τ := qs.foldl after M

theorem afterAll_concat (M : Method α σ τ) (qs : List (Task α)) (q : Task α) :
    M.afterAll (qs ++ [q]) = (M.afterAll qs).after q := by
  unfold afterAll
  rw [List.foldl_append, List.foldl_cons, List.foldl_nil]

theorem mirrors_afterAll_concat (M : Method α σ τ) (qs : List (Task α)) {q : Task α}
    (hq : q.Opens) : (M.afterAll (qs ++ [q])).state.Mirrors := by
  have hrun := run_mirrors
    (s := (M.afterAll qs).session q.objective q.box q.x q.gradient q.sink) hq
  rw [afterAll_concat]
  exact hrun.after (P := fun t => t.method.state.Mirrors)

theorem state_afterAll_concat (M : Method α σ τ) (qs : List (Task α)) {q : Task α}
    (hq : ¬ q.Opens) :
    (M.afterAll (qs ++ [q])).state = { (M.afterAll qs).state with status := .faulted } := by
  obtain ⟨e, t, hopen, hstate⟩ := openRun_of_not_opens
    (s := (M.afterAll qs).session q.objective q.box q.x q.gradient q.sink) hq
  rw [afterAll_concat]
  unfold after run
  rw [run_of_openRun_error hopen]
  exact hstate

variable {M : Method α σ τ} {qs post : List (Task α)} {p q : Task α}

/-- The last runs of the series are those of `post`, none of which could be opened, and the run
before them converged. -/
def LastConverged (M : Method α σ τ) (qs post : List (Task α)) : Prop :=
  ∃ pre q, qs = pre ++ q :: post ∧ (M.afterAll (pre ++ [q])).state.status = .converged ∧
    ∀ p ∈ post, ¬ p.Opens

theorem not_lastConverged_nil : ¬ M.LastConverged [] post := by
  rintro ⟨pre, q, hqs, -⟩
  cases pre <;> cases hqs

theorem lastConverged_concat_nil :
    M.LastConverged (qs ++ [q]) [] ↔ (M.afterAll (qs ++ [q])).state.status = .converged := by
  constructor
  · rintro ⟨pre, q', hqs, hstatus, -⟩
    rwa [hqs]
  · intro hstatus
    exact ⟨qs, q, rfl, hstatus, by simp⟩

theorem lastConverged_concat_concat :
    M.LastConverged (qs ++ [q]) (post ++ [p]) ↔
      q = p ∧ ¬ q.Opens ∧ M.LastConverged qs post := by
  constructor
  · rintro ⟨pre, q', hqs, hstatus, hpost⟩
    rw [← List.cons_append, ← List.append_assoc] at hqs
    obtain ⟨rfl, hlast⟩ := List.append_inj' hqs rfl
    obtain rfl := List.singleton_inj.mp hlast
    refine ⟨rfl, hpost q (by simp), pre, q', rfl, hstatus, fun r hr => ?_⟩
    exact hpost r (List.mem_append_left _ hr)
  · rintro ⟨rfl, hq, pre, q', rfl, hstatus, hpost⟩
    refine ⟨pre, q', by simp, hstatus, fun r hr => ?_⟩
    rcases List.mem_append.mp hr with hr | hr
    · exact hpost r hr
    · obtain rfl := List.mem_singleton.mp hr
      exact hq

/-- The flag is set if some run has converged and none could be opened since. -/
theorem converged_iff (hM : M.state.converged = false) (qs : List (Task α)) :
    (M.afterAll qs).state.converged = true ↔ ∃ post, M.LastConverged qs post := by
  induction qs using List.reverseRecOn with
  | nil =>
    refine iff_of_false ?_ fun ⟨post, h⟩ => not_lastConverged_nil h
    show ¬ M.state.converged = true
    rw [hM]
    exact Bool.false_ne_true
  | append_singleton qs q ih =>
    by_cases hq : q.Opens
    · -- The run has written flag and status anew.
      refine (mirrors_afterAll_concat M qs hq).trans
        ⟨fun hstatus => ⟨[], lastConverged_concat_nil.mpr hstatus⟩, ?_⟩
      rintro ⟨post, h⟩
      rcases List.eq_nil_or_concat' post with rfl | ⟨post, p, rfl⟩
      · exact lastConverged_concat_nil.mp h
      · exact absurd hq (lastConverged_concat_concat.mp h).2.1
    · -- The run has left the flag as it was.
      have hstate := state_afterAll_concat M qs hq
      have hflag : (M.afterAll (qs ++ [q])).state.converged = (M.afterAll qs).state.converged := by
        rw [hstate]
      rw [hflag, ih]
      constructor
      · rintro ⟨post, h⟩
        exact ⟨post ++ [q], lastConverged_concat_concat.mpr ⟨rfl, hq, h⟩⟩
      · rintro ⟨post, h⟩
        rcases List.eq_nil_or_concat' post with rfl | ⟨post, p, rfl⟩
        · have hstatus := lastConverged_concat_nil.mp h
          rw [hstate] at hstatus
          cases hstatus
        · exact ⟨post, (lastConverged_concat_concat.mp h).2.2⟩

/-- After any series of runs of a new method the flag of the state mirrors its status, unless the
last run to be opened has converged and runs that could not be opened have followed it. -/
theorem flag_mirrors_status_iff (hM : M.state = .initial) (qs : List (Task α)) :
    (M.afterAll qs).state.Mirrors ↔ ¬ ∃ post, post ≠ [] ∧ M.LastConverged qs post := by
  have hinitial : M.state.converged = false := by rw [hM]; rfl
  rcases List.eq_nil_or_concat' qs with rfl | ⟨qs, q, rfl⟩
  · refine iff_of_true ?_ fun ⟨post, _, h⟩ => not_lastConverged_nil h
    refine State.mirrors_of_unset hinitial ?_
    show M.state.status ≠ _
    rw [hM]
    exact Status.noConfusion
  · by_cases hq : q.Opens
    · refine iff_of_true (mirrors_afterAll_concat M qs hq) ?_
      rintro ⟨post, hne, h⟩
      rcases List.eq_nil_or_concat' post with rfl | ⟨post, p, rfl⟩
      · exact hne rfl
      · exact (lastConverged_concat_concat.mp h).2.1 hq
    · have hstate := state_afterAll_concat M qs hq
      have hstatus : (M.afterAll (qs ++ [q])).state.status ≠ .converged := by
        rw [hstate]
        exact Status.noConfusion
      have hmirrors : (M.afterAll (qs ++ [q])).state.Mirrors ↔
          ¬ (M.afterAll (qs ++ [q])).state.converged = true := by
        unfold State.Mirrors
        rw [iff_false_right hstatus]
      rw [hmirrors, converged_iff hinitial]
      refine not_congr ⟨?_, fun ⟨post, _, h⟩ => ⟨post, h⟩⟩
      rintro ⟨post, h⟩
      refine ⟨post, ?_, h⟩
      rintro rfl
      exact hstatus (lastConverged_concat_nil.mp h)

theorem flag_mirrors_status_standard :
    letI := Exact.unwritten
    let qs : List (Task Exact) := [⟨1, .zero, .free 1, #[1], #[0], .unlimited⟩,
      ⟨1, .zero, .free 1, #[1, 0], #[0], .unlimited⟩]
    standard.state = .initial ∧ ((standard.afterAll qs).state.Mirrors ↔
      ¬ ∃ post, post ≠ [] ∧ standard.LastConverged qs post) :=
  letI := Exact.unwritten
  ⟨rfl, flag_mirrors_status_iff rfl _⟩

/-- After a run that converges, one from a start of the wrong length is faulted and keeps the
flag. -/
theorem exists_flag_not_mirrored :
    ∃ M, ofOptions (.standard : Options Float) = .ok M ∧
      ¬ (M.afterAll [⟨1, .zero, .free 1, #[1], #[0], .unlimited⟩,
        ⟨1, .zero, .free 1, #[1, 2], #[0], .unlimited⟩]).state.Mirrors := by
  have h : (ofOptions (.standard : Options Float)).toOption.any (fun M =>
      decide (¬ (M.afterAll [⟨1, .zero, .free 1, #[1], #[0], .unlimited⟩,
        ⟨1, .zero, .free 1, #[1, 2], #[0], .unlimited⟩]).state.Mirrors)) = true := by
    decide +kernel
  cases hM : ofOptions (.standard : Options Float) with
  | error e =>
    rw [hM] at h
    cases h
  | ok M =>
    rw [hM] at h
    exact ⟨M, rfl, of_decide_eq_true h⟩

end Method

end LogBarrier

import LogBarrier.Double.Read
import LogBarrier.Proofs.Order

/-!
# The verdict on a run

A run ends at the first iteration that is good enough or that stalls, and at the latest when the
iterations are used up. The state that opens it is never judged. A run that stalls does so with the
stall counter exactly at its limit and the barrier parameter on its floor.
-/

namespace LogBarrier

open Scalar LogBarrier.Action

variable {α σ τ : Type} [Scalar α] [OrderedScalar α] {n : Nat}

/-! ## One verdict -/

namespace Options

variable {o : Options α} {t : State α}

omit [OrderedScalar α] in
theorem verdict?_eq_converged_iff :
    o.verdict? t = some .converged ↔ t.gnorm ≤ o.gradientTolerance := by
  unfold verdict?
  split
  · simp [*]
  · split <;> simp [*]

theorem verdict?_eq_stalled_iff (htol : o.gradientTolerance ≤ o.gradientTolerance)
    (ht : t.gnorm ≤ t.gnorm) :
    o.verdict? t = some .stalled ↔ o.gradientTolerance < t.gnorm ∧ o.maxStall ≤ t.stall := by
  unfold verdict?
  split
  · rename_i hle
    refine iff_of_false (by simp) fun h => OrderedScalar.not_le_of_lt h.1 hle
  · rename_i hle
    have hlt := OrderedScalar.lt_of_not_le htol ht hle
    split <;> simp [*]

theorem verdict?_eq_none_iff (htol : o.gradientTolerance ≤ o.gradientTolerance)
    (ht : t.gnorm ≤ t.gnorm) :
    o.verdict? t = none ↔ o.gradientTolerance < t.gnorm ∧ t.stall < o.maxStall := by
  unfold verdict?
  split
  · rename_i hle
    refine iff_of_false (by simp) fun h => OrderedScalar.not_le_of_lt h.1 hle
  · rename_i hle
    have hlt := OrderedScalar.lt_of_not_le htol ht hle
    split
    · rename_i hstall
      exact iff_of_false (by simp) fun h => by omega
    · rename_i hstall
      exact iff_of_true rfl ⟨hlt, by omega⟩

omit [OrderedScalar α] in
theorem verdict?_ne_iterationLimit : o.verdict? t ≠ some .iterationLimit := by
  unfold verdict?
  split
  · simp
  · split <;> simp

end Options

/-! ## The last iteration -/

namespace Session.Ended

variable {o : Options α} {s t : Session α σ τ n} {k : Nat} {last : State α} {v : Status}

omit [OrderedScalar α] in
theorem eq_iff (h : s.Ended k last v t) {w : Status} (hw : w ≠ .iterationLimit) :
    v = w ↔ 1 ≤ k ∧ s.method.options.verdict? last = some w := by
  obtain ⟨hk, hv⟩ | ⟨rfl, -, hnone⟩ := h.verdict
  · rw [hv, Option.some.injEq, and_iff_right hk]
  · refine iff_of_false (Ne.symm hw) ?_
    rintro ⟨hk, hsome⟩
    rw [hnone hk] at hsome
    cases hsome

omit [OrderedScalar α] in
theorem eq_limit_iff (h : s.Ended k last v t) :
    v = .iterationLimit ↔ k = s.method.options.maxOuter ∧
      (1 ≤ k → s.method.options.verdict? last = none) := by
  obtain ⟨hk, hv⟩ | ⟨rfl, hlimit, hnone⟩ := h.verdict
  · refine iff_of_false ?_ ?_
    · rintro rfl
      exact Options.verdict?_ne_iterationLimit hv
    · rintro ⟨-, hnone⟩
      rw [hnone hk] at hv
      cases hv
  · exact iff_of_true rfl ⟨hlimit, hnone⟩

omit [OrderedScalar α] in
/-- The last state and the one before it. -/
theorem stepped_last (h : s.Ended (k + 1) last v t) :
    ∃ u, t.journal.snapshots[k]? = some u ∧
      last.stall = u.stallAfter (decide (s.method.schedules.after k).mu.AtFloor) last.gnorm := by
  have hk : k < t.journal.snapshots.length := by
    rw [h.snapshots_length]
    omega
  exact ⟨_, List.getElem?_eq_getElem hk,
    (h.stepped k _ _ (List.getElem?_eq_getElem hk) h.last_shown).1⟩

/-- The counter was below its limit before the last iteration. It starts from zero, and every
iteration that is not the last one leaves it below. -/
theorem stall_lt (h : s.Ended k last v t) (htol : s.method.options.gradientTolerance ≤
      s.method.options.gradientTolerance) (hmax : 1 ≤ s.method.options.maxStall)
    (hnan : ∀ u ∈ t.journal.snapshots, u.gnorm ≤ u.gnorm) {i : Nat} {u : State α} (hi : i < k)
    (hu : t.journal.snapshots[i]? = some u) : u.stall < s.method.options.maxStall := by
  cases i with
  | zero =>
    have := (h.opened u hu).1
    omega
  | succ i =>
    have hnone := h.going _ u (by omega) hi hu
    exact ((Options.verdict?_eq_none_iff htol (hnan u (List.mem_of_getElem? hu))).mp hnone).2

/-- A run that stalls was solved at the floor and counted one more. -/
theorem stalled_at (h : s.Ended k last v t) (hfalls : s.method.schedules.mu.Falls)
    (htol : s.method.options.gradientTolerance ≤ s.method.options.gradientTolerance)
    (hmax : 1 ≤ s.method.options.maxStall)
    (hnan : ∀ u ∈ t.journal.snapshots, u.gnorm ≤ u.gnorm) (hk : 1 ≤ k)
    (hstall : s.method.options.maxStall ≤ last.stall) :
    last.stall = s.method.options.maxStall ∧ last.mu = s.method.schedules.mu.floor := by
  obtain ⟨k, rfl⟩ : ∃ i, k = i + 1 := ⟨k - 1, by omega⟩
  obtain ⟨u, hu, hlast⟩ := h.stepped_last
  have hlt := h.stall_lt htol hmax hnan (Nat.lt_succ_self k) hu
  -- The counter was below its limit, and it only rises after a subproblem at the floor.
  unfold State.stallAfter at hlast
  split at hlast
  · rename_i hcount
    refine ⟨by omega, ?_⟩
    rw [(h.shown _ last h.last_shown).mu]
    exact hfalls.value_succ_of_atFloor (of_decide_eq_true hcount.1)
  · omega

end Session.Ended

/-! ## Whole runs -/

/-- How the session `t` of a run of `M` has ended with the answer `v`, where `last` is the state
shown last. -/
structure Verdict (o : Options α) (M : Method α σ τ) (v : Status) (last : State α)
    (t : Session α σ τ n) : Prop where
  shown : t.journal.snapshots[t.method.state.iteration]? = some last
  state : t.method.state = { last with status := v, converged := v == .converged }
  snapshots_length : t.journal.snapshots.length = t.method.state.iteration + 1
  le_limit : t.method.state.iteration ≤ o.maxOuter
  handed_length : t.journal.handed.length = t.method.state.iteration
  solves : M.solver.Reaches (fun _ (_ : Augmented α n) _ => True) M.memory t.method.state.iteration
    t.method.memory
  converged_iff : v = .converged ↔
    1 ≤ t.method.state.iteration ∧ last.gnorm ≤ o.gradientTolerance
  stalled_iff : v = .stalled ↔ 1 ≤ t.method.state.iteration ∧
    o.gradientTolerance < last.gnorm ∧ o.maxStall ≤ last.stall
  stalled_at : v = .stalled → last.stall = o.maxStall ∧ t.method.state.mu = o.muMin
  limit_iff : v = .iterationLimit ↔ t.method.state.iteration = o.maxOuter ∧
    (1 ≤ t.method.state.iteration →
      o.gradientTolerance < last.gnorm ∧ last.stall < o.maxStall)
  going (k : Nat) (u : State α) : 1 ≤ k → k < t.method.state.iteration →
    t.journal.snapshots[k]? = some u → o.gradientTolerance < u.gnorm ∧ u.stall < o.maxStall

/-- Whatever the objective, the box and the solver: a run that succeeds ends as it should. -/
theorem Method.run_verdict [Numeral α] [Secant α τ] {o : Options α} {M : Method α σ τ}
    (hM : M.From o) {f : Objective α} {B : Box α n} {x g : Array α} {k : Sink} {v : Status}
    {t : Session α σ τ n} (hrun : M.run f B x g k = .ok v t)
    (hnan : ∀ u ∈ t.journal.snapshots, u.gnorm ≤ u.gnorm) : ∃ last, Verdict o M v last t := by
  have hkeeps := hM.keeps
  obtain ⟨last, hended, hstate⟩ := run_ended hrun
  have hoptions : (M.session f B x g k).method.options = o := hkeeps.options
  have htol := OrderedScalar.refl_of_lt hkeeps.valid.gradientTolerance_pos
  have hlast := hnan last (List.mem_of_getElem? hended.last_shown)
  have hstalled := Options.verdict?_eq_stalled_iff (o := o) htol hlast
  have hnone := Options.verdict?_eq_none_iff (o := o) htol hlast
  have hstalled_iff : v = .stalled ↔ 1 ≤ t.method.state.iteration ∧
      o.gradientTolerance < last.gnorm ∧ o.maxStall ≤ last.stall := by
    rw [hended.eq_iff (by simp), hoptions, hstalled]
  refine ⟨last, {
    shown := hended.last_shown
    state := hstate
    snapshots_length := hended.snapshots_length
    le_limit := hoptions ▸ hended.le_limit
    handed_length := hended.handed_length
    solves := ?_
    converged_iff := ?_
    stalled_iff := hstalled_iff
    stalled_at := ?_
    limit_iff := ?_
    going := ?_ }⟩
  · rw [← hended.handed_length]
    exact hended.solves.mono fun _ _ _ _ => trivial
  · rw [hended.eq_iff (by simp), hoptions, Options.verdict?_eq_converged_iff]
  · intro hv
    obtain ⟨hk, -, hstall⟩ := hstalled_iff.mp hv
    have hat := hended.stalled_at hkeeps.mu_falls (hoptions ▸ htol)
      (hoptions ▸ hkeeps.valid.maxStall_pos) hnan hk (hoptions ▸ hstall)
    rw [hoptions] at hat
    refine ⟨hat.1, ?_⟩
    rw [hstate]
    exact hat.2.trans (congrArg (Schedule.floor ∘ Schedules.mu) hkeeps.plan)
  · rw [hended.eq_limit_iff, hoptions, hnone]
  · intro i u hi hlt hu
    have hgoing := hended.going i u hi hlt hu
    rw [hoptions] at hgoing
    exact (Options.verdict?_eq_none_iff htol (hnan u (List.mem_of_getElem? hu))).mp hgoing

/-- Descent along the first coordinate, without an end on the whole line. -/
def Objective.slope : Objective Float where
  value x := x[0]!
  gradient x := Array.replicate x.size 1
  product? := none

/-- The barrier parameter stays where it starts. -/
def Options.floored : Options Float :=
  { Options.standard with muMin := 1, maxInner := 1, maxStall := 2 }

/-- Down the slope no iteration makes progress at the floor, and the second one is too many. -/
theorem Method.exists_run_stalled :
    ∃ M t last, ofOptions .floored = .ok M ∧
      M.run .slope (.free 1) #[1] #[0] .unlimited = .ok .stalled t ∧
      (∀ u ∈ t.journal.snapshots, u.gnorm ≤ u.gnorm) ∧ Verdict .floored M .stalled last t := by
  -- The run is evaluated once, and its session is never written out.
  have h : (ofOptions .floored).toOption.any (fun M =>
      match M.run .slope (.free 1) #[1] #[0] .unlimited with
      | .ok v t => v = .stalled ∧ ∀ u ∈ t.journal.snapshots, u.gnorm ≤ u.gnorm
      | .error _ _ => false) = true := by
    decide +kernel
  cases hM : ofOptions .floored with
  | error e =>
    rw [hM] at h
    cases h
  | ok M =>
    rw [hM] at h
    dsimp only [Except.toOption, Option.any] at h
    cases hrun : M.run .slope (.free 1) #[1] #[0] .unlimited with
    | error e t =>
      rw [hrun] at h
      cases h
    | ok v t =>
      rw [hrun] at h
      obtain ⟨rfl, hnan⟩ := of_decide_eq_true h
      obtain ⟨last, hverdict⟩ := run_verdict (.new hM) hrun hnan
      exact ⟨M, t, last, rfl, hrun, hnan, hverdict⟩

end LogBarrier

import LogBarrier.Proofs.Reporting

/-!
# Reports that are cut

A run with room for a number of bytes next to the same run with a sink that never fails. As long as
the report fits nothing else differs, and where it does not the run fails for that reason, after
the bytes there was room for. Without a report the sink does not matter.
-/

namespace LogBarrier

open LogBarrier.Action

variable {α σ τ β : Type} {n : Nat}

/-- The session on another sink. -/
def Session.onto (k : Sink) (s : Session α σ τ n) : Session α σ τ n := { s with sink := k }

theorem Session.onto_sink (s : Session α σ τ n) : s.onto s.sink = s := rfl

theorem Session.within_of_output_nil {s : Session α σ τ n} (h : s.journal.output = []) (r : Nat) :
    s.within r = s.onto ⟨some r⟩ := by
  unfold within onto
  rw [h]
  rfl

@[simp] theorem Session.output_onEnd_onto (k : Sink)
    (r : EStateM.Result Failure (Session α σ τ n) β) :
    (after (onEnd (onto k) r)).journal.output = (after r).journal.output := by
  cases r <;> rfl

theorem Session.onEnd_congr {f f' : Session α σ τ n → Session α σ τ n}
    {r : EStateM.Result Failure (Session α σ τ n) β} (h : f (after r) = f' (after r)) :
    onEnd f r = onEnd f' r := by
  cases r with
  | ok b s => exact congrArg (EStateM.Result.ok b) h
  | error e s => exact congrArg (EStateM.Result.error e) h

variable [Scalar α] [Numeral α]

/-- A run that is not to report anything writes nothing, whichever way it ends. -/
theorem Action.output_run_of_quiet {s : Session α σ τ n} (htold : s.Told)
    (hnone : s.journal.snapshots = []) (hquiet : s.method.options.verbosity = 0) :
    (Session.after (run s)).journal.output = [] := by
  refine Ends.after (P := fun t => t.journal.output = [])
    ((run_tells htold hnone).mono (fun v t ht => ?_) fun _ t ht => ?_)
  · have hverbosity : ¬ 1 ≤ s.method.options.verbosity := by omega
    rw [ht, Options.reportBytes_quiet hquiet, closingBytes, if_neg hverbosity]
    rfl
  · rw [ht, Options.reportBytes_quiet hquiet]

namespace Method

variable [Secant α τ] (M : Method α σ τ) (f : Objective α) (B : Box α n) (x g : Array α)

/-- A run that writes nothing is the same on every sink. -/
theorem run_onto (h : (Session.after (M.run f B x g .unlimited)).journal.output = [])
    (k : Sink) :
    M.run f B x g k = Session.onEnd (Session.onto k) (M.run f B x g .unlimited) := by
  have hrun := fitsOrFails_run (α := α) (σ := σ) (τ := τ) (n := n)
  obtain ⟨_ | r⟩ := k
  · have hsink : (Session.after (M.run f B x g .unlimited)).sink = .unlimited :=
      (hrun.grows (M.session f B x g .unlimited) rfl).sink
    have honto := Session.onto_sink (Session.after (M.run f B x g .unlimited))
    rw [hsink] at honto
    refine Eq.trans ?_ (Session.onEnd_congr (f := id) honto.symm)
    show M.run f B x g .unlimited = _
    cases M.run f B x g .unlimited <;> rfl
  · have hroom : (Session.after (M.run f B x g .unlimited)).journal.output.length ≤ r := by
      rw [h]
      exact Nat.zero_le r
    calc M.run f B x g ⟨some r⟩
        = Session.onEnd (Session.within r) (M.run f B x g .unlimited) :=
          hrun.fits r (M.session f B x g .unlimited) rfl hroom
      _ = Session.onEnd (Session.onto ⟨some r⟩) (M.run f B x g .unlimited) :=
          Session.onEnd_congr (Session.within_of_output_nil h r)

/-- If the report fits, room for `r` bytes changes nothing but the room that is left. If it does
not, the run fails when it has written the first `r` bytes, and it has shown observers no more than
the other run. A run that is not to report anything does not depend on the sink. -/
theorem run_cut :
    (∀ r, (Session.after (M.run f B x g .unlimited)).journal.output.length ≤ r →
      M.run f B x g ⟨some r⟩ = Session.onEnd (Session.within r) (M.run f B x g .unlimited)) ∧
    (∀ r, r < (Session.after (M.run f B x g .unlimited)).journal.output.length →
      ∃ t, M.run f B x g ⟨some r⟩ = .error (.error .reportFailed) t ∧
        (Session.after (M.run f B x g .unlimited)).CutTo r t) ∧
    (M.options.verbosity = 0 → ∀ k, (Session.after (M.run f B x g k)).journal.output = [] ∧
      M.run f B x g k = Session.onEnd (Session.onto k) (M.run f B x g .unlimited)) := by
  have hrun := fitsOrFails_run (α := α) (σ := σ) (τ := τ) (n := n)
  refine ⟨fun r hr => hrun.fits r (M.session f B x g .unlimited) rfl hr,
    fun r hr => hrun.fails r (M.session f B x g .unlimited) rfl (Nat.zero_le r) hr, ?_⟩
  intro hquiet k
  have hnothing : (Session.after (M.run f B x g .unlimited)).journal.output = [] :=
    output_run_of_quiet ⟨rfl, rfl⟩ rfl hquiet
  rw [M.run_onto f B x g hnothing k, Session.output_onEnd_onto]
  exact ⟨hnothing, rfl⟩

/-- The report of a run without iterations takes 362 bytes, and there may be room for a hundred. -/
theorem exists_run_cut :
    ∃ M, Method.ofOptions (α := Float) { Options.standard with maxOuter := 0, verbosity := 1 } =
        .ok M ∧
      (Session.after (M.run .zero (.free 1) #[1] #[0] .unlimited)).journal.output.length = 362 ∧
      ∃ t, M.run .zero (.free 1) #[1] #[0] ⟨some 100⟩ = .error (.error .reportFailed) t ∧
        (Session.after (M.run .zero (.free 1) #[1] #[0] .unlimited)).CutTo 100 t := by
  have h : (Method.ofOptions (α := Float)
      { Options.standard with maxOuter := 0, verbosity := 1 }).toOption.any (fun M =>
        (Session.after (M.run .zero (.free 1) #[1] #[0] .unlimited)).journal.output.length =
          362) = true := by
    decide +kernel
  cases hM : Method.ofOptions (α := Float)
    { Options.standard with maxOuter := 0, verbosity := 1 } with
  | error e =>
    rw [hM] at h
    cases h
  | ok M =>
    rw [hM] at h
    have hlength := of_decide_eq_true h
    refine ⟨M, rfl, hlength, (M.run_cut .zero (.free 1) #[1] #[0]).2.1 100 ?_⟩
    rw [hlength]
    decide

end Method

end LogBarrier

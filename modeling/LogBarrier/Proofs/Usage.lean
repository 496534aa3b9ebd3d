import LogBarrier.Proofs.Steps
import LogBarrier.Proofs.Valid

/-!
# Methods in use

The methods that a user can have in hand: one that valid options describe, with any solver and
secant put into it, after any number of runs and of single steps of runs. None of this touches the
options or the plan of the schedules, and the options were checked.
-/

namespace LogBarrier

open Scalar LogBarrier.Action

variable {α : Type} [Scalar α] [Numeral α]

/-- `M` comes from the options `o`. -/
inductive Method.From (o : Options α) : {σ τ : Type} → Method α σ τ → Prop
  | new {M : Method α Unit (LimitedMemory α)} (h : ofOptions o = .ok M) : From o M
  | fitted {σ τ σ' τ' : Type} {M : Method α σ τ} (h : From o M) (solver : Solver α σ' τ')
      (memory : σ') (secant : Option τ') : From o { M with solver, memory, secant }
  | opened {σ τ : Type} {n : Nat} {s : Session α σ τ n} (h : From o s.method) :
      From o (Session.after (openRun s)).method
  | recorded {σ τ : Type} {n : Nat} {s : Session α σ τ n} (h : From o s.method) (x : Array α) :
      From o (Session.after (record x s)).method
  | ran {σ τ : Type} [Secant α τ] {n : Nat} {M : Method α σ τ} (h : From o M) (f : Objective α)
      (B : Box α n) (x g : Array α) (k : Sink) : From o (Session.after (M.run f B x g k)).method

namespace Method

variable {o : Options α} {σ τ : Type}

omit [Numeral α] in
/-- A new method holds the options as they are, with the solver and the secant that they name. -/
theorem ofOptions_eq_ok {M : Method α Unit (LimitedMemory α)} (h : ofOptions o = .ok M) :
    o.validate = .ok () ∧ ∃ c secant, o.choice = .ok c ∧ c.secant o.secantMemory = .ok secant ∧
      M = ⟨o, c.solver o, (), secant, .ofOptions o, .initial⟩ := by
  unfold ofOptions at h
  cases hv : o.validate with
  | error e =>
    rw [hv] at h
    cases h
  | ok _ =>
    cases hc : o.choice with
    | error e =>
      rw [hv, hc] at h
      cases h
    | ok c =>
      rw [hv, hc] at h
      change (c.secant o.secantMemory >>= fun secant => _) = _ at h
      cases hs : c.secant (α := α) o.secantMemory with
      | error e =>
        rw [hs] at h
        cases h
      | ok secant =>
        rw [hs] at h
        cases h
        exact ⟨rfl, c, secant, rfl, hs, rfl⟩

/-- What stays true of a method that comes from valid options. -/
structure Keeps (o : Options α) (M : Method α σ τ) : Prop where
  options : M.options = o
  plan : M.schedules.reset = .ofOptions o
  valid : o.Valid

omit [Numeral α] in
theorem Keeps.of_alike {n : Nat} {s t : Session α σ τ n} (h : Keeps o s.method)
    (ht : s.Alike t) : Keeps o t.method :=
  ⟨ht.options.trans h.options, ht.plan.trans h.plan, h.valid⟩

theorem From.keeps {M : Method α σ τ} (h : M.From o) : Keeps o M := by
  induction h with
  | new h =>
    obtain ⟨hvalid, c, secant, -, -, rfl⟩ := ofOptions_eq_ok h
    exact ⟨rfl, rfl, Options.validate_eq_ok_iff.mp hvalid⟩
  | fitted h solver memory secant ih => exact ⟨ih.options, ih.plan, ih.valid⟩
  | @opened σ τ n s h ih =>
    refine ih.of_alike (Ends.after (P := s.Alike) ?_)
    exact (openRun_ends s).mono (fun _ t ⟨_, _, _, ht⟩ => ht.toAlike) fun _ t ht => ht.toAlike
  | @recorded σ τ n s h x ih =>
    refine ih.of_alike (Ends.after (P := s.Alike) ?_)
    exact (record_ends s x).mono (fun _ t ⟨_, _, _, _, ht⟩ => ht.toAlike) fun _ t ht => ht.toAlike
  | @ran σ τ _ n M h f B x g k ih =>
    have hsession : Keeps o (M.session f B x g k).method := ⟨ih.options, ih.plan, ih.valid⟩
    exact hsession.of_alike (Ends.after (run_alike _))

end Method

end LogBarrier

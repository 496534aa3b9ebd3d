import LogBarrier.Double.Read
import LogBarrier.Proofs.Counters
import LogBarrier.Proofs.Course
import LogBarrier.Proofs.Stages

/-!
# Evaluations of a run

How often a solve and a run evaluate the objective. A solve evaluates the gradient at its start and
after every accepted step, and nowhere else. A search evaluates the value at most once for each
length that it tries. What the counters of a run show is what was evaluated.
-/

namespace LogBarrier

open Scalar LogBarrier.Action

variable {α τ : Type} [Scalar α] {n : Nat}

/-! ## One question -/

/-- A question for the gradient is one evaluation of it, a question for the value is at most one
evaluation of that. -/
structure Oracle.Frugal (F : Oracle α n) : Prop where
  gradient (x : Vector α n) : (F.gradient x).run.spent = ⟨0, 1⟩
  value (x : Vector α n) : (F.value x).spent.values ≤ 1
  value_gradients (x : Vector α n) : (F.value x).spent.gradients = 0

/-- All evaluations behind a value or a gradient are counted. -/
structure Oracle.Tallied (F : Oracle α n) : Prop where
  value (x : Vector α n) : (F.value x).Tallied
  gradient (x : Vector α n) : Trying.Tallied (F.gradient x)

theorem Objective.frugal_oracle (f : Objective α) : (f.oracle : Oracle α n).Frugal where
  gradient _ := rfl
  value _ := Nat.le_refl _
  value_gradients _ := rfl

namespace Augmented

variable (A : Augmented α n)

theorem frugal_oracle : A.oracle.Frugal where
  gradient x := by
    show (A.gradient x).run.spent = _
    unfold gradient
    rw [Trying.spent_bind_of_free]
    · rfl
    · exact fun g => Trying.spent_bind_of_free _ fun _ => rfl
  value x := by
    show (Tally.ofCalls (A.value x).calls).values ≤ 1
    by_cases h : Same (A.barrier x) inf
    · rw [calls_value_of_outside h]
      exact Nat.zero_le 1
    · rw [calls_value_of_inside h]
      exact Nat.le_refl _
  value_gradients x := by
    show (Tally.ofCalls (A.value x).calls).gradients = 0
    by_cases h : Same (A.barrier x) inf
    · rw [calls_value_of_outside h]
      rfl
    · rw [calls_value_of_inside h]
      rfl

theorem tallied_oracle : A.oracle.Tallied := ⟨A.tallied_value, A.tallied_gradient⟩

end Augmented

variable {F : Oracle α n} {B : Box α n} {x : Vector α n}

theorem spent_finiteValue : (finiteValue F x).run.spent = (F.value x).spent := by
  unfold finiteValue
  rw [Trying.spent_bind_of_free]
  · exact Metered.spent_map ..
  · intro v
    split <;> rfl

theorem spent_finiteGradient : (finiteGradient F x).run.spent = (F.gradient x).run.spent := by
  unfold finiteGradient
  refine Trying.spent_bind_of_free _ fun g => ?_
  split <;> rfl

theorem Oracle.Tallied.finiteValue (hF : F.Tallied) : Trying.Tallied (finiteValue F x) :=
  (Trying.Misses.ask (hF.value x)).bind_tallied fun _ =>
    (Trying.tallied_pure _).ite (Trying.tallied_throw _)

theorem Oracle.Tallied.finiteGradient (hF : F.Tallied) : Trying.Tallied (finiteGradient F x) :=
  (hF.gradient x).bind_tallied fun _ => (Trying.tallied_of _).ite (Trying.tallied_throw _)

/-! ## One search -/

namespace LineSearch

variable {P : LineSearch α} {fx alpha last : α} {g d : Vector α n} {left : Nat}

/-- A search evaluates no gradient, and a value at most for each length that it tries. -/
theorem go_spent (hF : F.Frugal) :
    (P.go F B x fx g d left alpha last).spent.values ≤ left ∧
      (P.go F B x fx g d left alpha last).spent.gradients = 0 := by
  induction left generalizing alpha last with
  | zero => exact ⟨Nat.le_refl _, rfl⟩
  | succ left ih =>
    unfold go
    dsimp only
    split
    · have hvalue := hF.value (arc B x d alpha)
      rw [Metered.spent_bind, Tally.values_add, Tally.gradients_add, hF.value_gradients]
      split
      · exact ⟨by simp; omega, rfl⟩
      · have hrest := @ih (alpha * P.rate) (F.value (arc B x d alpha)).result
        omega
    · have hrest := @ih (alpha * P.rate) last
      omega

theorem go_tallied (hF : F.Tallied) : (P.go F B x fx g d left alpha last).Tallied := by
  induction left generalizing alpha last with
  | zero => exact Metered.tallied_pure _
  | succ left ih =>
    unfold go
    dsimp only
    split
    · refine (hF.value _).bind_tallied fun v => ?_
      split
      · exact Metered.tallied_pure _
      · exact ih
    · exact ih

end LineSearch

/-! ## One solve -/

/-- An iterate is what is left of two evaluations. -/
theorem Iterate.start_spent (hF : F.Frugal) :
    (start F B x).run.spent.values ≤ 1 ∧
      ∀ it, (start F B x).run.result = .ok it →
        (start F B x).run.spent.gradients = 1 := by
  have hvalue := hF.value x
  unfold start
  cases hv : (finiteValue F x).run.result with
  | error e =>
    rw [Trying.spent_bind_of_error hv, spent_finiteValue]
    refine ⟨hvalue, fun it h => ?_⟩
    obtain ⟨v, hv', -⟩ := Trying.bind_eq_ok_iff.mp h
    cases hv.symm.trans hv'
  | ok v =>
    rw [Trying.spent_bind_of_ok hv, spent_finiteValue, Trying.spent_bind_of_free _ fun _ => rfl,
      spent_finiteGradient, hF.gradient, Tally.values_add, Tally.gradients_add,
      hF.value_gradients]
    exact ⟨hvalue, fun _ _ => rfl⟩

/-- Every step beyond the `done` ones was searched for, and a search that found none is noted. -/
def Exit.Searched (e : Exit α τ n) (done steps : Nat) : Prop :=
  ∀ report, e.outcome = .ok report → done + steps = report.iterations + e.notes.length

namespace Descent

variable {cost done steps : Nat} {D : Descent α τ n} {tol : Tolerances α}

/-- A search evaluates no gradient, and a value at most `cost` times. -/
def Costs (D : Descent α τ n) (cost : Nat) : Prop :=
  ∀ k it, (D.search k it).run.spent.values ≤ cost ∧ (D.search k it).run.spent.gradients = 0

/-- The iterates from which an iteration searches for a step, in order. -/
def searchesIn (D : Descent α τ n) (F : Oracle α n) (B : Box α n) (tol : Tolerances α) :
    (left : Nat) → Iterate α n → Option τ → List (Iterate α n)
  | 0, _, _ => []
  | left + 1, it, h =>
    if it.Stationary tol.gradient then []
    else it :: match (D.search h it).run.result with
      | .error _ => []
      | .ok t =>
        if ¬ t.accepted then []
        else match (finiteGradient F t.x).run.result with
          | .error _ => []
          | .ok g =>
            let s := t.x - it.x
            if norm s ≤ tol.step then []
            else D.searchesIn F B tol left (it.next B t g) (D.learn h s (g - it.gradient))

/-- The iterates from which a solve searches for a step. -/
def searches (D : Descent α τ n) (F : Oracle α n) (B : Box α n) (tol : Tolerances α)
    (x : Vector α n) (h : Option τ) : List (Iterate α n) :=
  match (Iterate.start F B (B.project x)).run.result with
  | .error _ => []
  | .ok it => D.searchesIn F B tol tol.maxIterations it h

/-- An iteration that searched `steps` times has spent at most `cost` on each search, and it has
evaluated the gradient once for each step that it added to the `done` ones. -/
structure Spends (cost done steps : Nat) (m : Metered α (Exit α τ n)) : Prop where
  values : m.spent.values ≤ cost * steps
  gradients {report : SolveReport} (h : m.result.outcome = .ok report) :
    done + m.spent.gradients = report.iterations

namespace Spends

omit [Scalar α]

theorem failed (x : Vector α n) (h : Option τ) (notes : List (Message α)) (e : Failure) :
    Spends cost done steps (pure ⟨x, h, notes, .error e⟩ : Metered α (Exit α τ n)) where
  values := Nat.zero_le _
  gradients h := nomatch h

theorem ended (x : Vector α n) (h : Option τ) (notes : List (Message α)) (converged : Bool) :
    Spends cost done steps
      (pure ⟨x, h, notes, .ok ⟨done, converged⟩⟩ : Metered α (Exit α τ n)) where
  values := Nat.zero_le _
  gradients h := congrArg SolveReport.iterations (Except.ok.inj h)

theorem bind_search {β : Type} {m : Metered α β} {f : β → Metered α (Exit α τ n)}
    (hm : m.spent.values ≤ cost ∧ m.spent.gradients = 0)
    (hf : Spends cost done steps (f m.result)) :
    Spends cost done (steps + 1) (m >>= f) where
  values := by
    have := hf.values
    rw [Metered.spent_bind, Tally.values_add, Nat.mul_succ]
    omega
  gradients h := by
    rw [Metered.spent_bind, Tally.gradients_add, hm.2, Nat.zero_add]
    exact hf.gradients h

theorem bind_gradient {β : Type} {m : Metered α β} {f : β → Metered α (Exit α τ n)}
    (hm : m.spent = ⟨0, 1⟩) (hf : Spends cost (done + 1) steps (f m.result)) :
    Spends cost done steps (m >>= f) where
  values := by
    rw [Metered.spent_bind, hm, Tally.values_add, Nat.zero_add]
    exact hf.values
  gradients h := by
    rw [Metered.spent_bind, hm, Tally.gradients_add, ← Nat.add_assoc]
    exact hf.gradients h

end Spends

theorem loop_spends (hF : F.Frugal) (hD : D.Costs cost) {left done : Nat} {it : Iterate α n}
    {h : Option τ} :
    Spends cost done (D.searchesIn F B tol left it h).length (D.loop F B tol left done it h) := by
  induction left generalizing done it h with
  | zero => exact .ended ..
  | succ left ih =>
    unfold loop searchesIn
    by_cases hstationary : it.Stationary tol.gradient
    · rw [if_pos hstationary, if_pos hstationary]
      exact .ended ..
    rw [if_neg hstationary, if_neg hstationary, List.length_cons]
    refine .bind_search (hD h it) ?_
    cases (D.search h it).run.result with
    | error e => exact .failed ..
    | ok t =>
      dsimp only
      by_cases hrejected : ¬ t.accepted
      · rw [if_pos hrejected, if_pos hrejected]
        exact .ended ..
      rw [if_neg hrejected, if_neg hrejected]
      refine .bind_gradient (spent_finiteGradient.trans (hF.gradient t.x)) ?_
      cases (finiteGradient F t.x).run.result with
      | error e => exact .failed ..
      | ok g =>
        dsimp only
        split
        · exact .ended ..
        · exact ih

theorem solve_spent (hF : F.Frugal) (hD : D.Costs cost) (tol : Tolerances α) (h : Option τ) :
    let m := D.solve F B tol x h
    m.spent.values ≤ 1 + cost * (D.searches F B tol x h).length ∧
      ∀ report, m.result.outcome = .ok report → m.spent.gradients = 1 + report.iterations := by
  obtain ⟨hvalues, hgradients⟩ := Iterate.start_spent (B := B) (x := B.project x) hF
  intro m
  have hm : m = D.solve F B tol x h := rfl
  unfold solve at hm
  unfold searches
  rw [hm, Metered.spent_bind, Metered.result_bind, Tally.values_add, Tally.gradients_add]
  cases hstart : (Iterate.start F B (B.project x)).run.result with
  | error e => exact ⟨Nat.add_le_add hvalues (Nat.zero_le _), nofun⟩
  | ok it =>
    have hloop : Spends cost 0 (D.searchesIn F B tol tol.maxIterations it h).length
        (D.loop F B tol tol.maxIterations 0 it h) := loop_spends hF hD
    refine ⟨Nat.add_le_add hvalues hloop.values, fun report hreport => ?_⟩
    rw [hgradients it hstart, ← hloop.gradients hreport, Nat.zero_add]

theorem loop_searched {left done : Nat} {it : Iterate α n} {h : Option τ} :
    (D.loop F B tol left done it h).result.Searched done
      (D.searchesIn F B tol left it h).length := by
  induction left generalizing done it h with
  | zero =>
    rintro _ ⟨⟩
    rfl
  | succ left ih =>
    unfold loop searchesIn
    by_cases hstationary : it.Stationary tol.gradient
    · rw [if_pos hstationary, if_pos hstationary]
      rintro _ ⟨⟩
      rfl
    rw [if_neg hstationary, if_neg hstationary, Metered.result_bind, List.length_cons]
    cases (D.search h it).run.result with
    | error e => rintro _ ⟨⟩
    | ok t =>
      dsimp only
      by_cases hrejected : ¬ t.accepted
      · rw [if_pos hrejected, if_pos hrejected]
        rintro _ ⟨⟩
        rfl
      rw [if_neg hrejected, if_neg hrejected, Metered.result_bind]
      cases (finiteGradient F t.x).run.result with
      | error e => rintro _ ⟨⟩
      | ok g =>
        dsimp only
        split
        · rintro _ ⟨⟩
          rfl
        · intro report hreport
          have hrest := ih report hreport
          omega

theorem solve_searched (h : Option τ) :
    (D.solve F B tol x h).result.Searched 0 (D.searches F B tol x h).length := by
  unfold solve searches
  rw [Metered.result_bind]
  cases (Iterate.start F B (B.project x)).run.result with
  | error e => nofun
  | ok it => exact loop_searched

/-! ### What is counted -/

theorem loop_tallied (hF : F.Tallied) (hD : ∀ k it, Trying.Tallied (D.search k it))
    {left done : Nat} {it : Iterate α n} {h : Option τ} :
    (D.loop F B tol left done it h).Tallied := by
  induction left generalizing done it h with
  | zero => exact Metered.tallied_pure _
  | succ left ih =>
    unfold loop
    split
    · exact Metered.tallied_pure _
    refine Metered.Misses.bind_tallied (hD h it) fun r => ?_
    cases r with
    | error e => exact Metered.tallied_pure _
    | ok t =>
      dsimp only
      split
      · exact Metered.tallied_pure _
      refine Metered.Misses.bind_tallied hF.finiteGradient fun r => ?_
      cases r with
      | error e => exact Metered.tallied_pure _
      | ok g =>
        dsimp only
        split
        · exact Metered.tallied_pure _
        · exact ih

theorem solve_tallied (hF : F.Tallied) (hD : ∀ k it, Trying.Tallied (D.search k it))
    (h : Option τ) : (D.solve F B tol x h).Tallied := by
  have hstart : Trying.Tallied (Iterate.start F B (B.project x)) :=
    hF.finiteValue.bind_tallied fun v => hF.finiteGradient.bind_tallied fun g =>
      Trying.tallied_pure _
  unfold solve
  refine Metered.Misses.bind_tallied hstart fun r => ?_
  cases r with
  | error e => exact Metered.tallied_pure _
  | ok it => exact loop_tallied hF hD

end Descent

/-! ## The two solvers -/

variable [Secant α τ] {o : Options α}

/-- How many line searches one search for a step makes at most. -/
def SolverChoice.attempts : SolverChoice → Nat
  | .spectral => 1
  | .quasiNewton => 2

theorem LineSearch.search_spent (P : LineSearch α) (hF : F.Frugal) (it : Iterate α n)
    (d : Vector α n) :
    (Trying.ask (P.search F B it.x it.value it.gradient d 1)).run.spent.values ≤
        P.maxBacktracks + 1 ∧
      (Trying.ask (P.search F B it.x it.value it.gradient d 1)).run.spent.gradients = 0 := by
  rw [Trying.run_ask, Metered.spent_map]
  exact go_spent hF

theorem quasiNewtonSearch_spent (P : LineSearch α) (hF : F.Frugal) (k : Option τ)
    (it : Iterate α n) :
    (quasiNewtonSearch P F B k it).run.spent.values ≤ 2 * (P.maxBacktracks + 1) ∧
      (quasiNewtonSearch P F B k it).run.spent.gradients = 0 := by
  unfold quasiNewtonSearch
  cases hsecant : secantDirection? B it k with
  | error e => exact ⟨Nat.zero_le _, rfl⟩
  | ok d =>
    have hfirst := P.search_spent (B := B) hF it (it.firstDirection B d)
    have hsecond := P.search_spent (B := B) hF it (-it.scale * it.gradient)
    rw [Trying.of_ok, pure_bind]
    dsimp only
    rw [Trying.spent_bind_of_ok (Trying.result_ask _), Tally.values_add, Tally.gradients_add]
    unfold Iterate.firstDirection at hfirst
    split
    · show _ + 0 ≤ 2 * (P.maxBacktracks + 1) ∧ _ + 0 = 0
      omega
    · omega

theorem quasiNewtonSearch_tallied (P : LineSearch α) (hF : F.Tallied) (k : Option τ)
    (it : Iterate α n) : Trying.Tallied (quasiNewtonSearch P F B k it) := by
  unfold quasiNewtonSearch
  refine (Trying.tallied_of _).bind_tallied fun d => ?_
  refine (Trying.Misses.ask (LineSearch.go_tallied hF)).bind_tallied fun t => ?_
  exact (Trying.tallied_pure _).ite (Trying.Misses.ask (LineSearch.go_tallied hF))

namespace SolverChoice

theorem costs_descent (c : SolverChoice) (hF : F.Frugal) :
    (c.descent o F B : Descent α τ n).Costs (c.attempts * (o.maxBacktracks + 1)) := by
  intro k it
  cases c with
  | spectral =>
    rw [attempts, Nat.one_mul]
    exact LineSearch.search_spent (.ofOptions o) hF it _
  | quasiNewton => exact quasiNewtonSearch_spent _ hF k it

theorem tallied_search (c : SolverChoice) (hF : F.Tallied) (k : Option τ) (it : Iterate α n) :
    Trying.Tallied ((c.descent o F B).search k it) := by
  cases c with
  | spectral => exact Trying.Misses.ask (LineSearch.go_tallied hF)
  | quasiNewton => exact quasiNewtonSearch_tallied _ hF k it

theorem spent_solve (c : SolverChoice) (tol : Tolerances α) (h : Option τ) :
    ((c.solver o).solve F B tol x () h).spent = ((c.descent o F B).solve F B tol x h).spent := by
  cases c <;> exact Metered.spent_bind ..

theorem tallied_solve (c : SolverChoice) (hF : F.Tallied) (tol : Tolerances α) (h : Option τ) :
    ((c.solver o).solve F B tol x () h).Tallied := by
  have hsolve : ((c.descent o F B).solve F B tol x h).Tallied :=
    Descent.solve_tallied hF (c.tallied_search hF) h
  cases c <;> exact hsolve.bind_tallied fun _ => Metered.tallied_pure _

/-- A solve evaluates the gradient once more than it makes steps. For each search it evaluates the
value at most once for each length that its line searches try. -/
theorem solve_evaluations (c : SolverChoice) (hF : F.Frugal) {tol : Tolerances α} {h : Option τ}
    {report : SolveReport}
    (hok : ((c.solver o).solve F B tol x () h).result.outcome = .ok report) :
    let m := (c.solver o).solve F B tol x () h
    let searches := ((c.descent o F B).searches F B tol x h).length
    m.spent.gradients = 1 + report.iterations ∧
      m.spent.values ≤ 1 + c.attempts * (o.maxBacktracks + 1) * searches ∧
      searches = report.iterations + m.result.notes.length := by
  intro m searches
  have hm : m.spent = _ := c.spent_solve tol h
  have hresult : m.result = _ := c.solve_result tol h
  rw [c.solve_result tol h] at hok
  obtain ⟨hvalues, hgradients⟩ :=
    Descent.solve_spent (B := B) (x := x) hF (c.costs_descent (o := o) hF) tol h
  rw [hm, hresult]
  refine ⟨hgradients report hok, hvalues, ?_⟩
  exact (Nat.zero_add _).symm.trans (Descent.solve_searched h report hok)

end SolverChoice

/-! ## A whole run -/

/-- The counters of a session show what was evaluated, and its iterations account for the
gradients: one at the opening, and for each iteration those of its solve and one at its end. -/
structure Session.Accounted {σ : Type} (t : Session α σ τ n) : Prop where
  tally : t.augmented.tally = .ofCalls t.journal.calls
  recorded : t.method.state.evaluations = t.augmented.tally
  shown : t.journal.snapshots.length = t.method.state.iteration + 1
  gradients : t.augmented.tally.gradients =
    1 + ((t.journal.snapshots.drop 1).map fun u => u.innerIterations + 2).sum

namespace Session

variable {c : SolverChoice} {v : α} {y g : Vector α n}

omit [Secant α τ] in
theorem Opened.accounted {σ : Type} {s t : Session α σ τ n} (h : s.Opened x g v t)
    (htally : s.augmented.tally = 0) (hcalls : s.journal.calls = [])
    (hsnapshots : s.journal.snapshots = []) : t.Accounted where
  tally := by
    rw [h.tally, h.calls, htally, hcalls]
    rfl
  recorded := congrArg State.evaluations h.state
  shown := by
    rw [h.snapshots, hsnapshots, h.state]
    rfl
  gradients := by
    rw [h.tally, h.snapshots, htally, hsnapshots]
    rfl

theorem Iterated.accounted {s t : Session α Unit τ n} {report : SolveReport}
    (h : s.Iterated x y g v report t) (hs : s.Accounted) (hsolver : s.method.solver = c.solver o) :
    t.Accounted := by
  have hsolution : s.solution x =
      (c.solver o).solve s.augmented.oracle s.augmented.box s.method.tolerances x ()
        s.method.secant := by
    unfold solution
    rw [hsolver]
  have hspent : (s.solution x).tally = (s.solution x).spent := by
    rw [hsolution]
    exact (c.tallied_solve s.augmented.tallied_oracle _ _).symm
  have hgradients : (s.solution x).spent.gradients = 1 + report.iterations := by
    have hok := h.outcome
    rw [hsolution] at hok ⊢
    exact (c.solve_evaluations s.augmented.frugal_oracle hok).1
  have hinner : t.method.state.innerIterations = report.iterations :=
    congrArg State.innerIterations h.state
  have hshown := hs.shown
  constructor
  · rw [h.tally, h.calls, hspent, hs.tally, Tally.ofCalls_append, Tally.ofCalls_append]
    rfl
  · exact congrArg State.evaluations h.state
  · rw [h.snapshots, h.state, List.length_append, hshown]
    rfl
  · rw [h.tally, h.snapshots, List.drop_append_of_le_length (by omega), List.map_append,
      List.sum_append, hspent, Tally.gradients_add, Tally.gradients_add, hs.gradients, hgradients]
    simp only [List.map_cons, List.map_nil, List.sum_cons, List.sum_nil, hinner]
    omega

variable [Numeral α] {k : Nat} {s t : Session α Unit τ n}

theorem GetsTo.accounted (h : s.GetsTo k t) (hsolver : s.method.solver = c.solver o)
    (htally : s.augmented.tally = 0) (hcalls : s.journal.calls = [])
    (hsnapshots : s.journal.snapshots = []) : t.Accounted := by
  induction h with
  | opened h =>
    obtain ⟨x, g, v, ht⟩ := (openRun_ends s).of_ok h
    exact ht.accounted htally hcalls hsnapshots
  | iterated ht h ih =>
    obtain ⟨-, x, y, g, v, report, -, hu⟩ := ht.exists_iterated h
    exact hu.accounted ih (ht.alike.solver.trans hsolver)

theorem Stops.accounted {status : Status} (h : s.Stops k status t)
    (hsolver : s.method.solver = c.solver o) (htally : s.augmented.tally = 0)
    (hcalls : s.journal.calls = []) (hsnapshots : s.journal.snapshots = []) : t.Accounted := by
  cases h with
  | exhausted ht => exact ht.accounted hsolver htally hcalls hsnapshots
  | judged ht h =>
    obtain ⟨-, x, y, g, v, report, -, hu⟩ := ht.exists_iterated h
    exact hu.accounted (ht.accounted hsolver htally hcalls hsnapshots)
      (ht.alike.solver.trans hsolver)

end Session

variable [Numeral α]

/-- What a solver of a kind evaluates in any solve, and what a run with it evaluates and shows. -/
theorem SolverChoice.run_evaluations (c : SolverChoice) (o : Options α) :
    (∀ {n : Nat} (F : Oracle α n) (B : Box α n) (tol : Tolerances α) (x : Vector α n)
      (h : Option τ) (report : SolveReport), F.Frugal →
      ((c.solver o).solve F B tol x () h).result.outcome = .ok report →
      let m := (c.solver o).solve F B tol x () h
      let searches := ((c.descent o F B).searches F B tol x h).length
      m.spent.gradients = 1 + report.iterations ∧
        m.spent.values ≤ 1 + c.attempts * (o.maxBacktracks + 1) * searches ∧
        searches = report.iterations + m.result.notes.length) ∧
    ∀ {n : Nat} (M : Method α Unit τ) (f : Objective α) (B : Box α n) (x g : Array α) (k : Sink)
      (status : Status) (t : Session α Unit τ n), M.solver = c.solver o →
      M.run f B x g k = .ok status t →
      let inner := (t.journal.snapshots.drop 1).map State.innerIterations
      t.method.state.iteration = inner.length ∧
        t.method.state.evaluations = .ofCalls t.journal.calls ∧
        t.method.state.evaluations.gradients = 1 + (inner.map (· + 2)).sum := by
  refine ⟨fun F B tol x h report hF hok => c.solve_evaluations hF hok, ?_⟩
  intro n M f B x g k status t hsolver hrun inner
  -- Closing a run asks nothing, so the account of its last stage is that of the run.
  obtain ⟨i, u, hu, ht⟩ := (run_stages _).of_ok hrun
  have haccounted := hu.accounted hsolver rfl rfl rfl
  have hstate : t.method.state.evaluations = t.augmented.tally := by
    rw [ht.state, ht.augmented]
    exact haccounted.recorded
  refine ⟨?_, ?_, ?_⟩
  · have hshown := haccounted.shown
    rw [List.length_map, List.length_drop, ht.snapshots, hshown, ht.state]
    rfl
  · rw [hstate, ht.augmented, ht.calls, haccounted.tally]
  · rw [hstate, ht.augmented, haccounted.gradients, List.map_map, ht.snapshots]
    rfl

theorem SolverChoice.run_evaluations_parabola :
    let o : Options Float := .standard
    let S : Solver Float Unit (LimitedMemory Float) := SolverChoice.spectral.solver o
    let M : Method Float Unit (LimitedMemory Float) :=
      ⟨o, S, (), none, .ofOptions o, .initial⟩
    let F : Oracle Float 1 := Objective.parabola.oracle
    let tol : Tolerances Float := ⟨1e-6, 1e-8, 10⟩
    let m := S.solve F (.free 1) tol #v[1] () none
    let searches := ((SolverChoice.spectral.descent o F (.free 1) :
      Descent Float (LimitedMemory Float) 1).searches F (.free 1) tol #v[1] none).length
    (m.result.outcome = .ok ⟨1, true⟩ ∧ m.spent.gradients = 1 + 1 ∧
      m.spent.values ≤ 1 + 1 * (60 + 1) * searches ∧ searches = 1 + m.result.notes.length) ∧
    ∃ status t, M.run .parabola (.free 1) #[1] #[0] .unlimited = .ok status t ∧
      let inner := (t.journal.snapshots.drop 1).map State.innerIterations
      t.method.state.iteration = inner.length ∧
        t.method.state.evaluations = .ofCalls t.journal.calls ∧
        t.method.state.evaluations.gradients = 1 + (inner.map (· + 2)).sum := by
  intro o S M F tol m searches
  have hreport : m.result.outcome = .ok ⟨1, true⟩ := by
    have h : m.result.outcome.toOption = some ⟨1, true⟩ := by decide +kernel
    cases houtcome : m.result.outcome with
    | error e =>
      rw [houtcome] at h
      cases h
    | ok report =>
      rw [houtcome] at h
      exact congrArg Except.ok (Option.some.inj h)
  have hended : (match M.run .parabola (.free 1) #[1] #[0] .unlimited with
      | .ok .. => true
      | .error .. => false) = true := by
    decide +kernel
  obtain ⟨hsolve, hrun⟩ :=
    @SolverChoice.run_evaluations Float (LimitedMemory Float) _ _ _ .spectral o
  refine ⟨⟨hreport, hsolve F _ tol _ none _ Objective.parabola.frugal_oracle hreport⟩, ?_⟩
  cases h : M.run .parabola (.free 1) #[1] #[0] .unlimited with
  | error e t =>
    rw [h] at hended
    cases hended
  | ok status t => exact ⟨status, t, rfl, hrun M _ _ _ _ _ status t rfl h⟩

end LogBarrier

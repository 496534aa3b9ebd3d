import LogBarrier.Proofs.Usage

/-!
# The trace of a run

What the observers of a run are shown and what its solver is handed, in terms of the schedules
alone: snapshot `k` has the values of the schedules after `k` steps, and so has the subproblem that
follows it. The solver's own state ties the journal to the calls that were made.
-/

namespace LogBarrier

open Scalar LogBarrier.Action

variable {α σ τ : Type} [Scalar α] {n : Nat}

/-! ## Schedules and subproblems -/

/-- A schedule after `k` steps from its start. -/
def Schedule.after (s : Schedule α) : Nat → Schedule α
  | 0 => s.reset
  | k + 1 => (s.after k).advance

def Schedules.after (P : Schedules α) (k : Nat) : Schedules α :=
  ⟨P.mu.after k, P.gtol.after k, P.stol.after k⟩

@[simp] theorem Schedule.after_reset (s : Schedule α) (k : Nat) : s.reset.after k = s.after k := by
  induction k with
  | zero => rfl
  | succ k ih => rw [after, after, ih]

@[simp] theorem Schedules.after_reset (P : Schedules α) (k : Nat) :
    P.reset.after k = P.after k := by
  unfold after reset
  simp only [Schedule.after_reset]

/-- The state shows the schedules after `k` steps. -/
structure State.Shows (P : Schedules α) (k : Nat) (t : State α) : Prop where
  iteration : t.iteration = k
  mu : t.mu = (P.after k).mu.value
  gtol : t.gtol = (P.after k).gtol.value
  stol : t.stol = (P.after k).stol.value

/-- The snapshots `l` show the values of a barrier schedule one after the other, and their best
stationarity and their counts of stalled iterations come from one to the next. -/
structure Schedule.Traced (s : Schedule α) (l : List (State α)) : Prop where
  opened : ∀ u : State α, l[0]? = some u → u.stall = 0 ∧ u.bestGnorm = u.gnorm
  mu : ∀ (k : Nat) (u : State α), l[k]? = some u → u.mu = (s.after k).value
  stepped : ∀ (k : Nat) (u u' : State α), l[k]? = some u → l[k + 1]? = some u' →
    u'.stall = u.stallAfter (decide (s.after k).AtFloor) u'.gnorm ∧
      u'.bestGnorm = Scalar.min u.bestGnorm u'.gnorm

/-- The stopping rules of subproblem `k`. -/
def Schedules.tolerances (P : Schedules α) (maxInner k : Nat) : Tolerances α :=
  ⟨(P.after k).gtol.value, (P.after k).stol.value, maxInner⟩

/-- What the states of a solver can be after a number of calls, the `k`-th of which was for a
function and with tolerances that `P k` admits. -/
inductive Solver.Reaches (S : Solver α σ τ) (P : Nat → Augmented α n → Tolerances α → Prop)
    (m : σ) : Nat → σ → Prop
  | start : S.Reaches P m 0 m
  | solve {k : Nat} {m' : σ} (h : S.Reaches P m k m') {A : Augmented α n} {tol : Tolerances α}
      (hP : P k A tol) (x : Vector α n) (h : Option τ) :
      S.Reaches P m (k + 1) (S.solve A.oracle A.box tol x m' h).result.memory

theorem Solver.Reaches.mono {S : Solver α σ τ} {P P' : Nat → Augmented α n → Tolerances α → Prop}
    (hP : ∀ k A tol, P k A tol → P' k A tol) {m m' : σ} {k : Nat} (h : S.Reaches P m k m') :
    S.Reaches P' m k m' := by
  induction h with
  | start => exact .start
  | solve _ hA x h ih => exact ih.solve (hP _ _ _ hA) x h

/-- `A` is the augmented objective of subproblem `k` of a run from `s`, and `tol` are its stopping
rules. -/
structure Session.Subproblem (s : Session α σ τ n) (k : Nat) (A : Augmented α n)
    (tol : Tolerances α) : Prop where
  objective : A.objective = s.augmented.objective
  box : A.box = s.augmented.box
  mu : A.mu = (s.method.schedules.after k).mu.value
  kappa : A.kappa = s.augmented.kappa
  damping : A.damping = s.augmented.damping
  tolerances : tol = s.method.schedules.tolerances s.method.options.maxInner k

/-! ## Traces -/

/-- `t` is the session that a run from `s` has come to, or where it ended. -/
structure Session.Follows (s t : Session α σ τ n) : Prop extends s.Alike t where
  opened : ∀ u : State α, t.journal.snapshots[0]? = some u → u.stall = 0 ∧ u.bestGnorm = u.gnorm
  shown : ∀ (k : Nat) (u : State α), t.journal.snapshots[k]? = some u → u.Shows s.method.schedules k
  stepped : ∀ (k : Nat) (u u' : State α), t.journal.snapshots[k]? = some u →
    t.journal.snapshots[k + 1]? = some u' →
    u'.stall = u.stallAfter (decide (s.method.schedules.after k).mu.AtFloor) u'.gnorm ∧
      u'.bestGnorm = Scalar.min u.bestGnorm u'.gnorm
  handed : ∀ (k : Nat) (p : Tolerances α × α × α), t.journal.handed[k]? = some p →
    p = (s.method.schedules.tolerances s.method.options.maxInner k,
      (s.method.schedules.after k).mu.value, s.augmented.kappa)
  solves : s.method.solver.Reaches s.Subproblem s.method.memory t.journal.handed.length
    t.method.memory

/-- `t` is the session that a run from `s` has come to after `k` iterations, none of which ended
it. -/
structure Session.Reached (s : Session α σ τ n) (k : Nat) (t : Session α σ τ n) : Prop
    extends s.Follows t where
  point : ∃ x : Vector α n, t.x = x.toArray
  snapshots_length : t.journal.snapshots.length = k + 1
  handed_length : t.journal.handed.length = k
  last : t.journal.snapshots[k]? = some t.method.state
  schedules : t.method.schedules = s.method.schedules.after k
  mu : t.augmented.mu = (s.method.schedules.after k).mu.value
  going : ∀ (i : Nat) (u : State α), 1 ≤ i → t.journal.snapshots[i]? = some u →
    s.method.options.verdict? u = none

/-! ## One step -/

theorem mem_of_getElem?_concat {β : Type} {l : List β} {a b : β} {k : Nat}
    (h : (l ++ [a])[k]? = some b) : l[k]? = some b ∨ k = l.length ∧ b = a := by
  rw [List.getElem?_append] at h
  split at h
  · exact .inl h
  · rename_i hk
    rw [List.getElem?_singleton] at h
    split at h
    · cases h
      exact .inr ⟨by omega, rfl⟩
    · cases h

theorem Schedule.traced_singleton {s : Schedule α} {u : State α} (hmu : u.mu = s.reset.value)
    (hstall : u.stall = 0) (hbest : u.bestGnorm = u.gnorm) : s.Traced [u] where
  opened v hv := by
    cases hv
    exact ⟨hstall, hbest⟩
  mu k v hv := by
    obtain hv | ⟨rfl, rfl⟩ := mem_of_getElem?_concat (l := []) hv
    · cases hv
    · exact hmu
  stepped k v v' _ hv' := by cases hv'

/-- One more snapshot, which follows the last one. -/
theorem Schedule.Traced.concat {s : Schedule α} {l : List (State α)} (h : s.Traced l) {k : Nat}
    {t u : State α} (hlength : l.length = k + 1) (hlast : l[k]? = some t)
    (hmu : u.mu = (s.after (k + 1)).value)
    (hstall : u.stall = t.stallAfter (decide (s.after k).AtFloor) u.gnorm)
    (hbest : u.bestGnorm = Scalar.min t.bestGnorm u.gnorm) : s.Traced (l ++ [u]) where
  opened v hv := by
    obtain hv | ⟨hzero, -⟩ := mem_of_getElem?_concat hv
    · exact h.opened v hv
    · omega
  mu i v hv := by
    obtain hv | ⟨rfl, rfl⟩ := mem_of_getElem?_concat hv
    · exact h.mu i v hv
    · rw [hlength]
      exact hmu
  stepped i v v' hv hv' := by
    obtain hv' | ⟨hi, rfl⟩ := mem_of_getElem?_concat hv'
    · obtain hv | ⟨rfl, -⟩ := mem_of_getElem?_concat hv
      · exact h.stepped i v v' hv hv'
      · rw [List.getElem?_eq_none (by omega)] at hv'
        cases hv'
    · -- The step to `u` starts at the last snapshot before.
      obtain rfl : i = k := by omega
      obtain hv | ⟨hi, -⟩ := mem_of_getElem?_concat hv
      · rw [hlast] at hv
        cases hv
        exact ⟨hstall, hbest⟩
      · omega

theorem Session.Follows.traced {s t : Session α σ τ n} (h : s.Follows t) :
    s.method.schedules.mu.Traced t.journal.snapshots where
  opened := h.opened
  mu k u hu := (h.shown k u hu).mu
  stepped := h.stepped

theorem Session.Follows.of_views {s t u : Session α σ τ n} (h : s.Follows t) (hu : t.Alike u)
    (hsnapshots : u.journal.snapshots = t.journal.snapshots)
    (hhanded : u.journal.handed = t.journal.handed)
    (hmemory : u.method.memory = t.method.memory) : s.Follows u where
  toAlike := h.toAlike.trans hu
  opened := by
    rw [hsnapshots]
    exact h.opened
  shown := by
    rw [hsnapshots]
    exact h.shown
  stepped := by
    rw [hsnapshots]
    exact h.stepped
  handed := by
    rw [hhanded]
    exact h.handed
  solves := by
    rw [hhanded, hmemory]
    exact h.solves

/-- A run that was not opened has shown and handed over nothing. -/
theorem Session.follows_of_nothing {s t : Session α σ τ n} (ht : s.Alike t)
    (hsnapshots : t.journal.snapshots = []) (hhanded : t.journal.handed = [])
    (hmemory : t.method.memory = s.method.memory) : s.Follows t where
  toAlike := ht
  opened u hu := by
    rw [hsnapshots] at hu
    cases hu
  shown k u hu := by
    rw [hsnapshots] at hu
    cases hu
  stepped k u u' hu := by
    rw [hsnapshots] at hu
    cases hu
  handed k p hp := by
    rw [hhanded] at hp
    cases hp
  solves := by
    rw [hhanded, hmemory]
    exact .start

theorem Session.Opened.reached {s t : Session α σ τ n} {x g : Vector α n} {v : α}
    (h : s.Opened x g v t) (hsnapshots : s.journal.snapshots = [])
    (hhanded : s.journal.handed = []) : s.Reached 0 t := by
  have hshown : t.journal.snapshots = [t.method.state] := by rw [h.snapshots, hsnapshots]; rfl
  have hnone : t.journal.handed = [] := h.handed.trans hhanded
  have hone {k : Nat} {u : State α} (hu : t.journal.snapshots[k]? = some u) :
      k = 0 ∧ u = t.method.state := by
    rw [hshown, List.getElem?_singleton] at hu
    split at hu
    · cases hu
      exact ⟨‹_›, rfl⟩
    · cases hu
  exact {
    toAlike := h.toAlike
    opened := fun u hu => by
      rw [(hone hu).2, h.state]
      exact ⟨rfl, rfl⟩
    shown := fun k u hu => by
      obtain ⟨rfl, rfl⟩ := hone hu
      rw [h.state]
      exact ⟨rfl, rfl, rfl, rfl⟩
    stepped := fun k u u' _ hu' => by
      cases (hone hu').1
    handed := fun k p hp => by
      rw [hnone] at hp
      cases hp
    solves := by
      rw [hnone, h.memory]
      exact .start
    point := ⟨x, h.point⟩
    snapshots_length := by rw [hshown]; rfl
    handed_length := by rw [hnone]; rfl
    last := by rw [hshown]; rfl
    schedules := h.schedules
    mu := h.mu
    going := fun i u hi hu => by
      have := (hone hu).1
      omega }

section

variable {s t u : Session α σ τ n} {k : Nat} {x : Vector α n}

theorem Session.Reached.tolerances (h : s.Reached k t) :
    t.method.tolerances = s.method.schedules.tolerances s.method.options.maxInner k := by
  have hlast := h.shown k _ h.last
  unfold Method.tolerances Schedules.tolerances
  rw [hlast.gtol, hlast.stol, h.options]

/-- The next subproblem is the one that the schedules say. -/
theorem Session.Reached.subproblem (h : s.Reached k t) :
    s.Subproblem k t.augmented t.method.tolerances :=
  ⟨h.objective, h.box, h.mu, h.kappa, h.damping, h.tolerances⟩

theorem Session.Reached.handed_next (h : s.Reached k t) (hhanded : u.journal.handed =
      t.journal.handed ++ [(t.method.tolerances, t.augmented.mu, t.augmented.kappa)])
    {i : Nat} {p : Tolerances α × α × α} (hp : u.journal.handed[i]? = some p) :
    p = (s.method.schedules.tolerances s.method.options.maxInner i,
      (s.method.schedules.after i).mu.value, s.augmented.kappa) := by
  rw [hhanded] at hp
  obtain hp | ⟨rfl, rfl⟩ := mem_of_getElem?_concat hp
  · exact h.handed i p hp
  · rw [h.handed_length, h.tolerances, h.mu, h.kappa]

theorem Session.Reached.solves_next (h : s.Reached k t)
    (hmemory : u.method.memory = (t.solution x).result.memory) (hhanded : u.journal.handed =
      t.journal.handed ++ [(t.method.tolerances, t.augmented.mu, t.augmented.kappa)]) :
    s.method.solver.Reaches s.Subproblem s.method.memory u.journal.handed.length
      u.method.memory := by
  have hsub : s.Subproblem t.journal.handed.length t.augmented t.method.tolerances := by
    rw [h.handed_length]
    exact h.subproblem
  rw [hhanded, List.length_append, hmemory, Session.solution, h.solver]
  exact h.solves.solve hsub x t.method.secant

/-- Another subproblem is solved, and nothing comes of it. -/
theorem Session.Reached.follows_unshown (h : s.Reached k t) (hu : t.Alike u)
    (hmemory : u.method.memory = (t.solution x).result.memory) (hhanded : u.journal.handed =
      t.journal.handed ++ [(t.method.tolerances, t.augmented.mu, t.augmented.kappa)])
    (hsnapshots : u.journal.snapshots = t.journal.snapshots) : s.Follows u where
  toAlike := h.toAlike.trans hu
  opened := by
    rw [hsnapshots]
    exact h.opened
  shown := by
    rw [hsnapshots]
    exact h.shown
  stepped := by
    rw [hsnapshots]
    exact h.stepped
  handed _ _ := h.handed_next hhanded
  solves := h.solves_next hmemory hhanded

/-- Another subproblem is solved, and `w` is shown. -/
theorem Session.Reached.follows_shown (h : s.Reached k t) (hu : t.Alike u)
    (hmemory : u.method.memory = (t.solution x).result.memory) (hhanded : u.journal.handed =
      t.journal.handed ++ [(t.method.tolerances, t.augmented.mu, t.augmented.kappa)])
    {w : State α} (hsnapshots : u.journal.snapshots = t.journal.snapshots ++ [w])
    (hshows : w.Shows s.method.schedules (k + 1))
    (hstall : w.stall = t.method.state.stallAfter
      (decide (s.method.schedules.after k).mu.AtFloor) w.gnorm)
    (hbest : w.bestGnorm = Scalar.min t.method.state.bestGnorm w.gnorm) : s.Follows u := by
  have htraced : s.method.schedules.mu.Traced u.journal.snapshots := by
    rw [hsnapshots]
    exact h.toFollows.traced.concat h.snapshots_length h.last hshows.mu hstall hbest
  exact {
    toAlike := h.toAlike.trans hu
    opened := htraced.opened
    shown := fun i y hy => by
      rw [hsnapshots] at hy
      obtain hy | ⟨rfl, rfl⟩ := mem_of_getElem?_concat hy
      · exact h.shown i y hy
      · rw [h.snapshots_length]
        exact hshows
    stepped := htraced.stepped
    handed := fun _ _ => h.handed_next hhanded
    solves := h.solves_next hmemory hhanded }

end

/-! ## Whole runs -/

/-- `t` is where a run from `s` has ended after `k` iterations, with `last` shown last. -/
structure Session.Ended (s : Session α σ τ n) (k : Nat) (last : State α) (v : Status)
    (t : Session α σ τ n) : Prop extends s.Follows t where
  snapshots_length : t.journal.snapshots.length = k + 1
  handed_length : t.journal.handed.length = k
  last_shown : t.journal.snapshots[k]? = some last
  le_limit : k ≤ s.method.options.maxOuter
  going : ∀ (i : Nat) (u : State α), 1 ≤ i → i < k → t.journal.snapshots[i]? = some u →
    s.method.options.verdict? u = none
  verdict : (1 ≤ k ∧ s.method.options.verdict? last = some v) ∨
    v = .iterationLimit ∧ k = s.method.options.maxOuter ∧
      (1 ≤ k → s.method.options.verdict? last = none)

theorem Session.Ended.closed {s t u : Session α σ τ n} {k : Nat} {last : State α} {v : Status}
    (h : s.Ended k last v t) (hu : t.Closed v u) : s.Ended k last v u where
  toFollows := h.toFollows.of_views hu.toAlike hu.snapshots hu.handed hu.memory
  snapshots_length := by
    rw [hu.snapshots]
    exact h.snapshots_length
  handed_length := by
    rw [hu.handed]
    exact h.handed_length
  last_shown := by
    rw [hu.snapshots]
    exact h.last_shown
  le_limit := h.le_limit
  going := by
    rw [hu.snapshots]
    exact h.going
  verdict := h.verdict

/-- The iteration limit. -/
theorem Session.Reached.ended {s t : Session α σ τ n}
    (h : s.Reached s.method.options.maxOuter t) :
    s.Ended s.method.options.maxOuter t.method.state .iterationLimit t where
  toFollows := h.toFollows
  snapshots_length := h.snapshots_length
  handed_length := h.handed_length
  last_shown := h.last
  le_limit := Nat.le_refl _
  going i u hi _ hu := h.going i u hi hu
  verdict := .inr ⟨rfl, rfl, fun hk => h.going _ _ hk h.last⟩

section

variable {s t u : Session α σ τ n} {k : Nat} {x y g : Vector α n} {v : α} {report : SolveReport}

theorem Session.Reached.follows_of_iterated (h : s.Reached k t)
    (hu : t.Iterated x y g v report u) : s.Follows u := by
  refine h.follows_shown hu.toAlike hu.memory hu.handed hu.snapshots ?_ ?_ ?_
  · have hlast := h.shown k _ h.last
    rw [hu.state, h.schedules]
    exact ⟨congrArg (· + 1) hlast.iteration, rfl, rfl, rfl⟩
  · rw [hu.state, h.schedules]
    rfl
  · rw [hu.state]
    rfl

theorem Session.Iterated.last_shown (h : s.Reached k t) (hu : t.Iterated x y g v report u) :
    u.journal.snapshots[k + 1]? = some u.method.state := by
  rw [hu.snapshots, ← h.snapshots_length, List.getElem?_concat_length]

/-- The iterations before the last one did not end the run. -/
theorem Session.Reached.going_of_iterated (h : s.Reached k t) (hu : t.Iterated x y g v report u)
    {i : Nat} {w : State α} (hi : 1 ≤ i) (hw : u.journal.snapshots[i]? = some w) :
    s.method.options.verdict? w = none ∨ i = k + 1 ∧ w = u.method.state := by
  rw [hu.snapshots] at hw
  obtain hw | ⟨rfl, rfl⟩ := mem_of_getElem?_concat hw
  · exact .inl (h.going i w hi hw)
  · exact .inr ⟨h.snapshots_length, rfl⟩

theorem Session.Reached.next (h : s.Reached k t) (hu : t.Iterated x y g v report u)
    (hgoing : u.verdict? = none) : s.Reached (k + 1) u where
  toFollows := h.follows_of_iterated hu
  point := ⟨y, hu.point⟩
  snapshots_length := by rw [hu.snapshots, List.length_append, h.snapshots_length]; rfl
  handed_length := by rw [hu.handed, List.length_append, h.handed_length]; rfl
  last := hu.last_shown h
  schedules := by rw [hu.schedules, h.schedules]; rfl
  mu := by rw [hu.mu, h.schedules]; rfl
  going i w hi hw := by
    obtain hw | ⟨-, rfl⟩ := h.going_of_iterated hu hi hw
    · exact hw
    · rwa [Session.verdict?, (h.toAlike.trans hu.toAlike).options] at hgoing

theorem Session.Reached.stop (h : s.Reached k t) (hu : t.Iterated x y g v report u)
    (hk : k < s.method.options.maxOuter) {status : Status} (hstop : u.verdict? = some status) :
    s.Ended (k + 1) u.method.state status u where
  toFollows := h.follows_of_iterated hu
  snapshots_length := by rw [hu.snapshots, List.length_append, h.snapshots_length]; rfl
  handed_length := by rw [hu.handed, List.length_append, h.handed_length]; rfl
  last_shown := hu.last_shown h
  le_limit := hk
  going i w hi hlt hw := by
    obtain hw | ⟨rfl, -⟩ := h.going_of_iterated hu hi hw
    · exact hw
    · omega
  verdict := by
    refine .inl ⟨by omega, ?_⟩
    rwa [Session.verdict?, (h.toAlike.trans hu.toAlike).options] at hstop

theorem Session.Reached.follows_of_notIterated {e : Failure} (h : s.Reached k t)
    (hu : t.NotIterated x e u) : s.Follows u := by
  cases hu with
  | notSolved hu => exact h.follows_unshown hu.toAlike hu.memory hu.handed hu.snapshots
  | notRecorded hw hu =>
    refine h.follows_unshown (hw.toAlike.trans hu.toAlike) (hu.memory.trans hw.memory) ?_ ?_
    · rw [hu.handed, hw.handed]
    · rw [hu.snapshots, hw.snapshots]

end

variable [Numeral α]

theorem Action.run_trace {s : Session α σ τ n} (hsnapshots : s.journal.snapshots = [])
    (hhanded : s.journal.handed = []) :
    run.Ends (fun v t => ∃ k last, s.Ended k last v t ∧
        t.method.state = { last with status := v, converged := v == .converged })
      (fun _ t => s.Follows t) s := by
  -- Between iterations the run has `Reached` a session; closing keeps what its end has shown.
  refine ends_run s.Reached (fun v t => ∃ k, s.Ended k t.method.state v t) ?_ ?_ ?_ ?_
  · refine (openRun_ends s).mono ?_ ?_
    · rintro - t ⟨x, g, v, ht⟩
      exact ht.reached hsnapshots hhanded
    · intro e t ht
      refine Session.follows_of_nothing ht.toAlike ?_ ?_ ht.memory
      · rw [ht.snapshots, hsnapshots]
      · rw [ht.handed, hhanded]
  · intro k t hk ht
    obtain ⟨x, hx⟩ := ht.point
    refine (iterate_ends hx).mono ?_ fun e u hu => ht.follows_of_notIterated hu
    rintro (_ | status) u ⟨hv, y, g, v, report, hu⟩
    · exact ht.next hu hv.symm
    · exact ⟨k + 1, ht.stop hu hk hv.symm⟩
  · exact fun t ht => ⟨_, ht.ended⟩
  · rintro v t ⟨k, ht⟩
    refine (close_ends t v).mono ?_ fun e u hu => (ht.closed hu.2).toFollows
    rintro w u ⟨rfl, hu⟩
    exact ⟨k, _, ht.closed hu, hu.state⟩

namespace Method

variable [Secant α τ] {M : Method α σ τ} {f : Objective α} {B : Box α n} {x g : Array α} {k : Sink}

theorem run_follows :
    (M.session f B x g k).Follows (Session.after (M.run f B x g k)) := by
  refine Ends.after ((run_trace rfl rfl).mono ?_ fun _ _ h => h)
  rintro v t ⟨i, last, h, -⟩
  exact h.toFollows

theorem run_ended {v : Status} {t : Session α σ τ n} (h : M.run f B x g k = .ok v t) :
    ∃ last, (M.session f B x g k).Ended t.method.state.iteration last v t ∧
      t.method.state = { last with status := v, converged := v == .converged } := by
  obtain ⟨i, last, hended, hstate⟩ := (run_trace rfl rfl).of_ok h
  have hi : t.method.state.iteration = i := by
    rw [hstate]
    exact (hended.shown i last hended.last_shown).iteration
  exact ⟨last, hi ▸ hended, hstate⟩

omit [Numeral α] [Secant α τ] in
theorem Keeps.after {o : Options α} (h : M.Keeps o) (i : Nat) :
    M.schedules.after i = (Schedules.ofOptions o).after i := by
  rw [← h.plan, Schedules.after_reset]

end Method

end LogBarrier

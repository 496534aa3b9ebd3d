import LogBarrier.Proofs.Opening
import LogBarrier.Proofs.Trace

/-!
# The stages of a run

A run opens, iterates until an iteration ends it or the iterations are used up, and closes.
`GetsTo` are the sessions between its iterations and `Stops` the one before it closes, so that what
holds at the end of a run can be proved from stage to stage.
-/

namespace LogBarrier

open LogBarrier.Action

variable {α σ τ : Type} [Scalar α] [Numeral α] {n : Nat}

/-- A run from `s` comes to `t` after `k` iterations, none of which ended it. -/
inductive Session.GetsTo (s : Session α σ τ n) : Nat → Session α σ τ n → Prop
  | opened {t : Session α σ τ n} (h : openRun s = .ok () t) : GetsTo s 0 t
  | iterated {k : Nat} {t u : Session α σ τ n} (ht : GetsTo s k t) (h : iterate t = .ok none u) :
      GetsTo s (k + 1) u

/-- A run from `s` ends with `v` after `k` iterations, and what is left is to close it at `t`. -/
inductive Session.Stops (s : Session α σ τ n) : Nat → Status → Session α σ τ n → Prop
  | exhausted {t : Session α σ τ n} (ht : s.GetsTo s.method.options.maxOuter t) :
      Stops s s.method.options.maxOuter .iterationLimit t
  | judged {k : Nat} {v : Status} {t u : Session α σ τ n} (ht : s.GetsTo k t)
      (h : iterate t = .ok (some v) u) : Stops s (k + 1) v u

/-- A run from `s` fails with `e` and leaves `t`. -/
inductive Session.Fails (s : Session α σ τ n) (e : Failure) : Session α σ τ n → Prop
  | opening {t : Session α σ τ n} (h : s.NotOpened t) : Fails s e t
  | iterating {k : Nat} {t u : Session α σ τ n} {x : Vector α n} (ht : s.GetsTo k t)
      (hx : t.x = x.toArray) (h : t.NotIterated x e u) : Fails s e u
  | closing {k : Nat} {v : Status} {t u : Session α σ τ n} (ht : s.Stops k v t)
      (h : t.Closed v u) : Fails s e u

namespace Session

variable {s t u : Session α σ τ n} {k : Nat} {v : Status}

theorem GetsTo.point (h : s.GetsTo k t) : ∃ x : Vector α n, t.x = x.toArray := by
  induction h with
  | opened h =>
    obtain ⟨x, g, w, ht⟩ := (openRun_ends s).of_ok h
    exact ⟨x, ht.point⟩
  | iterated _ h ih =>
    obtain ⟨x, hx⟩ := ih
    obtain ⟨-, y, g, w, report, hu⟩ := (iterate_ends hx).of_ok h
    exact ⟨y, hu.point⟩

/-- What an iteration does that is made between the opening and the end of a run. -/
theorem GetsTo.exists_iterated (ht : s.GetsTo k t) {a : Option Status}
    (h : iterate t = .ok a u) :
    a = u.verdict? ∧ ∃ (x y g : Vector α n) (w : α) (report : SolveReport),
      t.x = x.toArray ∧ t.Iterated x y g w report u := by
  obtain ⟨x, hx⟩ := ht.point
  obtain ⟨ha, y, g, w, report, hu⟩ := (iterate_ends hx).of_ok h
  exact ⟨ha, x, y, g, w, report, hx, hu⟩

theorem GetsTo.alike (h : s.GetsTo k t) : s.Alike t := by
  induction h with
  | opened h =>
    obtain ⟨x, g, w, ht⟩ := (openRun_ends s).of_ok h
    exact ht.toAlike
  | iterated ht h ih =>
    obtain ⟨-, x, y, g, w, report, -, hu⟩ := ht.exists_iterated h
    exact ih.trans hu.toAlike

theorem GetsTo.reached (hsnapshots : s.journal.snapshots = []) (hhanded : s.journal.handed = [])
    (h : s.GetsTo k t) : s.Reached k t := by
  induction h with
  | opened h =>
    obtain ⟨x, g, w, ht⟩ := (openRun_ends s).of_ok h
    exact ht.reached hsnapshots hhanded
  | iterated ht h ih =>
    obtain ⟨hgoing, x, y, g, w, report, -, hu⟩ := ht.exists_iterated h
    exact ih.next hu hgoing.symm

/-- The state after an iteration is shown, after all those that were shown before. -/
theorem GetsTo.shown_iterated (hsnapshots : s.journal.snapshots = [])
    (hhanded : s.journal.handed = []) (ht : s.GetsTo k t) {x y g : Vector α n} {w : α}
    {report : SolveReport} (hu : t.Iterated x y g w report u) :
    u.journal.snapshots[k]? = some t.method.state ∧
      u.journal.snapshots[k + 1]? = some u.method.state ∧
      u.journal.snapshots.length = k + 2 ∧ u.method.state.iteration = k + 1 := by
  have hreached := ht.reached hsnapshots hhanded
  refine ⟨?_, hu.last_shown hreached, ?_, ?_⟩
  · rw [hu.snapshots, List.getElem?_append_left (by rw [hreached.snapshots_length]; omega)]
    exact hreached.last
  · rw [hu.snapshots, List.length_append, hreached.snapshots_length]
    rfl
  · rw [hu.state]
    exact congrArg (· + 1) (hreached.shown k _ hreached.last).iteration

omit [Numeral α] in
theorem NotIterated.snapshots {x : Vector α n} {e : Failure} (h : t.NotIterated x e u) :
    u.journal.snapshots = t.journal.snapshots := by
  cases h with
  | notSolved h => exact h.snapshots
  | notRecorded hw h => rw [h.snapshots, hw.snapshots]

/-- Every iteration but the first follows another one. -/
theorem GetsTo.exists_last (h : s.GetsTo (k + 1) t) :
    ∃ u, s.GetsTo k u ∧ iterate u = .ok none t := by
  cases h with
  | iterated hu h => exact ⟨_, hu, h⟩

/-- A run that stops after some iterations stops after the last one. -/
theorem Stops.exists_last (h : s.Stops (k + 1) v t) :
    ∃ u a, s.GetsTo k u ∧ iterate u = .ok a t := by
  generalize hk : k + 1 = i at h
  cases h with
  | exhausted ht =>
    rw [← hk] at ht
    obtain ⟨u, hu, h⟩ := ht.exists_last
    exact ⟨u, none, hu, h⟩
  | judged hu h =>
    obtain rfl := Nat.succ.inj hk
    exact ⟨_, some v, hu, h⟩

theorem Stops.alike (h : s.Stops k v t) : s.Alike t := by
  cases h with
  | exhausted ht => exact ht.alike
  | judged ht h =>
    obtain ⟨-, x, y, g, w, report, -, hu⟩ := ht.exists_iterated h
    exact ht.alike.trans hu.toAlike

/-- A run that stops without an iteration has just been opened. -/
theorem Stops.of_zero (h : s.Stops 0 v t) : openRun s = .ok () t ∧ v = .iterationLimit := by
  generalize hk : 0 = i at h
  cases h with
  | exhausted ht =>
    rw [← hk] at ht
    cases ht with
    | opened h => exact ⟨h, rfl⟩
  | judged => cases hk

end Session

/-- A run comes by its stages to where it ends. -/
theorem Action.run_stages (s : Session α σ τ n) :
    run.Ends (fun v t => ∃ k u, s.Stops k v u ∧ u.Closed v t) (fun e t => s.Fails e t) s := by
  refine ends_run s.GetsTo (fun v u => ∃ k, s.Stops k v u) ?_ ?_ ?_ ?_
  · have hself := ends_self (openRun : Action α σ τ n Unit) s
    refine (hself.and (openRun_ends s)).mono ?_ ?_
    · rintro ⟨⟩ t ⟨h, -⟩
      exact .opened h
    · rintro e t ⟨-, h⟩
      exact .opening h
  · rintro k t - ht
    obtain ⟨x, hx⟩ := ht.point
    refine ((ends_self iterate t).and (iterate_ends hx)).mono ?_ ?_
    · rintro (_ | v) u ⟨h, -⟩
      · exact ht.iterated h
      · exact ⟨k + 1, .judged ht h⟩
    · rintro e u ⟨-, h⟩
      exact .iterating ht hx h
  · intro t ht
    exact ⟨_, .exhausted ht⟩
  · rintro v t ⟨k, ht⟩
    refine (close_ends t v).mono ?_ ?_
    · rintro w u ⟨rfl, hu⟩
      exact ⟨k, t, ht, hu⟩
    · rintro e u ⟨-, hu⟩
      exact .closing ht hu

end LogBarrier

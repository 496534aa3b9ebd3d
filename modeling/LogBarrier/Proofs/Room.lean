import LogBarrier.Proofs.Ends
import LogBarrier.Run

/-!
# Runs with little room for the report

A sink with room for `r` bytes next to an unlimited one. An action `FitsOrFails` if the two sinks
cannot be told apart as long as at most `r` bytes are written, and if with more than that it fails
on the limited sink, after exactly `r` bytes and without showing observers anything that it does
not show them on the unlimited one. Every action of a run is one of this kind.
-/

namespace LogBarrier

open Scalar

variable {α σ τ β γ : Type} {m n : Nat}

/-! ## Limited sessions -/

/-- The session when there was room for `r` bytes before anything was written. -/
def Session.within (r : Nat) (s : Session α σ τ n) : Session α σ τ n :=
  { s with sink := ⟨some (r - s.journal.output.length)⟩ }

/-- Changes the session that an action leaves. -/
def Session.onEnd (f : Session α σ τ n → Session α σ τ n) :
    EStateM.Result Failure (Session α σ τ n) β → EStateM.Result Failure (Session α σ τ n) β
  | .ok b s => .ok b (f s)
  | .error e s => .error e (f s)

/-- `t` has the sink of `s` and shows all that `s` shows. -/
structure Session.Extends (s t : Session α σ τ n) : Prop where
  sink : t.sink = s.sink
  output : s.journal.output <+: t.journal.output
  snapshots : s.journal.snapshots <+: t.journal.snapshots

theorem Session.Extends.trans {s t u : Session α σ τ n} (h : s.Extends t) (h' : t.Extends u) :
    s.Extends u :=
  ⟨h'.sink.trans h.sink, h.output.trans h'.output, h.snapshots.trans h'.snapshots⟩

/-- `t` is what is left of `s` if all room is used up before `s` is reached. -/
structure Session.CutTo (s : Session α σ τ n) (r : Nat) (t : Session α σ τ n) : Prop where
  output : t.journal.output = s.journal.output.take r
  snapshots : t.journal.snapshots <+: s.journal.snapshots

theorem Session.CutTo.extend {s t u : Session α σ τ n} {r : Nat} (h : s.CutTo r t)
    (hr : r ≤ s.journal.output.length) (hext : s.Extends u) : u.CutTo r t := by
  refine ⟨?_, h.snapshots.trans hext.snapshots⟩
  obtain ⟨rest, hrest⟩ := hext.output
  rw [h.output, ← hrest, List.take_append_of_le_length hr]

@[simp] theorem Session.output_fault (s : Session α σ τ n) :
    s.fault.journal.output = s.journal.output := by
  simp [Session.fault, Event.bytes]

@[simp] theorem Session.snapshots_fault (s : Session α σ τ n) :
    s.fault.journal.snapshots = s.journal.snapshots := by
  simp [Session.fault, Event.snapshot?]

theorem Session.extends_fault (s : Session α σ τ n) : s.Extends s.fault := by
  refine ⟨rfl, ?_, ?_⟩
  · simp
  · simp

theorem Session.CutTo.fault {s t : Session α σ τ n} {r : Nat} (h : s.CutTo r t) :
    s.CutTo r t.fault := by
  refine ⟨?_, ?_⟩
  · simpa using h.output
  · simpa using h.snapshots

namespace Action

structure FitsOrFails (act : Action α σ τ n β) : Prop where
  grows (s : Session α σ τ n) : s.sink = .unlimited → s.Extends (Session.after (act s))
  fits (r : Nat) (s : Session α σ τ n) : s.sink = .unlimited →
    (Session.after (act s)).journal.output.length ≤ r →
    act (s.within r) = Session.onEnd (Session.within r) (act s)
  fails (r : Nat) (s : Session α σ τ n) : s.sink = .unlimited → s.journal.output.length ≤ r →
    r < (Session.after (act s)).journal.output.length →
    ∃ t, act (s.within r) = .error (.error .reportFailed) t ∧ (Session.after (act s)).CutTo r t

/-! ## Rules -/

/-- An action that does not look at the sink and writes nothing. -/
theorem fitsOrFails_of_silent {act : Action α σ τ n β}
    (hsink : ∀ s k, act { s with sink := k } =
      Session.onEnd (fun t => { t with sink := k }) (act s))
    (houtput : ∀ s, (Session.after (act s)).journal.output = s.journal.output)
    (hsnapshots : ∀ s, s.journal.snapshots <+: (Session.after (act s)).journal.snapshots) :
    FitsOrFails act where
  grows s _ := by
    refine ⟨?_, ?_, hsnapshots s⟩
    · rw [show act s = _ from hsink s s.sink]
      cases act s <;> rfl
    · exact ⟨[], (List.append_nil _).trans (houtput s).symm⟩
  fits r s _ _ := by
    have hlength := congrArg List.length (houtput s)
    rw [Session.within, hsink]
    cases hact : act s with
    | ok b t =>
      rw [hact] at hlength
      simp only [Session.onEnd, Session.within]
      rw [← hlength]
      rfl
    | error e t =>
      rw [hact] at hlength
      simp only [Session.onEnd, Session.within]
      rw [← hlength]
      rfl
  fails r s _ hr hlt := by
    rw [houtput] at hlt
    exact absurd hlt (Nat.not_lt.mpr hr)

theorem FitsOrFails.bind {act : Action α σ τ n β} {f : β → Action α σ τ n γ}
    (h : FitsOrFails act) (hf : ∀ b, FitsOrFails (f b)) : FitsOrFails (act >>= f) where
  grows s hs := by
    have hext := h.grows s hs
    show s.Extends (Session.after (EStateM.bind act f s))
    unfold EStateM.bind
    cases hact : act s with
    | error e t =>
      rw [hact] at hext
      exact hext
    | ok b t =>
      rw [hact] at hext
      exact hext.trans ((hf b).grows t (hext.sink.trans hs))
  fits r s hs hr := by
    have hext := h.grows s hs
    have hfits := h.fits r s hs
    change (Session.after (EStateM.bind act f s)).journal.output.length ≤ r at hr
    show EStateM.bind act f (s.within r) = Session.onEnd _ (EStateM.bind act f s)
    unfold EStateM.bind at hr ⊢
    cases hact : act s with
    | error e t =>
      rw [hact] at hr hfits
      rw [hfits hr]
      rfl
    | ok b t =>
      rw [hact] at hr hfits hext
      have ht := hext.sink.trans hs
      have hmore := ((hf b).grows t ht).output.length_le
      rw [hfits (Nat.le_trans hmore hr)]
      exact (hf b).fits r t ht hr
  fails r s hs hr hlt := by
    have hext := h.grows s hs
    have hfits := h.fits r s hs
    have hfails := h.fails r s hs hr
    change r < (Session.after (EStateM.bind act f s)).journal.output.length at hlt
    show ∃ t, EStateM.bind act f (s.within r) = _ ∧
      (Session.after (EStateM.bind act f s)).CutTo r t
    unfold EStateM.bind at hlt ⊢
    cases hact : act s with
    | error e t =>
      rw [hact] at hlt hfails
      obtain ⟨u, hu, hcut⟩ := hfails hlt
      rw [hu]
      exact ⟨u, rfl, hcut⟩
    | ok b t =>
      rw [hact] at hlt hfits hfails hext
      have ht := hext.sink.trans hs
      -- The room is used up either by `act`, and the unlimited run only adds to what it shows, or
      -- by what comes after it.
      by_cases hroom : t.journal.output.length ≤ r
      · rw [hfits hroom]
        exact (hf b).fails r t ht hroom hlt
      · obtain ⟨u, hu, hcut⟩ := hfails (Nat.not_le.mp hroom)
        rw [hu]
        exact ⟨u, rfl, hcut.extend (Nat.le_of_not_le hroom) ((hf b).grows t ht)⟩

theorem fitsOrFails_get_bind {f : Session α σ τ n → Action α σ τ n β}
    (hsink : ∀ s k, f { s with sink := k } = f s) (hf : ∀ s, FitsOrFails (f s)) :
    FitsOrFails (get >>= f) where
  grows s := (hf s).grows s
  fits r s hs hr := by
    show f (s.within r) (s.within r) = Session.onEnd _ (f s s)
    rw [Session.within, hsink]
    exact (hf s).fits r s hs hr
  fails r s hs hr hlt := by
    show ∃ t, f (s.within r) (s.within r) = _ ∧ (Session.after (f s s)).CutTo r t
    rw [Session.within, hsink]
    exact (hf s).fails r s hs hr hlt

theorem fitsOrFails_modify {f : Session α σ τ n → Session α σ τ n}
    (hsink : ∀ s k, f { s with sink := k } = { f s with sink := k })
    (hjournal : ∀ s, (f s).journal = s.journal) :
    FitsOrFails (modify f : Action α σ τ n Unit) := by
  refine fitsOrFails_of_silent (fun s k => ?_) (fun s => ?_) fun s => ?_
  · show EStateM.Result.ok () (f { s with sink := k }) = _
    rw [hsink]
    rfl
  · show (f s).journal.output = _
    rw [hjournal]
  · exact ⟨[], (List.append_nil _).trans (congrArg Journal.snapshots (hjournal s).symm)⟩

theorem fitsOrFails_pure (b : β) : FitsOrFails (pure b : Action α σ τ n β) :=
  fitsOrFails_of_silent (fun _ _ => rfl) (fun _ => rfl) fun _ => List.prefix_rfl

theorem fitsOrFails_throw (e : Failure) : FitsOrFails (throw e : Action α σ τ n β) :=
  fitsOrFails_of_silent (fun _ _ => rfl) (fun _ => rfl) fun _ => List.prefix_rfl

theorem fitsOrFails_of (r : Except Failure β) : FitsOrFails (of r : Action α σ τ n β) := by
  cases r with
  | ok b => exact fitsOrFails_pure b
  | error e => exact fitsOrFails_throw e

theorem fitsOrFails_note {e : Event α} (he : e.bytes = []) :
    FitsOrFails (note e : Action α σ τ n Unit) := by
  refine fitsOrFails_of_silent (fun _ _ => rfl) (fun s => ?_) fun s => ?_
  · show Journal.output (s.journal.push e) = _
    simp [he]
  · show _ <+: Journal.snapshots (s.journal.push e)
    rw [Journal.snapshots_push]
    exact List.prefix_append ..

theorem fitsOrFails_ask (question : Augmented α n → Metered α β) :
    FitsOrFails (ask question : Action α σ τ n β) := by
  refine fitsOrFails_of_silent (fun _ _ => rfl) (fun s => ?_) fun s => ?_
  · exact (Journal.views_called s.journal (question s.augmented).calls).2.2.2
  · have hviews := Journal.views_called s.journal (question s.augmented).calls
    exact ⟨[], (List.append_nil _).trans hviews.2.1.symm⟩

theorem FitsOrFails.ite {p : Prop} [Decidable p] {act act' : Action α σ τ n β}
    (h : FitsOrFails act) (h' : FitsOrFails act') : FitsOrFails (if p then act else act') := by
  split
  · exact h
  · exact h'

theorem FitsOrFails.faulting {act : Action α σ τ n β} (h : FitsOrFails act) :
    FitsOrFails (faulting act) where
  grows s hs := by
    have hext := h.grows s hs
    unfold Action.faulting
    cases hact : act s with
    | ok b t => rwa [hact] at hext
    | error e t =>
      rw [hact] at hext
      exact hext.trans t.extends_fault
  fits r s hs hr := by
    have hfits := h.fits r s hs
    unfold Action.faulting at hr ⊢
    cases hact : act s with
    | ok b t =>
      rw [hact] at hr hfits
      rw [hfits hr]
      rfl
    | error e t =>
      rw [hact] at hr hfits
      dsimp only [Session.after] at hr hfits
      rw [Session.output_fault] at hr
      rw [hfits hr]
      simp only [Session.onEnd, Session.within, Session.output_fault]
      rfl
  fails r s hs hr hlt := by
    have hfails := h.fails r s hs hr
    unfold Action.faulting at hlt ⊢
    cases hact : act s with
    | ok b t =>
      rw [hact] at hlt hfails
      obtain ⟨u, hu, hcut⟩ := hfails hlt
      rw [hu]
      exact ⟨u.fault, rfl, hcut.fault⟩
    | error e t =>
      rw [hact] at hlt hfails
      dsimp only [Session.after] at hlt hfails
      rw [Session.output_fault] at hlt
      obtain ⟨u, hu, hcut⟩ := hfails hlt
      rw [hu]
      exact ⟨u.fault, rfl, (hcut.extend (Nat.le_of_lt hlt) t.extends_fault).fault⟩

theorem fitsOrFails_write (text : String) :
    FitsOrFails (write text : Action α σ τ n Unit) := by
  refine ⟨fun s hs => ?_, fun r s hs hr => ?_, fun r s hs hr hlt => ?_⟩
  · rw [write_of_unlimited hs]
    refine ⟨rfl, ?_, ?_⟩
    · simp [Event.bytes]
    · simp [Event.snapshot?]
  · rw [write_of_unlimited hs] at hr ⊢
    simp only [Session.after_ok, Session.journal_log, Journal.output_push, Event.bytes,
      List.length_append] at hr
    have hroom : text.toUTF8.data.toList.length ≤ r - s.journal.output.length := by omega
    unfold write Session.within
    simp only [Sink.write_room, hroom, decide_true, if_true, List.take_of_length_le hroom,
      Session.onEnd, Session.journal_log, Journal.output_push, Event.bytes, List.length_append,
      Nat.sub_sub]
    rfl
  · rw [write_of_unlimited hs] at hlt ⊢
    simp only [Session.after_ok, Session.journal_log, Journal.output_push, Event.bytes,
      List.length_append] at hlt
    have hroom : ¬ text.toUTF8.data.toList.length ≤ r - s.journal.output.length := by omega
    unfold write Session.within
    simp only [Sink.write_room, hroom, decide_false, Bool.false_eq_true, if_false]
    refine ⟨_, rfl, ?_, ?_⟩
    · simp [Event.bytes, List.take_append, List.take_of_length_le hr]
    · simp [Event.snapshot?]

/-! ## The actions of a run -/

theorem fitsOrFails_notes (notes : List (Message α)) :
    FitsOrFails (notes.forM fun m => (note (.logged m) : Action α σ τ n PUnit)) := by
  induction notes with
  | nil => exact fitsOrFails_pure _
  | cons m notes ih => exact (fitsOrFails_note rfl).bind fun _ => ih

variable [Scalar α]

theorem fitsOrFails_gradientAt (x : Vector α m) :
    FitsOrFails (gradientAt x : Action α σ τ n (Vector α m)) := by
  refine (fitsOrFails_ask _).bind fun g => ?_
  split
  · exact (fitsOrFails_pure _).ite (fitsOrFails_throw _)
  · exact fitsOrFails_throw _

theorem fitsOrFails_valueAt (x : Array α) : FitsOrFails (valueAt x : Action α σ τ n α) :=
  (fitsOrFails_ask _).bind fun _ => (fitsOrFails_pure _).ite (fitsOrFails_throw _)

theorem fitsOrFails_stationarity (x g : Vector α n) :
    FitsOrFails (stationarity x g : Action α σ τ n α) := by
  refine fitsOrFails_get_bind (fun _ _ => rfl) fun _ => ?_
  exact FitsOrFails.bind (fitsOrFails_modify (fun _ _ => rfl) fun _ => rfl)
    fun _ => fitsOrFails_pure _

theorem fitsOrFails_solveNext : FitsOrFails (solveNext : Action α σ τ n Unit) := by
  unfold solveNext
  refine fitsOrFails_get_bind (fun _ _ => rfl) fun s => ?_
  refine FitsOrFails.bind (fitsOrFails_note rfl) fun _ => ?_
  refine (fitsOrFails_of _).bind fun start => ?_
  refine (fitsOrFails_ask _).bind fun r => ?_
  refine FitsOrFails.bind (fitsOrFails_modify (fun _ _ => rfl) fun _ => rfl) fun _ => ?_
  refine (fitsOrFails_notes _).bind fun _ => ?_
  refine (fitsOrFails_of _).faulting.bind fun report => ?_
  refine (fitsOrFails_of _).bind fun x => ?_
  refine FitsOrFails.bind (fitsOrFails_modify (fun _ _ => rfl) fun _ => rfl) fun _ => ?_
  exact .ite (fitsOrFails_note rfl) (fitsOrFails_pure _)

variable [Numeral α]

theorem fitsOrFails_openRun : FitsOrFails (openRun : Action α σ τ n Unit) := by
  unfold openRun
  refine .faulting (fitsOrFails_get_bind (fun _ _ => rfl) fun s => ?_)
  refine (fitsOrFails_of _).bind fun x => ?_
  refine FitsOrFails.bind (fitsOrFails_modify (fun _ _ => rfl) fun _ => rfl) fun _ => ?_
  refine (fitsOrFails_gradientAt x).bind fun g => ?_
  refine FitsOrFails.bind (fitsOrFails_modify (fun _ _ => rfl) fun _ => rfl) fun _ => ?_
  refine (fitsOrFails_valueAt _).bind fun v => ?_
  refine (fitsOrFails_stationarity x g).bind fun gnorm => ?_
  refine FitsOrFails.bind (fitsOrFails_modify (fun _ _ => rfl) fun _ => rfl) fun _ => ?_
  refine fitsOrFails_get_bind (fun _ _ => rfl) fun t => ?_
  have hnotes (e e' : Event α) (he : e.bytes = []) (he' : e'.bytes = []) :
      FitsOrFails (note e >>= fun _ => (note e' : Action α σ τ n Unit)) :=
    (fitsOrFails_note he).bind fun _ => fitsOrFails_note he'
  refine .ite ?_ (hnotes _ _ rfl rfl)
  refine (fitsOrFails_write _).bind fun _ => (fitsOrFails_write _).bind fun _ => ?_
  exact (fitsOrFails_write _).bind fun _ => hnotes _ _ rfl rfl

theorem fitsOrFails_recordAt (x g : Vector α n) :
    FitsOrFails (recordAt x g : Action α σ τ n Unit) := by
  unfold recordAt
  refine (fitsOrFails_stationarity x g).bind fun gnorm => ?_
  refine fitsOrFails_get_bind (fun _ _ => rfl) fun s => ?_
  refine FitsOrFails.bind (fitsOrFails_modify (fun _ _ => rfl) fun _ => rfl) fun _ => ?_
  refine (fitsOrFails_valueAt _).bind fun v => ?_
  refine FitsOrFails.bind (fitsOrFails_modify (fun _ _ => rfl) fun _ => rfl) fun _ => ?_
  refine fitsOrFails_get_bind (fun _ _ => rfl) fun t => ?_
  have hnotes (e e' : Event α) (he : e.bytes = []) (he' : e'.bytes = []) :
      FitsOrFails (note e >>= fun _ => (note e' : Action α σ τ n Unit)) :=
    (fitsOrFails_note he).bind fun _ => fitsOrFails_note he'
  refine .ite (.ite ?_ ?_) (hnotes _ _ rfl rfl)
  · exact (fitsOrFails_write _).bind fun _ => (fitsOrFails_write _).bind fun _ => hnotes _ _ rfl rfl
  · exact (fitsOrFails_write _).bind fun _ => hnotes _ _ rfl rfl

theorem fitsOrFails_record (x : Array α) : FitsOrFails (record x : Action α σ τ n Unit) := by
  unfold record
  refine .faulting ((fitsOrFails_gradientAt _).bind fun g => ?_)
  split
  · exact fitsOrFails_recordAt _ _
  · exact fitsOrFails_throw _

theorem fitsOrFails_iterate : FitsOrFails (iterate : Action α σ τ n (Option Status)) := by
  unfold iterate
  refine fitsOrFails_solveNext.bind fun _ => ?_
  refine fitsOrFails_get_bind (fun _ _ => rfl) fun s => ?_
  refine (fitsOrFails_record _).bind fun _ => ?_
  refine FitsOrFails.bind (fitsOrFails_modify (fun _ _ => rfl) fun _ => rfl) fun _ => ?_
  refine fitsOrFails_get_bind (fun _ _ => rfl) fun t => ?_
  exact .ite (.bind (fitsOrFails_note rfl) fun _ => fitsOrFails_pure _) (fitsOrFails_pure _)

theorem fitsOrFails_loop (left : Nat) : FitsOrFails (loop left : Action α σ τ n Status) := by
  induction left with
  | zero => exact fitsOrFails_pure _
  | succ left ih =>
    refine fitsOrFails_iterate.bind fun v => ?_
    cases v with
    | none => exact ih
    | some status => exact fitsOrFails_pure status

/-- A run up to the point where it is known how it ends. -/
def body : Action α σ τ n Status := do
  openRun
  loop (← get).method.options.maxOuter

theorem run_eq_body_bind_close : (run : Action α σ τ n Status) = body >>= close := by
  simp [run, body]

theorem fitsOrFails_body : FitsOrFails (body : Action α σ τ n Status) :=
  fitsOrFails_openRun.bind fun _ =>
    fitsOrFails_get_bind (fun _ _ => rfl) fun _ => fitsOrFails_loop _

omit [Scalar α] [Numeral α] in
theorem fitsOrFails_close (status : Status) :
    FitsOrFails (close status : Action α σ τ n Status) := by
  unfold close
  refine FitsOrFails.bind (fitsOrFails_modify (fun _ _ => rfl) fun _ => rfl) fun _ => ?_
  refine fitsOrFails_get_bind (fun _ _ => rfl) fun s => ?_
  refine FitsOrFails.bind (fitsOrFails_note rfl) fun _ => ?_
  exact .ite ((fitsOrFails_write _).bind fun _ => fitsOrFails_pure _) (fitsOrFails_pure _)

theorem fitsOrFails_run : FitsOrFails (run : Action α σ τ n Status) := by
  rw [run_eq_body_bind_close]
  exact fitsOrFails_body.bind fitsOrFails_close

end Action

end LogBarrier

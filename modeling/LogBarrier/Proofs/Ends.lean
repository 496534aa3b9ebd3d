import LogBarrier.Session

/-!
# How actions end

`act.Ends done failed s` says that `act`, started at `s`, ends well at a session that `done` admits
or fails at one that `failed` admits. There is one rule for each way to build an action, so that a
statement about a long action comes apart into one about its parts, and one equation for each of
the steps that sessions are made of.
-/

namespace LogBarrier

open Scalar

variable {α σ τ β γ : Type} {m n : Nat}

/-- The session that an action leaves, whether it fails or not. -/
def Session.after : EStateM.Result Failure (Session α σ τ n) β → Session α σ τ n
  | .ok _ s => s
  | .error _ s => s

@[simp] theorem Session.after_ok (b : β) (s : Session α σ τ n) : Session.after (.ok b s) = s := rfl

@[simp] theorem Session.after_error (e : Failure) (s : Session α σ τ n) :
    Session.after (.error e s : EStateM.Result Failure (Session α σ τ n) β) = s := rfl

/-- The answer of an action. -/
def Session.answer : EStateM.Result Failure (Session α σ τ n) β → Except Failure β
  | .ok b _ => .ok b
  | .error e _ => .error e

/-- Adds the pieces that a report sink accepts, which leaves `k` of it. -/
def Session.tell (k : Sink) (pieces : List (List UInt8)) (s : Session α σ τ n) :
    Session α σ τ n :=
  { s with sink := k, journal := s.journal ++ (pieces.map Event.wrote : List (Event α)) }

@[simp] theorem Session.tell_nil (s : Session α σ τ n) : s.tell s.sink [] = s := by
  simp [Session.tell]

@[simp] theorem Session.tell_tell (s : Session α σ τ n) (k k' : Sink)
    (pieces pieces' : List (List UInt8)) :
    (s.tell k pieces).tell k' pieces' = s.tell k' (pieces ++ pieces') := by
  unfold Session.tell
  congr 1
  apply Array.ext'
  simp

namespace Action

def Ends (act : Action α σ τ n β) (done : β → Session α σ τ n → Prop)
    (failed : Failure → Session α σ τ n → Prop) (s : Session α σ τ n) : Prop :=
  match act s with
  | .ok b t => done b t
  | .error e t => failed e t

variable {done done' : β → Session α σ τ n → Prop}
  {failed failed' : Failure → Session α σ τ n → Prop} {s : Session α σ τ n}

theorem Ends.of_ok {act : Action α σ τ n β} (h : act.Ends done failed s) {b : β}
    {t : Session α σ τ n} (hrun : act s = .ok b t) : done b t := by
  unfold Ends at h
  rwa [hrun] at h

theorem Ends.of_error {act : Action α σ τ n β} (h : act.Ends done failed s) {e : Failure}
    {t : Session α σ τ n} (hrun : act s = .error e t) : failed e t := by
  unfold Ends at h
  rwa [hrun] at h

/-- What holds at both ends holds of the session that is left. -/
theorem Ends.after {act : Action α σ τ n β} {P : Session α σ τ n → Prop}
    (h : act.Ends (fun _ t => P t) (fun _ t => P t) s) : P (Session.after (act s)) := by
  unfold Ends at h
  cases hrun : act s with
  | ok b t => rwa [hrun] at h
  | error e t => rwa [hrun] at h

theorem Ends.mono {act : Action α σ τ n β} (h : act.Ends done failed s)
    (hdone : ∀ b t, done b t → done' b t) (hfailed : ∀ e t, failed e t → failed' e t) :
    act.Ends done' failed' s := by
  unfold Ends at h ⊢
  cases hrun : act s with
  | ok b t =>
    rw [hrun] at h
    exact hdone b t h
  | error e t =>
    rw [hrun] at h
    exact hfailed e t h

theorem Ends.and {act : Action α σ τ n β} (h : act.Ends done failed s)
    (h' : act.Ends done' failed' s) :
    act.Ends (fun b t => done b t ∧ done' b t) (fun e t => failed e t ∧ failed' e t) s := by
  unfold Ends at h h' ⊢
  cases hrun : act s with
  | ok b t =>
    rw [hrun] at h h'
    exact ⟨h, h'⟩
  | error e t =>
    rw [hrun] at h h'
    exact ⟨h, h'⟩

/-! ## Rules -/

@[simp] theorem ends_pure (b : β) : (pure b : Action α σ τ n β).Ends done failed s ↔ done b s :=
  Iff.rfl

@[simp] theorem ends_throw (e : Failure) :
    (throw e : Action α σ τ n β).Ends done failed s ↔ failed e s :=
  Iff.rfl

@[simp] theorem ends_get {done : Session α σ τ n → Session α σ τ n → Prop} :
    (get : Action α σ τ n (Session α σ τ n)).Ends done failed s ↔ done s s :=
  Iff.rfl

@[simp] theorem ends_modify {done : Unit → Session α σ τ n → Prop}
    (f : Session α σ τ n → Session α σ τ n) :
    (modify f : Action α σ τ n Unit).Ends done failed s ↔ done () (f s) :=
  Iff.rfl

@[simp] theorem ends_bind (act : Action α σ τ n β) (f : β → Action α σ τ n γ)
    {done : γ → Session α σ τ n → Prop} :
    (act >>= f).Ends done failed s ↔
      act.Ends (fun b t => (f b).Ends done failed t) failed s := by
  unfold Ends
  show (match EStateM.bind act f s with | .ok c t => _ | .error e t => _) ↔ _
  unfold EStateM.bind
  cases act s <;> rfl

theorem ends_ite {p : Prop} [Decidable p] (act act' : Action α σ τ n β) :
    (if p then act else act').Ends done failed s ↔
      (p → act.Ends done failed s) ∧ (¬ p → act'.Ends done failed s) := by
  split <;> simp [*]

theorem ends_of (r : Except Failure β) :
    (of r : Action α σ τ n β).Ends done failed s ↔
      (∀ b, r = .ok b → done b s) ∧ ∀ e, r = .error e → failed e s := by
  cases r <;> simp [Ends, of]

@[simp] theorem ends_note {done : Unit → Session α σ τ n → Prop} (e : Event α) :
    (note e : Action α σ τ n Unit).Ends done failed s ↔ done () (s.log e) :=
  Iff.rfl

@[simp] theorem ends_ask (question : Augmented α n → Metered α β) :
    (ask question : Action α σ τ n β).Ends done failed s ↔
      done (question s.augmented).result (s.charge (question s.augmented)) :=
  Iff.rfl

@[simp] theorem ends_faulting (act : Action α σ τ n β) :
    (faulting act).Ends done failed s ↔ act.Ends done (fun e t => failed e t.fault) s := by
  unfold Ends faulting
  cases act s <;> rfl

/-- A series of messages is logged one after the other. -/
@[simp] theorem ends_forM_note {done : PUnit → Session α σ τ n → Prop} (notes : List (Message α)) :
    (notes.forM fun m => (note (.logged m) : Action α σ τ n PUnit)).Ends done failed s ↔
      done ⟨⟩ { s with journal := s.journal ++ notes.map Event.logged } := by
  induction notes generalizing s with
  | nil => simp
  | cons m notes ih =>
    show (note (.logged m) >>= fun _ => notes.forM _).Ends done failed s ↔ _
    rw [ends_bind, ends_note, ih]
    simp [Session.log]

/-! ## Reports -/

theorem write_of_unlimited {s : Session α σ τ n} (hs : s.sink = .unlimited) (text : String) :
    (write text : Action α σ τ n Unit) s = .ok () (s.log (.wrote text.toUTF8.data.toList)) := by
  unfold write
  rw [hs, Sink.write_unlimited]
  cases s
  cases hs
  rfl

theorem ends_write_of_unlimited {done : Unit → Session α σ τ n → Prop} (hs : s.sink = .unlimited)
    (text : String) :
    (write text : Action α σ τ n Unit).Ends done failed s ↔
      done () (s.log (.wrote text.toUTF8.data.toList)) := by
  unfold Ends
  rw [write_of_unlimited hs]

/-- The action writes the texts, all of them if it ends well, and changes nothing else. -/
def Tells (texts : List String) (act : Action α σ τ n Unit) : Prop :=
  ∀ s, act.Ends (fun _ t => ∃ k, t = s.tell k (texts.map fun x => x.toUTF8.data.toList))
    (fun e t => e = .error .reportFailed ∧ ∃ k pieces, t = s.tell k pieces) s

theorem tells_write (text : String) : Tells [text] (write text : Action α σ τ n Unit) := by
  intro s
  have hlog (k : Sink) (bytes : List UInt8) :
      ({ s with sink := k } : Session α σ τ n).log (.wrote bytes) = s.tell k [bytes] := by
    simp [Session.log, Session.tell]
  unfold Ends write
  dsimp only
  rw [hlog]
  split
  · rename_i hrun
    split at hrun
    · rename_i hw
      cases hrun
      rw [Sink.complete_write_iff.mp hw]
      exact ⟨_, rfl⟩
    · cases hrun
  · rename_i hrun
    split at hrun
    · cases hrun
    · cases hrun
      exact ⟨rfl, _, _, rfl⟩

/-- An action that goes on after a report goes on with the report written, or fails with as much
of it as there was room for. -/
theorem Tells.ends_bind {texts : List String} {act : Action α σ τ n Unit} (h : Tells texts act)
    {next : Unit → Action α σ τ n β}
    (hnext : ∀ k, (next ()).Ends done failed (s.tell k (texts.map fun x => x.toUTF8.data.toList)))
    (hfailed : ∀ k pieces, failed (.error .reportFailed) (s.tell k pieces)) :
    (act >>= next).Ends done failed s := by
  rw [Action.ends_bind]
  refine (h s).mono ?_ ?_
  · rintro - t ⟨k, rfl⟩
    exact hnext k
  · rintro e t ⟨rfl, k, pieces, rfl⟩
    exact hfailed k pieces

end Action

end LogBarrier

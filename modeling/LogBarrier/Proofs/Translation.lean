import LogBarrier.Proofs.Ends

/-!
# Translations

Two problems can be the same one in different words. A translation says what the words of the first
problem mean in the second: its calls, the states that it shows, its messages and its sessions. An
action is carried over if, on translated sessions, its counterpart does the same and gives the
translated answer. There is one rule for each way to build a metered computation or an action.
-/

namespace LogBarrier

variable {α σ τ β γ δ ε : Type} {m n : Nat}

/-! ## Metered computations -/

/-- The computation that makes the calls `c` gives and has the result `h` gives. -/
def Metered.translate (c : Call α → Call α) (h : β → γ) (m : Metered α β) : Metered α γ :=
  ⟨h m.result, m.calls.map c, m.tally⟩

def Trying.translate (c : Call α → Call α) (h : β → γ) (m : Trying α β) : Trying α γ :=
  ExceptT.mk (m.run.translate c (Except.map h))

section

variable {c : Call α → Call α} {h : β → γ} {h' : δ → ε}

/-- Of two computations one after the other, the second one matters at one point only. -/
theorem Metered.translate_bind {m : Metered α β} {f : β → Metered α δ} {f' : γ → Metered α ε}
    (hf : f' (h m.result) = (f m.result).translate c h') :
    m.translate c h >>= f' = (m >>= f).translate c h' := by
  refine Metered.eq_of_parts ?_ ?_ ?_
  · show (f' (h m.result)).result = ((f m.result).translate c h').result
    rw [hf]
  · show m.calls.map c ++ (f' (h m.result)).calls = (m.calls ++ (f m.result).calls).map c
    rw [hf, List.map_append]
    rfl
  · show m.tally + (f' (h m.result)).tally = m.tally + (f m.result).tally
    rw [hf]
    rfl

namespace Trying

@[simp] theorem run_translate (m : Trying α β) :
    (m.translate c h).run = m.run.translate c (Except.map h) := rfl

@[simp] theorem translate_pure (b : β) :
    (pure b : Trying α β).translate c h = pure (h b) := rfl

theorem translate_ask (m : Metered α β) :
    (ask m).translate c h = ask (m.translate c h) := by
  refine Metered.eq_of_parts rfl ?_ ?_
  · show (Except.ok <$> m).calls.map c = (Except.ok <$> m.translate c h).calls
    rw [Metered.calls_map, Metered.calls_map]
    rfl
  · show (Except.ok <$> m).tally = (Except.ok <$> m.translate c h).tally
    rw [Metered.tally_map, Metered.tally_map]
    rfl

theorem translate_of (r : Except Failure β) :
    (of r : Trying α β).translate c h = of (r.map h) := rfl

/-- What comes second is compared only if the first computation does not fail. -/
theorem translate_bind {m : Trying α β} {f : β → Trying α δ} {f' : γ → Trying α ε}
    (hf : ∀ b, m.run.result = .ok b → f' (h b) = (f b).translate c h') :
    m.translate c h >>= f' = (m >>= f).translate c h' := by
  show (m.run.translate c (Except.map h) >>= ExceptT.bindCont f' : Metered α (Except Failure ε)) =
    (m.run >>= ExceptT.bindCont f).translate c (Except.map h')
  refine Metered.translate_bind ?_
  cases hm : m.run.result with
  | ok b => exact hf b hm
  | error e => rfl

end Trying

end

/-! ## Journals -/

def Event.translate (c : Call α → Call α) (t : State α → State α) (l : Message α → Message α) :
    Event α → Event α
  | called x => called (c x)
  | solving tol mu kappa => solving tol mu kappa
  | wrote bytes => wrote bytes
  | opened s => opened (t s)
  | advanced s => advanced (t s)
  | logged x => logged (l x)

namespace Journal

def translate (c : Call α → Call α) (t : State α → State α) (l : Message α → Message α)
    (j : Journal α) : Journal α :=
  j.map (Event.translate c t l)

variable (c : Call α → Call α) (t : State α → State α) (l : Message α → Message α) (j : Journal α)

@[simp] theorem calls_translate : (j.translate c t l).calls = j.calls.map c := by
  unfold calls translate
  rw [Array.toList_map, List.filterMap_map, List.map_filterMap]
  congr 1
  funext e
  cases e <;> rfl

@[simp] theorem snapshots_translate : (j.translate c t l).snapshots = j.snapshots.map t := by
  unfold snapshots translate
  rw [Array.toList_map, List.filterMap_map, List.map_filterMap]
  congr 1
  funext e
  cases e <;> rfl

@[simp] theorem handed_translate : (j.translate c t l).handed = j.handed := by
  unfold handed translate
  rw [Array.toList_map, List.filterMap_map]
  congr 1
  funext e
  cases e <;> rfl

@[simp] theorem output_translate : (j.translate c t l).output = j.output := by
  unfold output translate
  rw [Array.toList_map, List.flatMap_map]
  congr 1
  funext e
  cases e <;> rfl

theorem translate_called (cs : List (Call α)) :
    translate c t l (j ++ cs.map Event.called) =
      j.translate c t l ++ (cs.map c).map Event.called := by
  unfold translate
  refine Array.ext' ?_
  simp only [Array.toList_appendList, Array.toList_map, List.map_append, List.map_map]
  rfl

end Journal

/-! ## Answers -/

/-- Both answers are the same, where `h` gives the second one and `Same` says which failures count
as the same. -/
inductive SameAnswer (Same : Failure → Failure → Prop) (h : β → γ) :
    Except Failure β → Except Failure γ → Prop
  | ok (b : β) : SameAnswer Same h (.ok b) (.ok (h b))
  | error {e e' : Failure} (he : Same e e') : SameAnswer Same h (.error e) (.error e')

theorem SameAnswer.of_refl {Same : Failure → Failure → Prop} (hsame : ∀ e, Same e e) (h : β → γ)
    (r : Except Failure β) : SameAnswer Same h r (r.map h) := by
  cases r with
  | ok b => exact .ok b
  | error e => exact .error (hsame e)

theorem SameAnswer.eq {r r' : Except Failure β} (hr : SameAnswer Eq id r r') : r' = r := by
  cases hr with
  | ok b => rfl
  | error he => rw [he]

theorem SameAnswer.mono {Same Same' : Failure → Failure → Prop} {h : β → γ}
    {r : Except Failure β} {r' : Except Failure γ} (hr : SameAnswer Same h r r')
    (hsame : ∀ e e', Same e e' → Same' e e') : SameAnswer Same' h r r' := by
  cases hr with
  | ok b => exact .ok b
  | error he => exact .error (hsame _ _ he)

/-! ## Sessions -/

/-- What the words of a problem with `m` variables mean in one with `n` variables. -/
structure Translation (α σ τ : Type) (m n : Nat) where
  call : Call α → Call α
  state : State α → State α
  message : Message α → Message α
  session : Session α σ τ m → Session α σ τ n
  /-- The failure in one problem says the same as the failure in the other. -/
  SameFailure : Failure → Failure → Prop
  same_refl (e : Failure) : SameFailure e e
  session_log (s : Session α σ τ m) (e : Event α) :
    session (s.log e) = (session s).log (e.translate call state message)
  session_charge (s : Session α σ τ m) (q : Metered α Unit) :
    session (s.charge q) = (session s).charge (q.translate call id)
  session_fault (s : Session α σ τ m) : session s.fault = (session s).fault
  sink_session (s : Session α σ τ m) : (session s).sink = s.sink
  session_sink (s : Session α σ τ m) (k : Sink) :
    session { s with sink := k } = { session s with sink := k }

namespace Translation

variable (T : Translation α σ τ m n)

def event (e : Event α) : Event α := e.translate T.call T.state T.message

/-- Both ends are the same in different words, where `h` gives the answer of the second one. -/
inductive Matches (h : β → γ) : EStateM.Result Failure (Session α σ τ m) β →
    EStateM.Result Failure (Session α σ τ n) γ → Prop
  | ok (b : β) (t : Session α σ τ m) : Matches h (.ok b t) (.ok (h b) (T.session t))
  | error {e e' : Failure} (t : Session α σ τ m) (he : T.SameFailure e e') :
      Matches h (.error e t) (.error e' (T.session t))

/-- From the translation of `s`, `act'` comes to the translation of where `act` comes from `s`. -/
def Carries (h : β → γ) (act : Action α σ τ m β) (act' : Action α σ τ n γ)
    (s : Session α σ τ m) : Prop :=
  T.Matches h (act s) (act' (T.session s))

variable {T} {h : β → γ} {h' : δ → ε} {s : Session α σ τ m} {act : Action α σ τ m β}
  {act' : Action α σ τ n γ}

theorem session_charged (s : Session α σ τ m) (h : β → γ) (q : Metered α β) :
    T.session (s.charge q) = (T.session s).charge (q.translate T.call h) :=
  T.session_charge s ⟨(), q.calls, q.tally⟩

theorem Matches.error_refl (e : Failure) (t : Session α σ τ m) :
    T.Matches h (.error e t) (.error e (T.session t)) := .error t (T.same_refl e)

open LogBarrier.Action

theorem carries_pure (b : β) : T.Carries h (pure b) (pure (h b)) s := .ok b s

theorem Carries.bind {f : β → Action α σ τ m δ} {f' : γ → Action α σ τ n ε}
    (hact : T.Carries h act act' s)
    (hf : ∀ b t, act s = .ok b t → T.Carries h' (f b) (f' (h b)) t) :
    T.Carries h' (act >>= f) (act' >>= f') s := by
  unfold Carries at hact ⊢
  show T.Matches h' (EStateM.bind act f s) (EStateM.bind act' f' (T.session s))
  unfold EStateM.bind
  generalize act s = r at hact hf
  generalize act' (T.session s) = r' at hact
  cases hact with
  | ok b t => exact hf b t rfl
  | error t he => exact .error t he

theorem carries_get_bind {f : Session α σ τ m → Action α σ τ m β}
    {f' : Session α σ τ n → Action α σ τ n γ} (hf : T.Carries h (f s) (f' (T.session s)) s) :
    T.Carries h (get >>= f) (get >>= f') s := hf

theorem carries_modify_bind {change : Session α σ τ m → Session α σ τ m}
    {change' : Session α σ τ n → Session α σ τ n} {f : PUnit → Action α σ τ m β}
    {f' : PUnit → Action α σ τ n γ} (hchange : change' (T.session s) = T.session (change s))
    (hf : T.Carries h (f ⟨⟩) (f' ⟨⟩) (change s)) :
    T.Carries h (modify change >>= f) (modify change' >>= f') s := by
  show T.Matches h (f ⟨⟩ (change s)) (f' ⟨⟩ (change' (T.session s)))
  rw [hchange]
  exact hf

theorem carries_note (e : Event α) : T.Carries id (note e) (note (T.event e)) s := by
  show T.Matches id (.ok () (s.log e)) (.ok () ((T.session s).log (T.event e)))
  rw [event, ← T.session_log]
  exact .ok () _

/-- A message and what observers are shown after it. -/
theorem carries_shown {l l' : Message α} (hl : T.message l = l') {e e' : Event α}
    (he : T.event e = e') :
    T.Carries id (note (.logged l) >>= fun _ => note e)
      (note (.logged l') >>= fun _ => note e') s := by
  subst hl
  subst he
  exact (carries_note (.logged l)).bind fun _ _ _ => carries_note e

theorem carries_of {r : Except Failure β} {r' : Except Failure γ}
    (hr : SameAnswer T.SameFailure h r r') : T.Carries h (Action.of r) (Action.of r') s := by
  cases hr with
  | ok b => exact .ok b s
  | error he => exact .error s he

theorem carries_of_map (r : Except Failure β) :
    T.Carries h (Action.of r) (Action.of (r.map h)) s := carries_of (.of_refl T.same_refl h r)

theorem carries_of_same (r : Except Failure β) : T.Carries id (Action.of r) (Action.of r) s := by
  cases r with
  | ok b => exact .ok b s
  | error e => exact .error_refl e s

theorem carries_ask {q : Augmented α m → Metered α β} {q' : Augmented α n → Metered α γ}
    (hq : q' (T.session s).augmented = (q s.augmented).translate T.call h) :
    T.Carries h (ask q) (ask q') s := by
  show T.Matches h (.ok (q s.augmented).result (s.charge (q s.augmented)))
    (.ok (q' (T.session s).augmented).result
      ((T.session s).charge (q' (T.session s).augmented)))
  rw [hq, ← session_charged]
  exact .ok _ _

theorem carries_ite {p : Prop} [Decidable p] {act₂ : Action α σ τ m β}
    {act₂' : Action α σ τ n γ} (hact : T.Carries h act act' s) (hact₂ : T.Carries h act₂ act₂' s) :
    T.Carries h (if p then act else act₂) (if p then act' else act₂') s := by
  split
  · exact hact
  · exact hact₂

theorem carries_write (text : String) : T.Carries id (write text) (write text) s := by
  -- The sinks are the same, so both accept the same bytes.
  have hlog (k : Sink) (bytes : List UInt8) :
      ({ T.session s with sink := k } : Session α σ τ n).log (.wrote bytes) =
        T.session (({ s with sink := k } : Session α σ τ m).log (.wrote bytes)) :=
    (congrArg (Session.log (.wrote bytes)) (T.session_sink s k).symm).trans
      (T.session_log { s with sink := k } (.wrote bytes)).symm
  unfold Carries write
  dsimp only
  rw [T.sink_session, hlog]
  split
  · exact .ok () _
  · exact .error_refl _ _

theorem Carries.faulting (hact : T.Carries h act act' s) :
    T.Carries h (faulting act) (faulting act') s := by
  unfold Carries at hact ⊢
  unfold Action.faulting
  generalize act s = r at hact
  generalize act' (T.session s) = r' at hact
  cases hact with
  | ok b t => exact .ok b t
  | error t he =>
    dsimp only
    rw [← T.session_fault]
    exact .error _ he

theorem carries_forM_note {l l' : List (Message α)} (h : l.map T.message = l') :
    T.Carries id (l.forM fun x => note (.logged x)) (l'.forM fun x => note (.logged x)) s := by
  subst h
  induction l generalizing s with
  | nil => exact carries_pure _
  | cons x l ih => exact (carries_note (.logged x)).bind fun _ _ _ => ih

/-! ## Ends -/

theorem Matches.after {r : EStateM.Result Failure (Session α σ τ m) β}
    {r' : EStateM.Result Failure (Session α σ τ n) γ} (hr : T.Matches h r r') :
    Session.after r' = T.session (Session.after r) := by
  cases hr <;> rfl

theorem Matches.answer {r : EStateM.Result Failure (Session α σ τ m) β}
    {r' : EStateM.Result Failure (Session α σ τ n) γ} (hr : T.Matches h r r') :
    SameAnswer T.SameFailure h (Session.answer r) (Session.answer r') := by
  cases hr with
  | ok b t => exact .ok b
  | error t he => exact .error he

end Translation

end LogBarrier

import LogBarrier.Descent

/-!
# What a computation asks

`m.Asks allowed done` says that a metered computation makes allowed calls only and that its result
is as `done` wants it. Of one that may fail, it says so about a result that it has. There is one
rule for each way to build a computation.
-/

namespace LogBarrier

open Scalar

variable {α β γ : Type} {allowed : Call α → Prop}

namespace Metered

def Asks (m : Metered α β) (allowed : Call α → Prop) (done : β → Prop) : Prop :=
  (∀ c ∈ m.calls, allowed c) ∧ done m.result

variable {done done' : β → Prop}

theorem Asks.mono {m : Metered α β} (h : m.Asks allowed done) (hdone : ∀ b, done b → done' b) :
    m.Asks allowed done' :=
  ⟨h.1, hdone _ h.2⟩

@[simp] theorem asks_pure (b : β) : (pure b : Metered α β).Asks allowed done ↔ done b := by
  simp [Asks]

@[simp] theorem asks_bind (m : Metered α β) (f : β → Metered α γ) {done : γ → Prop} :
    (m >>= f).Asks allowed done ↔ m.Asks allowed fun b => (f b).Asks allowed done := by
  simp only [Asks, calls_bind, result_bind, List.mem_append, or_imp, forall_and]
  exact and_assoc

@[simp] theorem asks_map (f : β → γ) (m : Metered α β) {done : γ → Prop} :
    (f <$> m).Asks allowed done ↔ m.Asks allowed fun b => done (f b) := by
  simp [Asks]

@[simp] theorem asks_call (c : Call α) (b : β) :
    (call c b).Asks allowed done ↔ allowed c ∧ done b := by
  simp [Asks]

@[simp] theorem asks_counting (t : Tally) (m : Metered α β) :
    (counting t m).Asks allowed done ↔ m.Asks allowed done :=
  Iff.rfl

end Metered

namespace Trying

def Asks (m : Trying α β) (allowed : Call α → Prop) (done : β → Prop) : Prop :=
  Metered.Asks m.run allowed fun r => ∀ b, r = .ok b → done b

variable {done done' : β → Prop}

@[simp] theorem asks_pure (b : β) : Asks (pure b : Trying α β) allowed done ↔ done b := by
  show Metered.Asks (pure (Except.ok b)) allowed _ ↔ _
  simp

@[simp] theorem asks_throw (e : Failure) : Asks (throw e : Trying α β) allowed done := by
  show Metered.Asks (pure (Except.error e)) allowed _
  simp

@[simp] theorem asks_of (r : Except Failure β) :
    Asks (of r : Trying α β) allowed done ↔ ∀ b, r = .ok b → done b := by
  show Metered.Asks (pure r) allowed _ ↔ _
  simp

@[simp] theorem asks_ask (m : Metered α β) :
    Asks (ask m) allowed done ↔ m.Asks allowed done := by
  show Metered.Asks (Except.ok <$> m) allowed _ ↔ _
  simp

/-- A continuation is asked to go on after a failure and after a result that is as wanted. -/
theorem Asks.run_bind {m : Trying α β} (h : Asks m allowed done)
    {f : Except Failure β → Metered α γ} {done' : γ → Prop}
    (herror : ∀ e, (f (.error e)).Asks allowed done')
    (hok : ∀ b, done b → (f (.ok b)).Asks allowed done') :
    (m.run >>= f).Asks allowed done' := by
  rw [Metered.asks_bind]
  refine Metered.Asks.mono h fun r hr => ?_
  cases r with
  | error e => exact herror e
  | ok b => exact hok b (hr b rfl)

theorem Asks.bind {m : Trying α β} (h : Asks m allowed done) {f : β → Trying α γ}
    {done' : γ → Prop} (hf : ∀ b, done b → Asks (f b) allowed done') :
    Asks (m >>= f) allowed done' := by
  refine h.run_bind (fun e => ?_) hf
  show Metered.Asks (pure (Except.error e)) allowed _
  simp

end Trying

end LogBarrier

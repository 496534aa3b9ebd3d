import LogBarrier.Failure

/-!
# Metered evaluation

Computations that use an objective carry the list of the calls they make, in order, and a tally of
evaluations that the caller keeps. The two are recorded apart: the calls are what happened, the
tally is what was counted. A `Trying` computation may also fail, and keeps its calls when it does.
-/

namespace LogBarrier

/-- One use of an objective. -/
inductive Call (α : Type) where
  | value (x : Array α)
  | gradient (x : Array α)
  | product (x v : Array α)
  deriving Repr, DecidableEq

namespace Call

variable {α : Type}

def isValue : Call α → Bool
  | value _ => true
  | _ => false

def isGradient : Call α → Bool
  | gradient _ => true
  | _ => false

end Call

/-- Counted evaluations of values and gradients. -/
structure Tally where
  values : Nat
  gradients : Nat
  deriving Repr, DecidableEq

namespace Tally

instance : Zero Tally := ⟨⟨0, 0⟩⟩

instance : Add Tally := ⟨fun a b => ⟨a.values + b.values, a.gradients + b.gradients⟩⟩

@[simp] theorem values_zero : (0 : Tally).values = 0 := rfl
@[simp] theorem gradients_zero : (0 : Tally).gradients = 0 := rfl
@[simp] theorem values_add (a b : Tally) : (a + b).values = a.values + b.values := rfl
@[simp] theorem gradients_add (a b : Tally) : (a + b).gradients = a.gradients + b.gradients := rfl

theorem eq_of_parts {a b : Tally} (hv : a.values = b.values) (hg : a.gradients = b.gradients) :
    a = b := by
  cases a; cases b
  simp_all

@[simp] theorem add_zero (a : Tally) : a + 0 = a := rfl

@[simp] theorem zero_add (a : Tally) : 0 + a = a := eq_of_parts (by simp) (by simp)

theorem add_assoc (a b c : Tally) : a + b + c = a + (b + c) :=
  eq_of_parts (by simp [Nat.add_assoc]) (by simp [Nat.add_assoc])

end Tally

/-- A result, the calls made for it, and what was counted. -/
structure Metered (α β : Type) where
  result : β
  calls : List (Call α)
  tally : Tally

namespace Metered

variable {α β γ : Type}

instance : Monad (Metered α) where
  pure b := ⟨b, [], 0⟩
  bind m f := ⟨(f m.result).result, m.calls ++ (f m.result).calls, m.tally + (f m.result).tally⟩

@[simp] theorem result_pure (b : β) : (pure b : Metered α β).result = b := rfl
@[simp] theorem calls_pure (b : β) : (pure b : Metered α β).calls = [] := rfl
@[simp] theorem tally_pure (b : β) : (pure b : Metered α β).tally = 0 := rfl

@[simp] theorem result_bind (m : Metered α β) (f : β → Metered α γ) :
    (m >>= f).result = (f m.result).result := rfl

@[simp] theorem calls_bind (m : Metered α β) (f : β → Metered α γ) :
    (m >>= f).calls = m.calls ++ (f m.result).calls := rfl

@[simp] theorem tally_bind (m : Metered α β) (f : β → Metered α γ) :
    (m >>= f).tally = m.tally + (f m.result).tally := rfl

@[simp] theorem result_map (f : β → γ) (m : Metered α β) : (f <$> m).result = f m.result := rfl

@[simp] theorem calls_map (f : β → γ) (m : Metered α β) : (f <$> m).calls = m.calls :=
  List.append_nil m.calls

@[simp] theorem tally_map (f : β → γ) (m : Metered α β) : (f <$> m).tally = m.tally :=
  Tally.add_zero m.tally

theorem eq_of_parts {m m' : Metered α β} (hr : m.result = m'.result) (hc : m.calls = m'.calls)
    (ht : m.tally = m'.tally) : m = m' := by
  cases m; cases m'
  simp_all

instance : LawfulMonad (Metered α) := LawfulMonad.mk' (Metered α)
  (fun m => eq_of_parts rfl (by simp) (by simp))
  (fun b f => eq_of_parts rfl (by simp) (by simp))
  (fun m f g => eq_of_parts rfl (by simp) (by simp [Tally.add_assoc]))

/-- One call that nobody counts. -/
def call (c : Call α) (b : β) : Metered α β := ⟨b, [c], 0⟩

@[simp] theorem result_call (c : Call α) (b : β) : (call c b).result = b := rfl
@[simp] theorem calls_call (c : Call α) (b : β) : (call c b).calls = [c] := rfl
@[simp] theorem tally_call (c : Call α) (b : β) : (call c b).tally = 0 := rfl

/-- Adds `t` to what was counted. -/
def counting (t : Tally) (m : Metered α β) : Metered α β := { m with tally := m.tally + t }

@[simp] theorem result_counting (t : Tally) (m : Metered α β) :
    (counting t m).result = m.result := rfl

@[simp] theorem calls_counting (t : Tally) (m : Metered α β) :
    (counting t m).calls = m.calls := rfl

@[simp] theorem tally_counting (t : Tally) (m : Metered α β) :
    (counting t m).tally = m.tally + t := rfl

end Metered

/-- A metered computation that may fail. -/
abbrev Trying (α : Type) := ExceptT Failure (Metered α)

namespace Trying

variable {α β γ : Type}

/-- A metered computation that does not fail. -/
def ask (m : Metered α β) : Trying α β := ExceptT.mk (.ok <$> m)

/-- A result or a failure that needs no call. -/
def of (r : Except Failure β) : Trying α β := ExceptT.mk (pure r)

@[simp] theorem run_ask (m : Metered α β) : (ask m).run = .ok <$> m := rfl

@[simp] theorem run_of (r : Except Failure β) : (of r : Trying α β).run = pure r := rfl

@[simp] theorem of_ok (b : β) : (of (.ok b) : Trying α β) = pure b := rfl

@[simp] theorem of_error (e : Failure) : (of (.error e) : Trying α β) = throw e := rfl

@[simp] theorem result_pure (b : β) : (pure b : Trying α β).run.result = .ok b := rfl

@[simp] theorem result_throw (e : Failure) : (throw e : Trying α β).run.result = .error e := rfl

@[simp] theorem result_ask (m : Metered α β) : (ask m).run.result = .ok m.result := rfl

@[simp] theorem result_of (r : Except Failure β) : (of r : Trying α β).run.result = r := rfl

theorem bind_eq_ok_iff {m : Trying α β} {f : β → Trying α γ} {c : γ} :
    (m >>= f).run.result = .ok c ↔
      ∃ b, m.run.result = .ok b ∧ (f b).run.result = .ok c := by
  show (ExceptT.bindCont f m.run.result).result = .ok c ↔ _
  cases m.run.result with
  | ok b => simp [ExceptT.bindCont, ExceptT.run]
  | error e => simp [ExceptT.bindCont]

theorem bind_eq_error_iff {m : Trying α β} {f : β → Trying α γ} {e : Failure} :
    (m >>= f).run.result = .error e ↔
      m.run.result = .error e ∨ ∃ b, m.run.result = .ok b ∧ (f b).run.result = .error e := by
  show (ExceptT.bindCont f m.run.result).result = .error e ↔ _
  cases m.run.result with
  | ok b => simp [ExceptT.bindCont, ExceptT.run]
  | error e' => simp [ExceptT.bindCont]

end Trying

end LogBarrier

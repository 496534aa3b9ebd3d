import LogBarrier.Metered

/-!
# What a computation spends

The calls of a metered computation say which values and gradients were evaluated, its tally says
which of them were counted. `m.Misses k` says that `k` is the difference; a computation that misses
nothing is tallied. There is one rule for each way to build a computation.
-/

namespace LogBarrier

variable {α β γ : Type}

namespace Tally

theorem eq_add_iff {a b : Tally} : a = a + b ↔ b = 0 := by
  constructor
  · intro h
    exact eq_of_parts (Nat.left_eq_add.mp (congrArg values h))
      (Nat.left_eq_add.mp (congrArg gradients h))
  · rintro rfl
    rfl

/-- The evaluations of values and gradients among `cs`. -/
def ofCalls (cs : List (Call α)) : Tally :=
  ⟨cs.countP Call.isValue, cs.countP Call.isGradient⟩

@[simp] theorem ofCalls_append (cs ds : List (Call α)) :
    ofCalls (cs ++ ds) = ofCalls cs + ofCalls ds :=
  eq_of_parts List.countP_append List.countP_append

end Tally

namespace Metered

/-- The evaluations that a computation makes. -/
def spent (m : Metered α β) : Tally := .ofCalls m.calls

@[simp] theorem spent_pure (b : β) : (pure b : Metered α β).spent = 0 := rfl

@[simp] theorem spent_bind (m : Metered α β) (f : β → Metered α γ) :
    (m >>= f).spent = m.spent + (f m.result).spent :=
  Tally.ofCalls_append _ _

@[simp] theorem spent_map (f : β → γ) (m : Metered α β) : (f <$> m).spent = m.spent :=
  congrArg Tally.ofCalls (calls_map f m)

@[simp] theorem spent_counting (t : Tally) (m : Metered α β) :
    (counting t m).spent = m.spent := rfl

/-- The evaluations `k` are made and not counted. -/
def Misses (m : Metered α β) (k : Tally) : Prop := m.spent = m.tally + k

/-- Every evaluation is counted. -/
abbrev Tallied (m : Metered α β) : Prop := m.Misses 0

variable {k l : Tally}

theorem tallied_pure (b : β) : (pure b : Metered α β).Tallied := rfl

theorem misses_call (c : Call α) (b : β) : (call c b).Misses (.ofCalls [c]) :=
  (Tally.zero_add _).symm

theorem Misses.counting {m : Metered α β} {t : Tally} (h : m.Misses (t + k)) :
    (Metered.counting t m).Misses k := by
  unfold Misses at h ⊢
  rw [spent_counting, tally_counting, h, Tally.add_assoc]

theorem Misses.bind {m : Metered α β} {f : β → Metered α γ} (hm : m.Misses k)
    (hf : (f m.result).Misses l) : (m >>= f).Misses (k + l) := by
  unfold Misses at hm hf ⊢
  rw [spent_bind, tally_bind, hm, hf]
  exact Tally.eq_of_parts (Nat.add_add_add_comm _ _ _ _) (Nat.add_add_add_comm _ _ _ _)

theorem Misses.bind_tallied {m : Metered α β} {f : β → Metered α γ} (hm : m.Misses k)
    (hf : ∀ b, (f b).Tallied) : (m >>= f).Misses k :=
  hm.bind (hf _)

theorem Misses.map {m : Metered α β} (h : m.Misses k) (f : β → γ) : (f <$> m).Misses k := by
  unfold Misses at h ⊢
  rw [spent_map, tally_map, h]

end Metered

namespace Trying

theorem spent_bind_of_ok {m : Trying α β} {b : β} (h : m.run.result = .ok b)
    (f : β → Trying α γ) : (m >>= f).run.spent = m.run.spent + (f b).run.spent := by
  show (m.run >>= ExceptT.bindCont f).spent = _
  rw [Metered.spent_bind, h]
  rfl

theorem spent_bind_of_error {m : Trying α β} {e : Failure} (h : m.run.result = .error e)
    (f : β → Trying α γ) : (m >>= f).run.spent = m.run.spent := by
  show (m.run >>= ExceptT.bindCont f).spent = _
  rw [Metered.spent_bind, h]
  rfl

theorem spent_bind_of_free (m : Trying α β) {f : β → Trying α γ}
    (hf : ∀ b, (f b).run.spent = 0) : (m >>= f).run.spent = m.run.spent := by
  cases h : m.run.result with
  | error e => exact spent_bind_of_error h f
  | ok b =>
    rw [spent_bind_of_ok h, hf, Tally.add_zero]

/-- The evaluations `k` are made and not counted, also if the computation fails. -/
def Misses (m : Trying α β) (k : Tally) : Prop := Metered.Misses m.run k

abbrev Tallied (m : Trying α β) : Prop := Misses m 0

variable {k l : Tally}

theorem tallied_pure (b : β) : Tallied (pure b : Trying α β) := rfl

theorem tallied_throw (e : Failure) : Tallied (throw e : Trying α β) := rfl

theorem tallied_of (r : Except Failure β) : Tallied (of r : Trying α β) := rfl

theorem Misses.ask {m : Metered α β} (h : m.Misses k) : Misses (ask m) k := h.map _

theorem Misses.ask_bind {m : Metered α β} {f : β → Trying α γ} (hm : m.Misses k)
    (hf : Misses (f m.result) l) : Misses (Trying.ask m >>= f) (k + l) :=
  (hm.map Except.ok).bind hf

theorem Misses.bind_tallied {m : Trying α β} {f : β → Trying α γ} (hm : Misses m k)
    (hf : ∀ b, Tallied (f b)) : Misses (m >>= f) k := by
  refine Metered.Misses.bind_tallied hm fun r => ?_
  cases r with
  | error e => exact Metered.tallied_pure _
  | ok b => exact hf b

theorem Tallied.ite {p : Prop} [Decidable p] {m m' : Trying α β} (h : Tallied m)
    (h' : Tallied m') : Tallied (if p then m else m') := by
  split
  · exact h
  · exact h'

end Trying

end LogBarrier

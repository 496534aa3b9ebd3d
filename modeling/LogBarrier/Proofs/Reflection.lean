import LogBarrier.Proofs.Translation

/-!
# Reflections

A reflection changes the sign of some coordinates. It acts on points and gradients entry by entry,
and turns an interval around along with its variable. The reflected objective is the objective at
the reflected point, so that a problem and its reflection differ in the direction of some axes only.
On states and journals a reflection changes the points and gradients in them, and nothing else.
-/

namespace LogBarrier

variable {α σ β γ : Type} {n : Nat}

/-- The interval turned around at zero. -/
def Interval.opposite [Neg α] (I : Interval α) : Interval α := ⟨-I.upper, -I.lower⟩

/-- The barrier term of an interval that was turned around. -/
def BarrierTerm.opposite [Neg α] (t : BarrierTerm α) : BarrierTerm α := { t with slope := -t.slope }

/-- The coordinates whose sign changes. -/
structure Reflection where
  flips : Nat → Bool

namespace Reflection

variable (R : Reflection) [Neg α]

/-! ## Points and problems -/

/-- The number `t` in coordinate `i`. -/
def entry (i : Nat) (t : α) : α := if R.flips i then -t else t

def array (xs : Array α) : Array α := xs.mapIdx R.entry

def vector (x : Vector α n) : Vector α n := x.mapIdx R.entry

/-- The range of variable `i`. -/
def interval (i : Nat) (I : Interval α) : Interval α := if R.flips i then I.opposite else I

/-- The barrier term of variable `i`. -/
def term (i : Nat) (t : BarrierTerm α) : BarrierTerm α := { t with slope := R.entry i t.slope }

def box (B : Box α n) : Box α n := ⟨B.sides.mapIdx R.interval⟩

def objective (f : Objective α) : Objective α where
  value x := f.value (R.array x)
  gradient x := R.array (f.gradient (R.array x))
  product? := f.product?.map fun h x v => R.array (h (R.array x) (R.array v))

def augmented (A : Augmented α n) : Augmented α n :=
  { A with objective := R.objective A.objective, box := R.box A.box }

/-! ## Metered computations -/

def call : Call α → Call α
  | .value x => .value (R.array x)
  | .gradient x => .gradient (R.array x)
  | .product x v => .product (R.array x) (R.array v)

/-- A computation whose result `h` reflects. -/
def metered (h : β → γ) (m : Metered α β) : Metered α γ :=
  ⟨h m.result, m.calls.map R.call, m.tally⟩

def trying (h : β → γ) (m : Trying α β) : Trying α γ := ExceptT.mk (R.metered (Except.map h) m.run)

/-! ## Descent -/

def pair (p : Pair α n) : Pair α n := ⟨R.vector p.s, R.vector p.y, p.rho⟩

def window (ps : List ((n : Nat) × Pair α n)) : List ((n : Nat) × Pair α n) :=
  ps.map fun p => ⟨p.1, R.pair p.2⟩

def memory (h : LimitedMemory α) : LimitedMemory α where
  memory := h.memory
  window := R.window h.window
  memory_pos := h.memory_pos
  length_le := by
    rw [window, List.length_map]
    exact h.length_le

def trial (t : Trial α n) : Trial α n := { t with x := R.vector t.x }

def iterate (it : Iterate α n) : Iterate α n where
  x := R.vector it.x
  value := it.value
  gradient := R.vector it.gradient
  residual := R.vector it.residual
  scale := it.scale

def exit (e : Exit α (LimitedMemory α) n) : Exit α (LimitedMemory α) n :=
  { e with x := R.vector e.x, secant := e.secant.map R.memory }

def solved (r : Solved α σ (LimitedMemory α)) : Solved α σ (LimitedMemory α) :=
  { r with x := R.array r.x, secant := r.secant.map R.memory }

/-! ## Sessions -/

def state (t : State α) : State α := { t with x := R.array t.x, gradient := R.array t.gradient }

def event : Event α → Event α
  | .called c => .called (R.call c)
  | .solving tol mu kappa => .solving tol mu kappa
  | .wrote bytes => .wrote bytes
  | .opened t => .opened (R.state t)
  | .advanced t => .advanced (R.state t)
  | .logged m => .logged m

def journal (j : Journal α) : Journal α := j.map R.event

def method (M : Method α σ (LimitedMemory α)) : Method α σ (LimitedMemory α) :=
  { M with secant := M.secant.map R.memory, state := R.state M.state }

def session (s : Session α σ (LimitedMemory α) n) : Session α σ (LimitedMemory α) n where
  method := R.method s.method
  augmented := R.augmented s.augmented
  x := R.array s.x
  gradient := R.array s.gradient
  projected := R.array s.projected
  sink := s.sink
  journal := R.journal s.journal

/-- The end of an action whose answer `h` reflects. -/
def result (h : β → γ) : EStateM.Result Failure (Session α σ (LimitedMemory α) n) β →
    EStateM.Result Failure (Session α σ (LimitedMemory α) n) γ
  | .ok b s => .ok (h b) (R.session s)
  | .error e s => .error e (R.session s)

/-! ## Coordinates -/

@[simp] theorem get_vector (x : Vector α n) (i : Fin n) :
    (R.vector x).get i = R.entry i (x.get i) :=
  Vector.getElem_mapIdx i.isLt

@[simp] theorem side_box (B : Box α n) (i : Fin n) :
    (R.box B).side i = R.interval i (B.side i) :=
  Vector.getElem_mapIdx i.isLt

@[simp] theorem size_array (xs : Array α) : (R.array xs).size = xs.size := Array.size_mapIdx

@[simp] theorem toArray_vector (x : Vector α n) : (R.vector x).toArray = R.array x.toArray := rfl

theorem sized_array (xs : Array α) : sized n (R.array xs) = (sized n xs).map R.vector := by
  by_cases h : xs.size = n
  · subst h
    unfold sized
    rw [dif_pos (R.size_array xs), dif_pos rfl]
    rfl
  · rw [sized_of_ne h, sized_of_ne (by rwa [size_array])]
    rfl

/-! ## Journals -/

theorem event_eq_translate (e : Event α) : R.event e = e.translate R.call R.state id := by
  cases e <;> rfl

theorem journal_eq_translate (j : Journal α) : R.journal j = j.translate R.call R.state id :=
  congrArg (Array.map · j) (funext R.event_eq_translate)

@[simp] theorem calls_journal (j : Journal α) :
    Journal.calls (R.journal j) = (Journal.calls j).map R.call := by
  rw [journal_eq_translate, Journal.calls_translate]

@[simp] theorem snapshots_journal (j : Journal α) :
    Journal.snapshots (R.journal j) = (Journal.snapshots j).map R.state := by
  rw [journal_eq_translate, Journal.snapshots_translate]

@[simp] theorem handed_journal (j : Journal α) :
    Journal.handed (R.journal j) = Journal.handed j := by
  rw [journal_eq_translate, Journal.handed_translate]

@[simp] theorem output_journal (j : Journal α) :
    Journal.output (R.journal j) = Journal.output j := by
  rw [journal_eq_translate, Journal.output_translate]

/-! ## Rules for metered computations -/

section

variable {R} {δ ε : Type}

theorem metered_bind {h : β → γ} {h' : δ → ε} {m : Metered α β} {f : β → Metered α δ}
    {f' : γ → Metered α ε} (hf : f' (h m.result) = R.metered h' (f m.result)) :
    R.metered h m >>= f' = R.metered h' (m >>= f) := Metered.translate_bind hf

@[simp] theorem trying_pure (h : β → γ) (b : β) :
    R.trying h (pure b : Trying α β) = pure (h b) := rfl

theorem trying_ask (h : β → γ) (m : Metered α β) :
    R.trying h (Trying.ask m) = Trying.ask (R.metered h m) := Trying.translate_ask m

theorem trying_of (h : β → γ) (r : Except Failure β) :
    R.trying h (Trying.of r : Trying α β) = Trying.of (r.map h) := rfl

theorem trying_bind {h : β → γ} {h' : δ → ε} {m : Trying α β} {f : β → Trying α δ}
    {f' : γ → Trying α ε} (hf : ∀ b, m.run.result = .ok b → f' (h b) = R.trying h' (f b)) :
    R.trying h m >>= f' = R.trying h' (m >>= f) := Trying.translate_bind hf

end

end Reflection

end LogBarrier

import LogBarrier.Proofs.Course
import LogBarrier.Proofs.Defined.Secant

/-!
# Defined solves

With exact arithmetic a solve of either solver is defined, whatever requests the secant that it
borrows has served before: the search does not divide, the step lengths are defined, and what the
solver teaches the secant keeps it defined.
-/

namespace LogBarrier

open Scalar Exact

variable {n : ℕ} {F : Scalar Exact → Oracle Exact n}

/-! ## Functions -/

/-- The values and the gradients of a function are defined. -/
structure Oracle.IsDefined (F : Scalar Exact → Oracle Exact n) : Prop where
  value : Defined fun i => (F i).value
  gradient : Defined fun i => (F i).gradient

/-- Only the products may depend on the answers. -/
theorem Oracle.IsDefined.exists_product (hF : Oracle.IsDefined F) (w : Whim) :
    ∃ p, F w.scalar = { F inferInstance with product := p } := by
  have hvalue : (F w.scalar).value = (F inferInstance).value := hF.value w
  have hgradient : (F w.scalar).gradient = (F inferInstance).gradient := hF.gradient w
  exact ⟨(F w.scalar).product, by dsimp only; rw [← hvalue, ← hgradient]⟩

theorem Augmented.isDefined_oracle (A : Augmented Exact n) :
    Oracle.IsDefined fun _ => A.oracle where
  value w := by
    show @Augmented.value _ n w.scalar A = A.value
    exact funext fun x => A.defined_value x w
  gradient w := by
    show @Augmented.gradient _ n w.scalar A = A.gradient
    exact funext fun x => A.defined_gradient x w

theorem Objective.isDefined_oracle (f : Objective Exact) :
    Oracle.IsDefined fun _ => (f.oracle : Oracle Exact n) where
  value _ := by
    show (fun x : Vector Exact n => Metered.call (.value x.toArray) (f.value x.toArray)) = _
    rfl
  gradient _ := by
    show (f.gradientAt : Vector Exact n → _) = f.gradientAt
    rfl

/-! ## Searches -/

theorem LineSearch.defined_search (hF : Oracle.IsDefined F) (P : LineSearch Exact) (B : Box Exact n)
    (x : Vector Exact n) (fx : Exact) (g d : Vector Exact n) (alpha : Exact) :
    Defined fun i => P.search (F i) B x fx g d alpha := by
  intro w
  obtain ⟨p, hp⟩ := hF.exists_product w
  -- By induction on the trials that are left, each of which asks for the same value.
  have hgo (left : ℕ) (alpha last : Exact) :
      @LineSearch.go _ w.scalar n P (F w.scalar) B x fx g d left alpha last =
        P.go (F inferInstance) B x fx g d left alpha last := by
    rw [hp]
    induction left generalizing alpha last with
    | zero => rfl
    | succ left ih =>
      unfold LineSearch.go
      refine ite_congr rfl (fun _ => ?_) fun _ => ih _ _
      refine congrArg (bind _) (funext fun value => ?_)
      exact ite_congr rfl (fun _ => rfl) fun _ => ih _ _
  exact hgo _ _ _

/-! ## Iterates -/

theorem Iterate.defined_next (B : Box Exact n) (it : Iterate Exact n) (t : Trial Exact n)
    (g : Vector Exact n) : Defined fun _ => it.next B t g := by
  intro w
  exact congrArg (Iterate.mk t.x t.value g (B.residual t.x g)) (defined_spectralScale _ _ w)

theorem Iterate.defined_start (hF : Oracle.IsDefined F) (B : Box Exact n) (x : Vector Exact n) :
    Defined fun i => Iterate.start (F i) B x := by
  intro w
  obtain ⟨p, hp⟩ := hF.exists_product w
  have hscale : @initialScale _ w.scalar n = initialScale :=
    funext fun r => defined_initialScale r w
  show @Iterate.start _ w.scalar n (F w.scalar) B x = Iterate.start (F inferInstance) B x
  rw [hp]
  unfold Iterate.start
  rw [hscale]
  rfl

/-! ## Descents -/

section

variable {τ : Type}

/-- Searches and lessons are defined for the secants that satisfy `Kept`, and keep it. -/
structure Descent.IsDefined (Kept : τ → Prop) (D : Scalar Exact → Descent Exact τ n) : Prop where
  tag : ∃ tag, ∀ i, (D i).tag = tag
  search (h : Option τ) (hh : ∀ k ∈ h, Kept k) (it : Iterate Exact n) :
    Defined fun i => (D i).search h it
  learn (h : Option τ) (hh : ∀ k ∈ h, Kept k) (s y : Vector Exact n) :
    Defined fun i => (D i).learn h s y
  kept (h : Option τ) (hh : ∀ k ∈ h, Kept k) (s y : Vector Exact n) :
    ∀ k ∈ (D inferInstance).learn h s y, Kept k

variable {Kept : τ → Prop} {D : Scalar Exact → Descent Exact τ n}

theorem Descent.IsDefined.loop (hD : Descent.IsDefined Kept D) (hF : Oracle.IsDefined F)
    (B : Box Exact n) (tol : Tolerances Exact) (left done : ℕ) (it : Iterate Exact n)
    {h : Option τ} (hh : ∀ k ∈ h, Kept k) :
    Defined fun i => (D i).loop (F i) B tol left done it h := by
  intro w
  obtain ⟨p, hp⟩ := hF.exists_product w
  obtain ⟨tag, htag⟩ := hD.tag
  show @Descent.loop _ w.scalar n τ (D w.scalar) (F w.scalar) B tol left done it h =
    (D inferInstance).loop (F inferInstance) B tol left done it h
  -- By induction on what is left: up to the lesson both loops do the same, and the lesson keeps the
  -- secant among those for which they go on to do so.
  induction left generalizing done it h with
  | zero => rfl
  | succ left ih =>
    have hsearch : (D w.scalar).search h it = (D inferInstance).search h it := hD.search h hh it w
    unfold Descent.loop
    refine ite_congr rfl (fun _ => rfl) fun _ => ?_
    rw [hsearch, htag, htag, hp]
    refine congrArg (bind _) (funext fun r => ?_)
    cases r with
    | error e => rfl
    | ok t =>
      refine ite_congr rfl (fun _ => rfl) fun _ => ?_
      refine congrArg (bind _) (funext fun r => ?_)
      cases r with
      | error e => rfl
      | ok g =>
        have hlearn : (D w.scalar).learn h (t.x - it.x) (g - it.gradient) =
            (D inferInstance).learn h (t.x - it.x) (g - it.gradient) := hD.learn h hh _ _ w
        have hnext : @Iterate.next _ w.scalar n B it t g = it.next B t g := it.defined_next B t g w
        have hkept := hD.kept h hh (t.x - it.x) (g - it.gradient)
        have hloop := ih (done + 1) (it.next B t g) hkept
        rw [hp] at hloop
        dsimp only
        rw [hlearn, hnext]
        exact ite_congr rfl (fun _ => rfl) fun _ => hloop

theorem Descent.IsDefined.solve (hD : Descent.IsDefined Kept D) (hF : Oracle.IsDefined F)
    (B : Box Exact n) (tol : Tolerances Exact) (x : Vector Exact n) {h : Option τ}
    (hh : ∀ k ∈ h, Kept k) : Defined fun i => (D i).solve (F i) B tol x h := by
  intro w
  have hstart : @Iterate.start _ w.scalar n (F w.scalar) B (B.project x) =
      Iterate.start (F inferInstance) B (B.project x) := Iterate.defined_start hF B _ w
  show @Descent.solve _ w.scalar n τ (D w.scalar) (F w.scalar) B tol x h =
    (D inferInstance).solve (F inferInstance) B tol x h
  refine congrArg₂ bind hstart (funext fun r => ?_)
  cases r with
  | error e => rfl
  | ok it => exact hD.loop hF B tol tol.maxIterations 0 it hh w

end

/-! ## The two solvers -/

section

variable {P : LineSearch Exact} {B : Box Exact n}

theorem spectral_isDefined (hF : Oracle.IsDefined F) (Kept : LimitedMemory Exact → Prop) :
    Descent.IsDefined Kept fun i =>
      (.spectral P (F i) B : Descent Exact (LimitedMemory Exact) n) where
  tag := ⟨_, fun _ => rfl⟩
  search _ _ it w :=
    congrArg Trying.ask (P.defined_search hF B it.x it.value it.gradient _ 1 w)
  learn _ _ _ _ _ := rfl
  kept _ hh _ _ := hh

/-- The direction of a secant of positive pairs. -/
theorem defined_secantDirection? (B : Box Exact n) {h : Option (LimitedMemory Exact)}
    (hh : ∀ k ∈ h, k.Positive) (it : Iterate Exact n) :
    Defined fun _ => secantDirection? B it h := by
  intro w
  cases h with
  | none => rfl
  | some k =>
    have happly := (hh k rfl).defined_apply (B.freePart it.x it.gradient it.gradient) w
    refine ite_congr rfl (fun _ => rfl) fun _ => ?_
    exact congrArg (Except.map _) happly

theorem defined_quasiNewtonSearch (hF : Oracle.IsDefined F) {h : Option (LimitedMemory Exact)}
    (hh : ∀ k ∈ h, k.Positive) (it : Iterate Exact n) :
    Defined fun i => quasiNewtonSearch P (F i) B h it := by
  intro w
  have hdirection : @secantDirection? _ _ w.scalar n (@LimitedMemory.instSecant _ w.scalar) B it h =
      secantDirection? B it h := defined_secantDirection? B hh it w
  have hsearch (d : Vector Exact n) :
      @LineSearch.search _ w.scalar n P (F w.scalar) B it.x it.value it.gradient d 1 =
        P.search (F inferInstance) B it.x it.value it.gradient d 1 :=
    P.defined_search hF B it.x it.value it.gradient d 1 w
  show (do
    let secant ← Trying.of
      (@secantDirection? _ _ w.scalar n (@LimitedMemory.instSecant _ w.scalar) B it h)
    let first := secant.getD (-it.scale * B.freePart it.x it.gradient it.gradient)
    let t ← Trying.ask
      (@LineSearch.search _ w.scalar n P (F w.scalar) B it.x it.value it.gradient first 1)
    if t.accepted then return t
    else Trying.ask (@LineSearch.search _ w.scalar n P (F w.scalar) B it.x it.value it.gradient
      (-it.scale * it.gradient) 1)) = _
  rw [hdirection]
  simp only [hsearch]
  rfl

theorem quasiNewton_isDefined (hF : Oracle.IsDefined F) :
    Descent.IsDefined LimitedMemory.Positive fun i =>
      (.quasiNewton P (F i) B : Descent Exact (LimitedMemory Exact) n) where
  tag := ⟨_, fun _ => rfl⟩
  search _ hh it := defined_quasiNewtonSearch hF hh it
  learn h _ s y w := by
    cases h with
    | none => rfl
    | some k => exact congrArg some (k.defined_update s y w)
  kept h hh s y := by
    intro k' hk'
    obtain ⟨k, hk, rfl⟩ := Option.map_eq_some_iff.mp hk'
    exact (hh k hk).update s y

/-- The name of a solver depends on its kind alone. -/
theorem SolverChoice.exists_name (c : SolverChoice) :
    ∃ name, ∀ (_ : Scalar Exact) (o : Options Exact),
      (c.solver o : Solver Exact Unit (LimitedMemory Exact)).name = name := by
  cases c with
  | spectral => exact ⟨_, fun _ _ => rfl⟩
  | quasiNewton => exact ⟨_, fun _ _ => rfl⟩

/-- A solve with a secant of positive pairs. -/
theorem SolverChoice.defined_solve (c : SolverChoice) (o : Options Exact)
    (hF : Oracle.IsDefined F) (B : Box Exact n) (tol : Tolerances Exact) (x : Vector Exact n)
    {h : Option (LimitedMemory Exact)} (hh : ∀ k ∈ h, k.Positive) :
    Defined fun i => (c.solver o).solve (F i) B tol x () h := by
  intro w
  cases c with
  | spectral =>
    exact congrArg (bind · _) ((spectral_isDefined hF _).solve hF B tol x hh w)
  | quasiNewton =>
    exact congrArg (bind · _) ((quasiNewton_isDefined hF).solve hF B tol x hh w)

end

/-! ## What a solve teaches -/

section

variable {α τ : Type} [Scalar α] {F : Oracle α n} {B : Box α n} {x : Vector α n} {h k : Option τ}
  {Kept : τ → Prop}

/-- What every lesson keeps true of a secant, the course of a solve keeps true. -/
theorem Descent.Visits.kept {D : Descent α τ n}
    (hlearn : ∀ k, (∀ j ∈ k, Kept j) → ∀ s y, ∀ j ∈ D.learn k s y, Kept j)
    {earlier : List (Iterate α n)} {it : Iterate α n} (hvisits : D.Visits F B x h earlier it k)
    (hh : ∀ j ∈ h, Kept j) : ∀ j ∈ k, Kept j := by
  induction hvisits with
  | start => exact hh
  | step _ _ _ _ ih => exact hlearn _ ih _ _

variable [Secant α τ]

theorem SolverChoice.kept_learn
    (hkept : ∀ k, Kept k → ∀ s y : Vector α n, Kept (Secant.update k s y)) (c : SolverChoice)
    (o : Options α) (F : Oracle α n) (B : Box α n) (hk : ∀ j ∈ k, Kept j) (s y : Vector α n) :
    ∀ j ∈ (c.descent o F B).learn k s y, Kept j := by
  cases c with
  | spectral => exact hk
  | quasiNewton =>
    intro j hj
    obtain ⟨i, hi, rfl⟩ := Option.map_eq_some_iff.mp hj
    exact hkept i (hk i hi) s y

/-- What every update keeps true of a secant, a solve keeps true. -/
theorem SolverChoice.kept_solve
    (hkept : ∀ k, Kept k → ∀ s y : Vector α n, Kept (Secant.update k s y)) (c : SolverChoice)
    (o : Options α) (F : Oracle α n) (B : Box α n) (tol : Tolerances α) (x : Vector α n)
    (hh : ∀ k ∈ h, Kept k) :
    ∀ k ∈ ((c.solver o).solve F B tol x () h).result.secant, Kept k := by
  have hleaves := (c.descent o F B).solve_leaves F B tol x h
  rw [solve_result]
  generalize ((c.descent o F B).solve F B tol x h).result = e at hleaves ⊢
  cases hleaves with
  | unstarted => exact hh
  | halted hvisits => exact hvisits.kept (fun _ => c.kept_learn hkept o F B) hh

end

end LogBarrier

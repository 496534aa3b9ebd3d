import LogBarrier.Proofs.Account
import LogBarrier.Proofs.Defined.Lengths
import LogBarrier.Proofs.Defined.Run

/-!
# Within their domains

Division, the logarithm and the componentwise operations on vectors are partial. With exact
arithmetic neither a run nor any of the functions that it is made of applies one of them outside its
domain: all their results are defined, and no vectors of different lengths meet. A quotient is
defined exactly if its divisor is not zero, a logarithm exactly if its argument is positive.
-/

namespace LogBarrier

open Scalar Exact

variable {n : ℕ}

/-! ## The parts -/

/-- The step lengths, the barrier and the differences divide only by what is not zero, and the
barrier takes logarithms of positive numbers only. -/
structure DefinedFunctions (n : ℕ) : Prop where
  /-- The guard of the quotient keeps its divisor from being zero. -/
  spectralScale (s y : Vector Exact n) : (Defined fun _ => spectralScale s y) ∧
    (¬ (dot s y ≤ 0 ∨ ¬ IsFinite (dot s y)) → dot s y ≠ 0)
  initialScale (r : Vector Exact n) : (Defined fun _ => initialScale r) ∧
    (0 < maxAbs r → maxAbs r ≠ 0)
  /-- A term of the barrier takes the logarithms of the distances to the finite ends and divides by
  these distances and by their squares. A fixed variable has a constant term. -/
  barrierTerm (k : Exact) (I : Interval Exact) (x : Exact) : (Defined fun _ => I.barrier? k x) ∧
    ∀ t, I.barrier? k x = some t → ¬ I.IsFixed →
      (IsFinite I.lower → (x - I.lower).InDomain) ∧ (IsFinite I.upper → (I.upper - x).InDomain)
  barrier (A : Augmented Exact n) (x : Array Exact) : Defined fun _ => A.barrierAt x
  barrierSlopes (A : Augmented Exact n) (x : Array Exact) : Defined fun _ => A.barrierSlopesAt x
  barrierCurvatures (A : Augmented Exact n) (x : Array Exact) :
    Defined fun _ => A.barrierCurvaturesAt x
  /-- A difference along a real vector divides by the norm of that vector and by the step. -/
  difference (gradient : Scalar Exact → Vector Exact n → Trying Exact (Array Exact))
    (hgradient : Defined gradient) (x v : Vector Exact n) (hv : AllFinite v) :
    (Defined fun i => forwardDifference (gradient i) x v.toArray) ∧
      (¬ Same (norm v) 0 → 0 < norm v ∧ 0 < differenceStep x (norm v))
  product (f : Objective Exact) (x v : Vector Exact n) (hv : AllFinite v) :
    Defined fun _ => f.productAt x v.toArray
  augmentedProduct (A : Augmented Exact n) (x v : Vector Exact n) (hv : AllFinite v) :
    Defined fun _ => A.product x v.toArray
  differenceLength (gradient : Vector Exact n → Trying Exact (Array Exact))
    (hgradient : GradientFits gradient) (x v : Vector Exact n) :
    ∃ d : Vector Exact n, (forwardDifference gradient x v.toArray).run.result = .ok d.toArray

/-- After any requests with vectors of length `n`, a limited memory divides only by the products
that are listed here, and it can be applied to all vectors of that length. -/
structure DefinedMemory (n : ℕ) : Prop where
  requests (m : ℕ) (rs : List (Request Exact)) : Defined fun _ => LimitedMemory.after m rs
  fits (m : ℕ) (rs : List (Request Exact)) (hrs : ∀ r ∈ rs, r.OfLength n) :
    (LimitedMemory.after m rs).Fits n
  update (h : LimitedMemory Exact) (s y : Vector Exact n) : Defined fun _ => Secant.update h s y
  accepted (s y : Vector Exact n) (p : Pair Exact n) (hp : Pair.of? s y = some p) : 0 < dot s y
  divisors (h : LimitedMemory Exact) (hh : h.Fits n) : ∀ p ∈ h.window,
    ∃ q : Pair Exact n, p = ⟨n, q⟩ ∧ 0 < dot q.s q.y ∧ 0 < dot q.y q.y
  apply (h : LimitedMemory Exact) (hh : h.Fits n) (v : Vector Exact n) :
    (Defined fun _ => Secant.apply h v) ∧ ∃ u, Secant.apply h v = .ok u

/-- What a solver of the kind `c` does with functions of `n` variables, where `F` is the function
for each way to answer outside the domains. -/
structure DefinedSolver (c : SolverChoice) (o : Options Exact) (n : ℕ) : Prop where
  search (F : Scalar Exact → Oracle Exact n) (hF : Oracle.IsDefined F) (P : LineSearch Exact)
    (B : Box Exact n) (x : Vector Exact n) (fx : Exact) (g d : Vector Exact n) (alpha : Exact) :
    Defined fun i => P.search (F i) B x fx g d alpha
  solve (F : Scalar Exact → Oracle Exact n) (hF : Oracle.IsDefined F) (B : Box Exact n)
    (tol : Tolerances Exact) (x : Vector Exact n) (h : Option (LimitedMemory Exact))
    (hh : ∀ k ∈ h, k.Fits n) : Defined fun i => (c.solver o).solve (F i) B tol x () h
  objective (f : Objective Exact) : Oracle.IsDefined fun _ => (f.oracle : Oracle Exact n)
  augmented (A : Augmented Exact n) : Oracle.IsDefined fun _ => A.oracle
  /-- The secant that a solve comes to fits as the one that it was lent. -/
  visited (F : Oracle Exact n) (B : Box Exact n) (x : Vector Exact n)
    (h : Option (LimitedMemory Exact)) (hh : ∀ k ∈ h, k.Fits n) (earlier : List (Iterate Exact n))
    (it : Iterate Exact n) (k : Option (LimitedMemory Exact))
    (hvisits : (c.descent o F B).Visits F B x h earlier it k) : ∀ j ∈ k, j.Fits n
  fails (F : Oracle Exact n) (hF : GradientFits F.gradient) (B : Box Exact n)
    (tol : Tolerances Exact) (x : Vector Exact n) (h : Option (LimitedMemory Exact))
    (hh : ∀ k ∈ h, k.Fits n) (e : Failure)
    (he : ((c.solver o).solve F B tol x () h).result.outcome = .error e) : e.IsError

/-- What runs of the method on `f` do, but for its solver, which is a function. -/
structure DefinedRun [Numeral Exact] (c : SolverChoice) (o : Options Exact)
    (M : Method Exact Unit (LimitedMemory Exact)) (f : Objective Exact) (B : Box Exact n)
    (x g : Array Exact) (k : Sink) : Prop where
  objective : GradientFits (f.gradientAt : Vector Exact n → _)
  augmented (A : Augmented Exact n) (hA : A.objective = f) : GradientFits A.oracle.gradient
  run (S : Solver Exact Unit (LimitedMemory Exact)) : Defined fun _ =>
    Session.onEnd (Session.withSolver S) ((M.withSolver (c.solver o) ()).run f B x g k)
  reached (i : ℕ) (t : Session Exact Unit (LimitedMemory Exact) n)
    (ht : ((M.withSolver (c.solver o) ()).session f B x g k).GetsTo i t) :
    ∀ h ∈ t.method.secant, h.Fits n
  fails (e : Failure) (t : Session Exact Unit (LimitedMemory Exact) n)
    (ht : (M.withSolver (c.solver o) ()).run f B x g k = .error e t) : e.IsError

/-! ## Proofs -/

theorem definedFunctions (n : ℕ) : DefinedFunctions n where
  spectralScale s y := ⟨defined_spectralScale s y, dot_ne_zero_of_scaled⟩
  initialScale r := ⟨defined_initialScale r, Whim.ne_zero_of_pos⟩
  barrierTerm k I x :=
    ⟨I.defined_barrier? k x, fun _ ht hI => Interval.inDomain_of_barrier? ht hI⟩
  barrier := Augmented.defined_barrierAt
  barrierSlopes := Augmented.defined_barrierSlopesAt
  barrierCurvatures := Augmented.defined_barrierCurvaturesAt
  difference _ hgradient x v hv := by
    refine ⟨defined_forwardDifference hgradient x ((allFinite_toVector v).mpr hv), fun hne => ?_⟩
    obtain ⟨r, hnorm, hpos⟩ := exists_norm_pos hv hne
    rw [hnorm]
    exact ⟨zero_lt_real.mpr hpos, differenceStep_pos x hpos⟩
  product f x v hv := f.defined_productAt x ((allFinite_toVector v).mpr hv)
  augmentedProduct A x v hv := A.defined_product x ((allFinite_toVector v).mpr hv)
  differenceLength _ hgradient := exists_forwardDifference hgradient

theorem definedMemory (n : ℕ) : DefinedMemory n where
  requests := LimitedMemory.defined_after
  fits m _ hrs := LimitedMemory.fits_after m hrs
  update := LimitedMemory.defined_update
  accepted _ _ _ hp := (Pair.suffices_of_eq_some hp).dot_pos
  divisors _ hh := by
    rintro ⟨m, q⟩ hp
    obtain ⟨rfl, hq⟩ := hh ⟨m, q⟩ hp
    exact ⟨q, rfl, hq.dot_pos, hq.dot_self_pos⟩
  apply _ hh v := ⟨hh.positive.defined_apply v, hh.exists_apply v⟩

theorem definedSolver (c : SolverChoice) (o : Options Exact) (n : ℕ) : DefinedSolver c o n where
  search _ hF P := P.defined_search hF
  solve _ hF B tol x _ hh := c.defined_solve o hF B tol x fun k hk => (hh k hk).positive
  objective := Objective.isDefined_oracle
  augmented := Augmented.isDefined_oracle
  visited F B _ _ hh _ _ _ hvisits :=
    hvisits.kept (fun _ => c.kept_learn (fun _ hk s y => hk.update s y) o F B) hh
  fails _ hF _ tol _ _ hh _ he := c.isError_of_solve hF o tol hh he

theorem definedRun [Numeral Exact] (c : SolverChoice) (o : Options Exact)
    (M : Method Exact Unit (LimitedMemory Exact)) {f : Objective Exact} (hf : f.FitsLength n)
    (B : Box Exact n) (x g : Array Exact) (k : Sink) : DefinedRun c o M f B x g k := by
  have hfits : ((M.withSolver (c.solver o) ()).session f B x g k).Fits c o := by
    refine ⟨rfl, hf, fun h hh => ?_⟩
    -- A run begins with a secant that has been emptied.
    obtain ⟨h, -, rfl⟩ := Option.map_eq_some_iff.mp hh
    exact h.fits_clear n
  exact {
    objective := hf.gradientAt
    augmented := fun _ hA => Augmented.gradientFits (hA ▸ hf)
    run := c.defined_run o M f B x g k
    reached := fun _ _ ht => (hfits.getsTo ht).secant
    fails := fun _ _ ht => hfits.failsWithError_run.of_error ht }

/-- With exact arithmetic nothing that a method made from valid options does applies a partial
operation outside its domain, and no run of it fails but with an error for the caller. The runs may
be those of any method `N` with this solver, whatever it has done before. -/
theorem Method.within_domains [Numeral Exact] {o : Options Exact}
    {M : Method Exact Unit (LimitedMemory Exact)} (hM : ofOptions o = .ok M)
    {f : Objective Exact} (hf : f.FitsLength n) (B : Box Exact n) :
    DefinedFunctions n ∧ DefinedMemory n ∧
      ∃ c, o.choice = .ok c ∧ M.withSolver (c.solver o) () = M ∧ DefinedSolver c o n ∧
        ∀ N x g k, DefinedRun c o N f B x g k := by
  obtain ⟨-, c, secant, hchoice, -, rfl⟩ := ofOptions_eq_ok hM
  exact ⟨definedFunctions n, definedMemory n, c, hchoice, rfl, definedSolver c o n,
    fun N x g k => definedRun c o N hf B x g k⟩

/-- The default method, on the objective that falls to the right of the unit interval. -/
theorem Method.within_domains_falling :
    letI := Exact.unwritten
    ofOptions (.standard : Options Exact) = .ok standard ∧
      Objective.falling.FitsLength 1 ∧
      DefinedFunctions 1 ∧ DefinedMemory 1 ∧
      ∃ c, (.standard : Options Exact).choice = .ok c ∧
        standard.withSolver (c.solver .standard) () = standard ∧
        DefinedSolver c .standard 1 ∧
        ∀ N x g k, DefinedRun c .standard N .falling Box.unit x g k :=
  letI := Exact.unwritten
  have hf : Objective.falling.FitsLength 1 := fun x => Array.size_replicate.trans x.size_toArray
  ⟨ofOptions_standard, hf, within_domains ofOptions_standard hf .unit⟩

end LogBarrier

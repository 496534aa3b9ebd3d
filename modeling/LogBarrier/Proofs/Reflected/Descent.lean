import LogBarrier.Proofs.Course
import LogBarrier.Proofs.Reflected.Barrier
import LogBarrier.Proofs.Wording

/-!
# Reflected descent

Both solvers take a reflected problem by the reflected course: step lengths, tests and secant
coefficients are made of inner products and norms, trials are projected to the reflected box, and
the variables that are held are the same ones.
-/

namespace LogBarrier

open Scalar Exact

variable {n : ℕ}

namespace Reflection

variable (R : Reflection) {F F' : Oracle Exact n} {B : Box Exact n} {x : Vector Exact n}

/-! ## Line search -/

section

variable (hF : R.Reflects F F') (hB : ∀ i : Fin n, ¬ (B.side i).IsEmpty)

include hB in
theorem arc_vector (x d : Vector Exact n) (alpha : Exact) :
    LineSearch.arc (R.box B) (R.vector x) (R.vector d) alpha =
      R.vector (LineSearch.arc B x d alpha) := by
  unfold LineSearch.arc
  rw [← vector_mul, ← vector_add, R.project_vector hB]

include hF hB in
theorem go_reflected (P : LineSearch Exact) (x : Vector Exact n) (fx : Exact)
    (g d : Vector Exact n) (left : ℕ) (alpha last : Exact) :
    P.go F' (R.box B) (R.vector x) fx (R.vector g) (R.vector d) left alpha last =
      R.metered R.trial (P.go F B x fx g d left alpha last) := by
  induction left generalizing alpha last with
  | zero =>
    unfold LineSearch.go
    rw [R.arc_vector hB]
    rfl
  | succ left ih =>
    unfold LineSearch.go
    dsimp only
    rw [R.arc_vector hB, ← vector_sub, norm_vector, dot_vector]
    split
    · rw [hF.value]
      refine metered_bind ?_
      dsimp only [id]
      split
      · rfl
      · exact ih ..
    · exact ih ..

include hF hB in
theorem search_reflected (P : LineSearch Exact) (x : Vector Exact n) (fx : Exact)
    (g d : Vector Exact n) (alpha : Exact) :
    P.search F' (R.box B) (R.vector x) fx (R.vector g) (R.vector d) alpha =
      R.metered R.trial (P.search F B x fx g d alpha) :=
  R.go_reflected hF hB ..

end

/-! ## Secants -/

section

variable (s y v : Vector Exact n) (h : LimitedMemory Exact)

theorem of?_vector : Pair.of? (R.vector s) (R.vector y) = (Pair.of? s y).map R.pair := by
  unfold Pair.of?
  dsimp only
  rw [dot_vector, norm_vector, norm_vector]
  split <;> rfl

theorem recur_vector (gamma : Exact) (ps : List (Pair Exact n)) (q : Vector Exact n) :
    Pair.recur gamma (ps.map R.pair) (R.vector q) = R.vector (Pair.recur gamma ps q) := by
  induction ps generalizing q with
  | nil => exact (R.vector_mul q gamma).symm
  | cons p older ih =>
    rw [List.map_cons, Pair.recur, Pair.recur]
    have ha : (R.pair p).rho * dot (R.pair p).s (R.vector q) = p.rho * dot p.s q :=
      congrArg (p.rho * ·) (R.dot_vector p.s q)
    rw [ha]
    have hstep : R.vector q - p.rho * dot p.s q * (R.pair p).y =
        R.vector (q - p.rho * dot p.s q * p.y) := by
      rw [vector_sub, vector_mul]
      rfl
    rw [hstep, ih]
    have hb (r : Vector Exact n) : (R.pair p).rho * dot (R.pair p).y (R.vector r) =
        p.rho * dot p.y r := congrArg (p.rho * ·) (R.dot_vector p.y r)
    rw [hb, vector_add, vector_mul]
    rfl

theorem scale_pairs (ps : List (Pair Exact n)) : Pair.scale (ps.map R.pair) = Pair.scale ps := by
  cases ps with
  | nil => rfl
  | cons p older =>
    show dot (R.vector p.s) (R.vector p.y) / dot (R.vector p.y) (R.vector p.y) = _
    rw [dot_vector, dot_vector]
    rfl

theorem apply_pairs (ps : List (Pair Exact n)) :
    Pair.apply (ps.map R.pair) (R.vector v) = R.vector (Pair.apply ps v) := by
  unfold Pair.apply
  rw [scale_pairs, recur_vector]

theorem memory_ext {h k : LimitedMemory Exact} (hmemory : h.memory = k.memory)
    (hwindow : h.window = k.window) : h = k := by
  cases h
  cases k
  cases hmemory
  cases hwindow
  rfl

theorem pairs?_memory (n : ℕ) : (R.memory h).pairs? n = (h.pairs? n).map (List.map R.pair) := by
  unfold LimitedMemory.pairs? memory window
  dsimp only
  induction h.window with
  | nil => rfl
  | cons p ps ih =>
    rw [List.map_cons, List.mapM_cons, List.mapM_cons, ih]
    obtain ⟨m, p⟩ := p
    by_cases hm : m = n
    · subst hm
      rw [dif_pos rfl, dif_pos rfl]
      generalize (List.mapM _ ps : Option (List (Pair Exact m))) = rest
      cases rest <;> rfl
    · rw [dif_neg hm, dif_neg hm]
      rfl

theorem room_memory : (R.memory h).room = R.window h.room := by
  unfold LimitedMemory.room
  have hlength : (R.memory h).window.length = h.window.length := List.length_map ..
  have hmemory : (R.memory h).memory = h.memory := rfl
  rw [hlength, hmemory]
  by_cases hfull : h.window.length = h.memory
  · rw [if_pos hfull, if_pos hfull]
    exact (List.map_tail ..).symm
  · rw [if_neg hfull, if_neg hfull]
    rfl

theorem push_memory (p : Pair Exact n) : (R.memory h).push (R.pair p) = R.memory (h.push p) := by
  refine memory_ext rfl ?_
  show (R.memory h).room ++ [⟨n, R.pair p⟩] = R.window (h.room ++ [⟨n, p⟩])
  rw [room_memory, window, window, List.map_append]
  rfl

theorem update_memory :
    Secant.update (R.memory h) (R.vector s) (R.vector y) = R.memory (Secant.update h s y) := by
  unfold Secant.update LimitedMemory.instSecant
  dsimp only
  rw [of?_vector]
  cases Pair.of? s y with
  | none => rfl
  | some p => exact R.push_memory h p

theorem apply_memory :
    Secant.apply (R.memory h) (R.vector v) = (Secant.apply h v).map R.vector := by
  unfold Secant.apply LimitedMemory.instSecant
  dsimp only
  rw [pairs?_memory]
  cases h.pairs? n with
  | none => rfl
  | some ps =>
    show Except.ok (Pair.apply (ps.map R.pair).reverse (R.vector v)) = _
    rw [← List.map_reverse, apply_pairs]
    rfl

theorem count_memory : Secant.count (R.memory h) = Secant.count h := List.length_map ..

theorem secantDirection?_reflected (B : Box Exact n) (it : Iterate Exact n)
    (h : Option (LimitedMemory Exact)) :
    secantDirection? (R.box B) (R.iterate it) (h.map R.memory) =
      (secantDirection? B it h).map (Option.map R.vector) := by
  cases h with
  | none => rfl
  | some h =>
    show (if Secant.count (R.memory h) = 0 then _ else _) = Except.map _ (if _ then _ else _)
    rw [count_memory]
    split
    · rfl
    have hfree (v : Vector Exact n) : (R.box B).freePart (R.iterate it).x
        (R.iterate it).gradient (R.vector v) = R.vector (B.freePart it.x it.gradient v) :=
      R.freePart_vector ..
    have hgradient : (R.iterate it).gradient = R.vector it.gradient := rfl
    rw [hgradient] at hfree ⊢
    rw [hfree, apply_memory]
    cases Secant.apply h (B.freePart it.x it.gradient it.gradient) with
    | error e => rfl
    | ok v =>
      show Except.ok (if _ then _ else _) = Except.ok (Option.map _ (if _ then _ else _))
      rw [← vector_neg, hfree, dot_vector]
      split <;> rfl

end

/-! ## Evaluation -/

section

variable (hF : R.Reflects F F') (hB : ∀ i : Fin n, ¬ (B.side i).IsEmpty)

include hF

theorem finiteValue_reflected (x : Vector Exact n) :
    finiteValue F' (R.vector x) = R.trying id (finiteValue F x) := by
  unfold finiteValue
  rw [hF.value, ← trying_ask]
  refine trying_bind fun v _ => ?_
  dsimp only [id]
  split <;> rfl

theorem finiteGradient_reflected (hx : IsFinite (F.value x).result) :
    finiteGradient F' (R.vector x) = R.trying R.vector (finiteGradient F x) := by
  unfold finiteGradient
  rw [hF.gradient hx]
  refine trying_bind fun g _ => ?_
  by_cases hg : AllFinite g.toVector
  · rw [if_pos hg, if_pos (R.allFinite_array_iff.mpr hg), sized_array, trying_of]
  · rw [if_neg hg, if_neg (mt R.allFinite_array_iff.mp hg)]
    rfl

include hB in
theorem start_reflected (x : Vector Exact n) :
    Iterate.start F' (R.box B) (R.vector x) = R.trying R.iterate (Iterate.start F B x) := by
  unfold Iterate.start
  rw [R.finiteValue_reflected hF]
  refine trying_bind fun v hv => ?_
  obtain ⟨rfl, hfinite⟩ := finiteValue_eq_ok_iff.mp hv
  rw [R.finiteGradient_reflected hF hfinite]
  refine trying_bind fun g _ => ?_
  dsimp only
  rw [R.residual_vector hB]
  unfold initialScale
  rw [maxAbs_vector]
  rfl

end

theorem stationary_iterate {gtol : Exact} {it : Iterate Exact n} :
    (R.iterate it).Stationary gtol ↔ it.Stationary gtol := by
  unfold Iterate.Stationary
  rw [← R.norm_vector it.residual]
  rfl

theorem next_iterate (hB : ∀ i : Fin n, ¬ (B.side i).IsEmpty) (it : Iterate Exact n)
    (t : Trial Exact n) (g : Vector Exact n) :
    (R.iterate it).next (R.box B) (R.trial t) (R.vector g) = R.iterate (it.next B t g) := by
  have hscale : spectralScale (R.vector t.x - R.vector it.x) (R.vector g - R.vector it.gradient) =
      spectralScale (t.x - it.x) (g - it.gradient) := by
    unfold spectralScale
    rw [← vector_sub, ← vector_sub, dot_vector, dot_vector]
  unfold Iterate.next iterate
  congr 1
  exact R.residual_vector hB t.x g

/-! ## Descent -/

/-- The descent `D'` does to reflected iterates what `D` does to iterates. -/
structure Follows (D D' : Descent Exact (LimitedMemory Exact) n) : Prop where
  tag : D'.tag = D.tag
  search (h : Option (LimitedMemory Exact)) (it : Iterate Exact n) :
    D'.search (h.map R.memory) (R.iterate it) = R.trying R.trial (D.search h it)
  learn (h : Option (LimitedMemory Exact)) (s y : Vector Exact n) :
    D'.learn (h.map R.memory) (R.vector s) (R.vector y) = (D.learn h s y).map R.memory

/-- What the words of a descent mean in the mirror. -/
noncomputable def wording : Wording Exact (LimitedMemory Exact) n n :=
  ⟨R.call, R.vector, Option.map R.memory, id⟩

theorem exit_wording (e : Exit Exact (LimitedMemory Exact) n) : R.wording.exit e = R.exit e := by
  unfold Wording.exit exit
  rw [show e.notes.map R.wording.message = e.notes from List.map_id _]
  rfl

section

variable (hF : R.Reflects F F') (hB : ∀ i : Fin n, ¬ (B.side i).IsEmpty)

include hF hB

theorem follows_spectral (P : LineSearch Exact) :
    R.Follows (.spectral P F B) (.spectral P F' (R.box B)) where
  tag := rfl
  search h it := by
    have hdirection : spectralDirection (R.box B) (R.iterate it) =
        R.vector (spectralDirection B it) := by
      unfold spectralDirection
      rw [vector_sub, ← R.project_vector hB, vector_sub, vector_mul]
      rfl
    show Trying.ask (P.search F' (R.box B) (R.vector it.x) it.value (R.vector it.gradient)
      (spectralDirection (R.box B) (R.iterate it)) 1) = _
    rw [hdirection, R.search_reflected hF hB, ← trying_ask]
    rfl
  learn h s y := rfl

theorem follows_quasiNewton (P : LineSearch Exact) :
    R.Follows (.quasiNewton P F B) (.quasiNewton P F' (R.box B)) where
  tag := rfl
  search h it := by
    have hsearch (d : Vector Exact n) :
        Trying.ask (P.search F' (R.box B) (R.iterate it).x (R.iterate it).value
          (R.iterate it).gradient (R.vector d) 1) =
        R.trying R.trial (Trying.ask (P.search F B it.x it.value it.gradient d 1)) := by
      rw [trying_ask, ← R.search_reflected hF hB]
      rfl
    have hplain : -(R.iterate it).scale * (R.iterate it).gradient =
        R.vector (-it.scale * it.gradient) := (R.vector_mul ..).symm
    show quasiNewtonSearch P F' (R.box B) (h.map R.memory) (R.iterate it) =
      R.trying R.trial (quasiNewtonSearch P F B h it)
    unfold quasiNewtonSearch
    rw [secantDirection?_reflected, ← trying_of]
    refine trying_bind fun d? _ => ?_
    have hfirst : (Option.map R.vector d?).getD (-(R.iterate it).scale *
          (R.box B).freePart (R.iterate it).x (R.iterate it).gradient (R.iterate it).gradient) =
        R.vector (d?.getD (-it.scale * B.freePart it.x it.gradient it.gradient)) := by
      cases d? with
      | some d => rfl
      | none =>
        show -it.scale * (R.box B).freePart (R.vector it.x) (R.vector it.gradient)
          (R.vector it.gradient) = _
        rw [freePart_vector, ← vector_mul]
        rfl
    dsimp only
    rw [hfirst, hplain, hsearch, hsearch]
    refine trying_bind fun t _ => ?_
    show (if t.accepted = true then _ else _) = R.trying _ (if t.accepted = true then _ else _)
    split <;> rfl
  learn h s y := by
    cases h with
    | none => rfl
    | some h => exact congrArg some (R.update_memory s y h)

variable {D D' : Descent Exact (LimitedMemory Exact) n} {P : LineSearch Exact}

variable {R} in
theorem Follows.wording (hD : R.Follows D D') (hsearches : D.Searches P F B) :
    R.wording.Follows (fun _ => True) F B D F' (R.box B) D' where
  failed done := congrArg (Message.searchFailed · done) hD.tag.symm
  stationary _ := R.stationary_iterate
  search h _ := hD.search h _
  gradient {it h t} _ ht := by
    -- The value at an accepted trial is finite, so the gradients there can be compared.
    have htrial := hsearches h it t ht.1 ht.2
    refine R.finiteGradient_reflected hF ?_
    rw [htrial.value_at]
    exact htrial.value_finite
  length _ _ := by
    show norm (R.vector _ - R.vector _) = _
    rw [← vector_sub, norm_vector]
  next _ _ _ := R.next_iterate hB ..
  learn _ _ _ := by
    show D'.learn _ (R.vector _ - R.vector _) (R.vector _ - R.vector _) = _
    rw [← vector_sub, ← vector_sub]
    exact hD.learn ..
  good _ _ _ := trivial

theorem solve_reflected (hD : R.Follows D D') (hsearches : D.Searches P F B)
    (tol : Tolerances Exact) (x : Vector Exact n) (h : Option (LimitedMemory Exact)) :
    D'.solve F' (R.box B) tol (R.vector x) (h.map R.memory) =
      R.metered R.exit (D.solve F B tol x h) := by
  rw [← funext R.exit_wording]
  exact (hD.wording hF hB hsearches).solve (R.project_vector hB x) (R.start_reflected hF hB _)
    (fun _ _ => trivial) tol h

/-- Both solvers of the library, with the secant of the library. -/
theorem solver_reflected (c : SolverChoice) (o : Options Exact) (tol : Tolerances Exact)
    (x : Vector Exact n) (h : Option (LimitedMemory Exact)) :
    (c.solver o).solve F' (R.box B) tol (R.vector x) () (h.map R.memory) =
      R.metered R.solved ((c.solver o).solve F B tol x () h) := by
  have hsearches := c.searches (τ := LimitedMemory Exact) o F B
  cases c with
  | spectral =>
    show Descent.solve (.spectral _ F' _) F' _ tol _ _ >>= _ = _
    rw [R.solve_reflected hF hB (R.follows_spectral hF hB _) hsearches]
    exact metered_bind rfl
  | quasiNewton =>
    show Descent.solve (.quasiNewton _ F' _) F' _ tol _ _ >>= _ = _
    rw [R.solve_reflected hF hB (R.follows_quasiNewton hF hB _) hsearches]
    exact metered_bind rfl

end

end Reflection

end LogBarrier

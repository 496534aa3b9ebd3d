import LogBarrier.Proofs.Backtracking
import LogBarrier.Proofs.Clipped
import LogBarrier.Proofs.Held
import LogBarrier.Proofs.Honest

/-!
# The retry of the quasi-Newton solver

The quasi-Newton solver repeats a failed search along steepest descent. Where the secant has not
given a direction the first search was along steepest descent already, if only on the variables that
are not held, and the retry fails as it did. A solver that does without the retry there comes to the
same result and asks less. When a solve ends with a failed search, steepest descent fails at its last
point.
-/

namespace LogBarrier

open Scalar Exact

/-! ## Repeated questions -/

namespace Metered

variable {α β γ : Type}

/-- `m` comes to the same result as `m'`, and asks the last questions of `m'` once more. -/
structure Repeats (m m' : Metered α β) : Prop where
  result : m.result = m'.result
  calls : ∃ again, m.calls = m'.calls ++ again ∧ again <:+ m'.calls

theorem Repeats.refl (m : Metered α β) : Repeats m m :=
  ⟨rfl, [], (List.append_nil _).symm, List.nil_suffix⟩

theorem Repeats.bind {m m' : Metered α β} {f f' : β → Metered α γ} (hresult : m.result = m'.result)
    (hcalls : m.calls = m'.calls) (h : Repeats (f m'.result) (f' m'.result)) :
    Repeats (m >>= f) (m' >>= f') := by
  obtain ⟨again, hagain, hsuffix⟩ := h.calls
  refine ⟨?_, again, ?_, hsuffix.trans (List.suffix_append _ _)⟩
  · rw [result_bind, result_bind, hresult, h.result]
  · rw [calls_bind, calls_bind, hresult, hcalls, hagain, List.append_assoc]

/-- What has asked everything twice may only answer. -/
theorem Repeats.of_twice {m m' : Metered α β} {f f' : β → Metered α γ} (c : γ)
    (hcalls : m.calls = m'.calls ++ m'.calls) (hf : f m.result = pure c)
    (hf' : f' m'.result = pure c) : Repeats (m >>= f) (m' >>= f') := by
  refine ⟨?_, m'.calls, ?_, ?_⟩
  · rw [result_bind, result_bind, hf, hf']
  · rw [calls_bind, calls_bind, hf, hf', hcalls, calls_pure, List.append_nil, List.append_nil]
  · rw [calls_bind, hf', calls_pure, List.append_nil]

theorem Repeats.bind_pure {m m' : Metered α β} (h : Repeats m m') (f : β → γ) :
    Repeats (m >>= fun b => pure (f b)) (m' >>= fun b => pure (f b)) := by
  obtain ⟨again, hagain, hsuffix⟩ := h.calls
  refine ⟨?_, again, ?_, ?_⟩
  · rw [result_bind, result_bind, h.result]
  · rw [calls_bind, calls_bind, calls_pure, calls_pure, List.append_nil, List.append_nil, hagain]
  · rwa [calls_bind, calls_pure, List.append_nil]

end Metered

theorem Trying.run_ask_bind {α β γ : Type} (m : Metered α β) (f : β → Trying α γ) :
    (Trying.ask m >>= f).run = m >>= fun b => (f b).run := by
  rw [ExceptT.run_bind, Trying.run_ask, bind_map_left]

/-! ## Failed searches -/

namespace Descent

variable {α τ : Type} [Scalar α] {n : ℕ} {D : Descent α τ n} {F : Oracle α n} {B : Box α n}
  {tol : Tolerances α} {x : Vector α n} {h k : Option τ} {it : Iterate α n}
  {earlier : List (Iterate α n)}

/-- A solve that has left a note stands where a search was rejected. -/
def FailsAt (D : Descent α τ n) (F : Oracle α n) (B : Box α n) (x : Vector α n)
    (h : Option τ) (e : Exit α τ n) : Prop :=
  e.notes ≠ [] → ∃ earlier it k t, D.Visits F B x h earlier it k ∧ e.x = it.x ∧
    (D.search k it).run.result = .ok t ∧ t.accepted = false

theorem loop_failsAt {left done : ℕ} (hvisits : D.Visits F B x h earlier it k) :
    D.FailsAt F B x h (D.loop F B tol left done it k).result := by
  have hquiet {e : Exit α τ n} (he : e.notes = []) : D.FailsAt F B x h e :=
    fun hnotes => absurd he hnotes
  induction left generalizing earlier it k done with
  | zero => exact hquiet rfl
  | succ left ih =>
    unfold loop
    split
    · exact hquiet rfl
    · rw [Metered.result_bind]
      split
      · exact hquiet rfl
      · rename_i t hsearch
        split
        · rename_i hrejected
          exact fun _ => ⟨_, _, _, t, hvisits, rfl, hsearch, Bool.eq_false_iff.mpr hrejected⟩
        · rename_i haccepted
          rw [Metered.result_bind]
          split
          · exact hquiet rfl
          · rename_i g hgradient
            dsimp only
            split
            · exact hquiet rfl
            · exact ih (hvisits.step hsearch (Decidable.not_not.mp haccepted) hgradient)

theorem solve_failsAt (D : Descent α τ n) (F : Oracle α n) (B : Box α n)
    (tol : Tolerances α) (x : Vector α n) (h : Option τ) :
    D.FailsAt F B x h (D.solve F B tol x h).result := by
  unfold solve
  rw [Metered.result_bind]
  split
  · exact fun hnotes => absurd rfl hnotes
  · rename_i it hstart
    exact loop_failsAt (.start hstart)

theorem loop_of_rejected {left done : ℕ} {t : Trial α n} (hgoing : ¬ it.Stationary tol.gradient)
    (hsearch : (D.search k it).run.result = .ok t) (hrejected : t.accepted = false) :
    (D.loop F B tol (left + 1) done it k).result =
      ⟨it.x, k, [.searchFailed D.tag done], .ok ⟨done, false⟩⟩ := by
  have hfailed : ¬ t.accepted = true := Bool.eq_false_iff.mp hrejected
  unfold loop
  rw [if_neg hgoing, Metered.result_bind, hsearch]
  dsimp only
  rw [if_pos hfailed]
  rfl

end Descent

/-! ## Without the retry -/

section

variable {α τ : Type} [Scalar α] [Secant α τ] {n : ℕ}

/-- Searches as `quasiNewtonSearch` does, but only once where the secant gives no direction. -/
def sparingSearch (P : LineSearch α) (F : Oracle α n) (B : Box α n) (h : Option τ)
    (it : Iterate α n) : Trying α (Trial α n) := do
  let search (d : Vector α n) : Trying α (Trial α n) :=
    Trying.ask (P.search F B it.x it.value it.gradient d 1)
  match ← Trying.of (secantDirection? B it h) with
  | none => search (-it.scale * B.freePart it.x it.gradient it.gradient)
  | some d =>
    let t ← search d
    if t.accepted then return t else search (-it.scale * it.gradient)

def Descent.sparing (P : LineSearch α) (F : Oracle α n) (B : Box α n) : Descent α τ n where
  tag := "quasi-newton"
  search := sparingSearch P F B
  learn h s y := h.map fun h => Secant.update h s y

def Solver.sparing (P : LineSearch α) : Solver α Unit τ :=
  .ofDescent "Projected Quasi-Newton" (Descent.sparing P)

/-- The search along steepest descent on the variables that are not held. -/
def LineSearch.freeSearch (P : LineSearch α) (F : Oracle α n) (B : Box α n) (it : Iterate α n) :
    Metered α (Trial α n) :=
  P.search F B it.x it.value it.gradient (-it.scale * B.freePart it.x it.gradient it.gradient) 1

/-- The search along steepest descent on all variables. -/
def LineSearch.steepSearch (P : LineSearch α) (F : Oracle α n) (B : Box α n) (it : Iterate α n) :
    Metered α (Trial α n) :=
  P.search F B it.x it.value it.gradient (-it.scale * it.gradient) 1

variable {P : LineSearch α} {F : Oracle α n} {B : Box α n} {k : Option τ} {it : Iterate α n}

/-- Without a direction of the secant both searches are along steepest descent. -/
theorem run_quasiNewtonSearch (hnone : secantDirection? B it k = .ok none) :
    (quasiNewtonSearch P F B k it).run = do
      let t ← P.freeSearch F B it
      if t.accepted then return .ok t else return .ok (← P.steepSearch F B it) := by
  unfold quasiNewtonSearch
  rw [hnone, Trying.of_ok, pure_bind, Trying.run_ask_bind]
  refine bind_congr fun t => ?_
  split <;> rfl

/-- With one, or without an answer of the secant, they search alike. -/
theorem sparingSearch_eq (hasked : secantDirection? B it k ≠ .ok none) :
    sparingSearch P F B k it = quasiNewtonSearch P F B k it := by
  unfold sparingSearch quasiNewtonSearch
  cases hd : secantDirection? B it k with
  | error e => rfl
  | ok d =>
    cases d with
    | none => exact absurd hd hasked
    | some d => rfl

theorem run_sparingSearch (hnone : secantDirection? B it k = .ok none) :
    (sparingSearch P F B k it).run = .ok <$> P.freeSearch F B it := by
  unfold sparingSearch
  rw [hnone, Trying.of_ok, pure_bind]
  rfl

end

variable {τ : Type} [Secant Exact τ] {n : ℕ} {F : Oracle Exact n} {B : Box Exact n}
  {o : Options Exact} {tol : Tolerances Exact} {x : Vector Exact n} {h k : Option τ}
  {it : Iterate Exact n} {earlier : List (Iterate Exact n)} {r : ℝ}

/-! ## One search -/

/-- The iterate lies in the box. Its gradient is real, and its step length is positive. -/
structure Iterate.Settled (it : Iterate Exact n) (B : Box Exact n) : Prop where
  feasible : B.Feasible it.x
  gradient : ∃ b, it.gradient = vec b
  scale : ∃ t, 0 < t ∧ it.scale = real t

theorem SolverChoice.settled_of_visits {c : SolverChoice} (hB : B.Regular) (hx : AllNumbers x)
    (hvisits : (c.descent o F B).Visits F B x h earlier it k) : it.Settled B := by
  have hscaled : Scaled it.scale := by
    cases hvisits with
    | start hstart => exact Iterate.scaled_of_start hstart
    | step => exact scaled_spectralScale _ _
  obtain ⟨t, ht, hle, -⟩ := hscaled.exists_real
  exact {
    feasible := feasible_of_visits hB.not_isEmpty hx hvisits
    gradient := allFinite_iff.mp (hvisits.sound_last (c.searches o F B)).gradient_finite
    scale := ⟨t, lt_of_lt_of_le (by norm_num) hle, ht⟩ }

namespace LineSearch

variable {P : LineSearch Exact}

theorem sameSearch_of_settled (hB : B.Regular) (hr : P.rate = real r) (h : it.Settled B)
    (F : Oracle Exact n) : SameSearch (P.freeSearch F B it) (P.steepSearch F B it) := by
  obtain ⟨b, hb⟩ := h.gradient
  obtain ⟨t, ht, hscale⟩ := h.scale
  unfold freeSearch steepSearch
  rw [hb, hscale]
  exact sameSearch_freePart hB hr h.feasible b ht F it.value 1

/-- Where the secant gives no direction a failed search is made twice. -/
theorem calls_quasiNewtonSearch (hB : B.Regular) (hr : P.rate = real r) (h : it.Settled B)
    (hnone : secantDirection? B it k = .ok none)
    (hfailed : (P.freeSearch F B it).result.accepted = false) :
    (quasiNewtonSearch P F B k it).run.calls =
      (P.freeSearch F B it).calls ++ (P.freeSearch F B it).calls := by
  have hsame := (sameSearch_of_settled hB hr h F).calls
  rw [run_quasiNewtonSearch hnone, Metered.calls_bind, hfailed, if_neg Bool.false_ne_true,
    Metered.calls_bind, Metered.calls_pure, List.append_nil, ← hsame]

end LineSearch

/-! ## A whole solve -/

namespace SolverChoice

/-- The two solvers search with the same result and the same questions, or both of them fail and one
has asked everything twice. -/
theorem search_repeats (hB : B.Regular) (hr : o.backtrackingRate = real r) (h : it.Settled B)
    (F : Oracle Exact n) (k : Option τ) :
    let m := ((quasiNewton.descent o F B).search k it).run
    let m' := ((Descent.sparing (.ofOptions o) F B).search k it).run
    (m.result = m'.result ∧ m.calls = m'.calls) ∨
      ∃ t t', m.result = .ok t ∧ m'.result = .ok t' ∧ t.accepted = false ∧ t'.accepted = false ∧
        m.calls = m'.calls ++ m'.calls := by
  intro m m'
  set P := LineSearch.ofOptions o
  by_cases hnone : secantDirection? B it k = .ok none
  · have hm : m = _ := run_quasiNewtonSearch hnone
    have hm' : m' = .ok <$> P.freeSearch F B it := run_sparingSearch hnone
    cases hfree : (P.freeSearch F B it).result.accepted with
    | true =>
      rw [hm, hm', Metered.result_bind, Metered.calls_bind, hfree, if_pos rfl]
      exact .inl ⟨rfl, (List.append_nil _).trans (Metered.calls_map _ _).symm⟩
    | false =>
      have hrate : P.rate = real r := hr
      have hsame := LineSearch.sameSearch_of_settled hB hrate h F
      refine .inr ⟨(P.steepSearch F B it).result, (P.freeSearch F B it).result, ?_, ?_,
        hsame.accepted.symm.trans hfree, hfree, ?_⟩
      · rw [hm, Metered.result_bind, hfree, if_neg Bool.false_ne_true]
        rfl
      · rw [hm']
        rfl
      · rw [hm', Metered.calls_map]
        exact LineSearch.calls_quasiNewtonSearch hB hrate h hnone hfree
  · have hsame : m' = m := congrArg ExceptT.run (sparingSearch_eq hnone)
    exact .inl ⟨congrArg _ hsame.symm, congrArg _ hsame.symm⟩

/-- A search that fails twice ends the solve, so only its questions are asked again. -/
theorem loop_repeats (hB : B.Regular) (hr : o.backtrackingRate = real r) (hx : AllNumbers x)
    (tol : Tolerances Exact) {left done : ℕ}
    (hvisits : (quasiNewton.descent o F B).Visits F B x h earlier it k) :
    Metered.Repeats ((quasiNewton.descent o F B).loop F B tol left done it k)
      ((Descent.sparing (.ofOptions o) F B).loop F B tol left done it k) := by
  -- Iterations go on from equal trials only, and these lead both solvers to the same iterate.
  induction left generalizing earlier it k done with
  | zero => exact .refl _
  | succ left ih =>
    unfold Descent.loop
    by_cases hstationary : it.Stationary tol.gradient
    · rw [if_pos hstationary, if_pos hstationary]
      exact .refl _
    · rw [if_neg hstationary, if_neg hstationary]
      have hsettled := settled_of_visits hB hx hvisits
      rcases search_repeats hB hr hsettled F k with
        ⟨hresult, hcalls⟩ | ⟨t, t', ht, ht', hrejected, hrejected', hcalls⟩
      · refine .bind hresult hcalls ?_
        rw [← hresult]
        cases hsearch : ((quasiNewton.descent o F B).search k it).run.result with
        | error e => exact .refl _
        | ok t =>
          dsimp only
          by_cases haccepted : t.accepted = true
          · rw [if_neg (not_not.mpr haccepted), if_neg (not_not.mpr haccepted)]
            refine .bind rfl rfl ?_
            cases hgradient : (finiteGradient F t.x).run.result with
            | error e => exact .refl _
            | ok g =>
              dsimp only
              by_cases hshort : norm (t.x - it.x) ≤ tol.step
              · rw [if_pos hshort, if_pos hshort]
                exact .refl _
              · rw [if_neg hshort, if_neg hshort]
                exact ih (hvisits.step hsearch haccepted hgradient)
          · rw [if_pos haccepted, if_pos haccepted]
            exact .refl _
      · have hfailed : ¬ t.accepted = true := Bool.eq_false_iff.mp hrejected
        have hfailed' : ¬ t'.accepted = true := Bool.eq_false_iff.mp hrejected'
        refine .of_twice ⟨it.x, k, [.searchFailed "quasi-newton" done], .ok ⟨done, false⟩⟩ hcalls
          ?_ ?_
        · rw [ht]
          dsimp only
          rw [if_pos hfailed]
          rfl
        · rw [ht']
          dsimp only
          rw [if_pos hfailed']
          rfl

theorem solve_repeats (hB : B.Regular) (hr : o.backtrackingRate = real r) (hx : AllNumbers x)
    (F : Oracle Exact n) (tol : Tolerances Exact) (h : Option τ) :
    Metered.Repeats ((quasiNewton.solver o).solve F B tol x () h)
      ((Solver.sparing (.ofOptions o)).solve F B tol x () h) := by
  have hdescents : Metered.Repeats ((quasiNewton.descent o F B).solve F B tol x h)
      ((Descent.sparing (.ofOptions o) F B).solve F B tol x h) := by
    unfold Descent.solve
    refine .bind rfl rfl ?_
    cases hstart : (Iterate.start F B (B.project x)).run.result with
    | error e => exact .refl _
    | ok it => exact loop_repeats hB hr hx tol (.start hstart)
  exact hdescents.bind_pure _

/-- Steepest descent fails where a solve ends with a failed search. -/
theorem exists_steepSearch_fails (hB : B.Regular) (hr : o.backtrackingRate = real r)
    (hx : AllNumbers x)
    (hnotes : ((quasiNewton.solver o).solve F B tol x () h).result.notes ≠ []) :
    ∃ earlier it k, (quasiNewton.descent o F B).Visits F B x h earlier it k ∧
      ((quasiNewton.solver o).solve F B tol x () h).result.x = it.x.toArray ∧
      ((LineSearch.ofOptions o).freeSearch F B it).result.accepted = false ∧
      ((LineSearch.ofOptions o).steepSearch F B it).result.accepted = false := by
  rw [solve_result] at hnotes ⊢
  obtain ⟨earlier, it, k, t, hvisits, hend, hsearch, hrejected⟩ :=
    (quasiNewton.descent o F B).solve_failsAt F B tol x h hnotes
  obtain ⟨d, -, rfl⟩ := quasiNewtonSearch_eq_ok hsearch
  have hsteep := (LineSearch.quasiNewtonTrial_rejected hrejected).2
  have hrate : (LineSearch.ofOptions o).rate = real r := hr
  have hsame := LineSearch.sameSearch_of_settled hB hrate (settled_of_visits hB hx hvisits) F
  exact ⟨earlier, it, k, hvisits, congrArg Vector.toArray hend, hsame.accepted.trans hsteep, hsteep⟩

end SolverChoice

/-! ## The retry -/

/-- An objective that does not fall where its gradient says so. -/
noncomputable def Objective.level : Objective Exact where
  value _ := 0
  gradient x := Array.replicate x.size 1
  product? := none

namespace Objective

theorem gradient_level (a : Fin n → ℝ) :
    (level.oracle.gradient (vec a)).run.result = .ok (vec fun _ : Fin n => 1).toArray := by
  refine congrArg Except.ok ?_
  show Array.replicate (vec a).toArray.size 1 = _
  refine Array.ext (by simp) fun i hi _ => ?_
  have hn : i < n := by simpa using hi
  rw [Array.getElem_replicate]
  exact (get_vec (fun _ => 1) ⟨i, hn⟩).symm

theorem rejected_level {P : LineSearch Exact} (hfraction : 0 < P.fraction)
    (x g d : Vector Exact n) :
    (P.search level.oracle B x 0 g d 1).result.accepted = false := by
  refine Bool.eq_false_iff.mpr fun haccepted => ?_
  obtain ⟨-, hvalue, hfinite, -, hdown, henough⟩ := LineSearch.go_accepted haccepted
  have hlt := Exact.lt_of_le_add_mul hfinite hfraction hdown henough
  rw [hvalue] at hlt
  exact lt_irrefl (0 : ℝ) hlt

end Objective

namespace SolverChoice

/-- What the retry comes to in a solve from `x` with the secant `h`. -/
structure RetriesInVain (o : Options Exact) (F : Oracle Exact n) (B : Box Exact n)
    (tol : Tolerances Exact) (x : Vector Exact n) (h : Option τ) : Prop where
  /-- Where the secant gives no direction the retry is the search that has failed. -/
  twice {earlier : List (Iterate Exact n)} {it : Iterate Exact n} {k : Option τ}
    (hvisits : (quasiNewton.descent o F B).Visits F B x h earlier it k)
    (hnone : secantDirection? B it k = .ok none) :
    let free := (LineSearch.ofOptions o).freeSearch F B it
    LineSearch.SameSearch free ((LineSearch.ofOptions o).steepSearch F B it) ∧
      (free.result.accepted = false →
        (quasiNewtonSearch (.ofOptions o) F B k it).run.calls = free.calls ++ free.calls)
  repeats : Metered.Repeats ((quasiNewton.solver o).solve F B tol x () h)
    ((Solver.sparing (.ofOptions o)).solve F B tol x () h)
  fails (hnotes : ((quasiNewton.solver o).solve F B tol x () h).result.notes ≠ []) :
    ∃ earlier it k, (quasiNewton.descent o F B).Visits F B x h earlier it k ∧
      ((quasiNewton.solver o).solve F B tol x () h).result.x = it.x.toArray ∧
      ((LineSearch.ofOptions o).freeSearch F B it).result.accepted = false ∧
      ((LineSearch.ofOptions o).steepSearch F B it).result.accepted = false

end SolverChoice

end LogBarrier

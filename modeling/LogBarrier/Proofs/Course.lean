import LogBarrier.Method

/-!
# The course of a solve

A solve goes from the projection of its start from iterate to iterate, each of them an accepted
trial at which the gradient is finite, and leaves its last iterate behind, whichever way it ends.
`Visits` is this course, `Halts` lists the ways to end, and both hold for any way to search. Of the
searches it is enough to know that an accepted trial lies on the projection of a ray and has a
sufficiently smaller value.
-/

namespace LogBarrier

open Scalar

variable {α τ : Type} [Scalar α] {n : Nat}

/-! ## Evaluation -/

/-- There is a gradient at `x`, and it is finite. -/
def Oracle.HasFiniteGradient (F : Oracle α n) (x : Vector α n) : Prop :=
  ∃ g : Vector α n, (F.gradient x).run.result = .ok g.toArray ∧ AllFinite g

/-- The value and the gradient at `x` are finite. -/
def Oracle.FiniteAt (F : Oracle α n) (x : Vector α n) : Prop :=
  IsFinite (F.value x).result ∧ F.HasFiniteGradient x

variable {F : Oracle α n} {B : Box α n} {x : Vector α n}

theorem finiteValue_eq_ok_iff {v : α} :
    (finiteValue F x).run.result = .ok v ↔ (F.value x).result = v ∧ IsFinite v := by
  unfold finiteValue
  rw [Trying.bind_eq_ok_iff]
  simp only [Trying.result_ask, Except.ok.injEq, exists_eq_left']
  split
  · rename_i hfinite
    rw [Trying.result_pure, Except.ok.injEq]
    refine ⟨?_, fun h => h.1⟩
    rintro rfl
    exact ⟨rfl, hfinite⟩
  · rename_i hnot
    refine iff_of_false (by simp) ?_
    rintro ⟨rfl, hfinite⟩
    exact hnot hfinite

theorem allFinite_toVector (g : Vector α n) : AllFinite g.toArray.toVector ↔ AllFinite g := by
  obtain ⟨xs, rfl⟩ := g
  exact Iff.rfl

theorem finiteGradient_eq_ok_iff {g : Vector α n} :
    (finiteGradient F x).run.result = .ok g ↔
      (F.gradient x).run.result = .ok g.toArray ∧ AllFinite g := by
  unfold finiteGradient
  rw [Trying.bind_eq_ok_iff]
  constructor
  · rintro ⟨a, ha, h⟩
    split at h
    · rename_i hfinite
      rw [Trying.result_of] at h
      obtain rfl := sized_eq_ok_iff.mp h
      exact ⟨ha, (allFinite_toVector g).mp hfinite⟩
    · cases h
  · rintro ⟨hg, hfinite⟩
    refine ⟨g.toArray, hg, ?_⟩
    rw [if_pos ((allFinite_toVector g).mpr hfinite), Trying.result_of]
    exact sized_toArray g

theorem finiteValue_eq_error {e : Failure} (h : (finiteValue F x).run.result = .error e) :
    ¬ IsFinite (F.value x).result := by
  intro hfinite
  rw [finiteValue_eq_ok_iff.mpr ⟨rfl, hfinite⟩] at h
  cases h

theorem finiteGradient_eq_error {e : Failure} (h : (finiteGradient F x).run.result = .error e) :
    ¬ F.HasFiniteGradient x := by
  rintro ⟨g, hg⟩
  rw [finiteGradient_eq_ok_iff.mpr hg] at h
  cases h

/-! ## Iterates -/

/-- The parts of an iterate belong to its point. -/
structure Iterate.Sound (F : Oracle α n) (B : Box α n) (it : Iterate α n) : Prop where
  value_at : (F.value it.x).result = it.value
  value_finite : IsFinite it.value
  gradient_at : (F.gradient it.x).run.result = .ok it.gradient.toArray
  gradient_finite : AllFinite it.gradient
  residual_at : it.residual = B.residual it.x it.gradient

theorem Iterate.Sound.finiteAt {it : Iterate α n} (h : it.Sound F B) : F.FiniteAt it.x := by
  refine ⟨?_, it.gradient, h.gradient_at, h.gradient_finite⟩
  rw [h.value_at]
  exact h.value_finite

theorem Iterate.start_eq_ok {it : Iterate α n}
    (h : (Iterate.start F B x).run.result = .ok it) : it.x = x ∧ it.Sound F B := by
  unfold start at h
  obtain ⟨v, hv, h⟩ := Trying.bind_eq_ok_iff.mp h
  obtain ⟨g, hg, h⟩ := Trying.bind_eq_ok_iff.mp h
  obtain ⟨hvalue, hfinite⟩ := finiteValue_eq_ok_iff.mp hv
  obtain ⟨hgradient, hall⟩ := finiteGradient_eq_ok_iff.mp hg
  cases h
  exact ⟨rfl, ⟨hvalue, hfinite, hgradient, hall, rfl⟩⟩

theorem Iterate.start_eq_error {e : Failure}
    (h : (Iterate.start F B x).run.result = .error e) : ¬ F.FiniteAt x := by
  unfold start at h
  rintro ⟨hvalue, hgradient⟩
  rcases Trying.bind_eq_error_iff.mp h with hv | ⟨v, -, h⟩
  · exact finiteValue_eq_error hv hvalue
  · rcases Trying.bind_eq_error_iff.mp h with hg | ⟨g, -, h⟩
    · exact finiteGradient_eq_error hg hgradient
    · cases h

/-- From each iterate to the next, the step and the change of the gradient. -/
def Iterate.changes : List (Iterate α n) → List (Vector α n × Vector α n)
  | a :: b :: rest => (b.x - a.x, b.gradient - a.gradient) :: changes (b :: rest)
  | _ => []

theorem Iterate.changes_concat (its : List (Iterate α n)) (a b : Iterate α n) :
    changes (its ++ [a] ++ [b]) =
      changes (its ++ [a]) ++ [(b.x - a.x, b.gradient - a.gradient)] := by
  induction its with
  | nil => rfl
  | cons c its ih =>
    cases its with
    | nil => rfl
    | cons d its => exact congrArg _ ih

/-! ## Trials -/

namespace LineSearch

/-- The trial at which the search from `it` along `d` ends. -/
def trial (P : LineSearch α) (F : Oracle α n) (B : Box α n) (it : Iterate α n)
    (d : Vector α n) : Trial α n :=
  (P.search F B it.x it.value it.gradient d 1).result

/-- What makes a trial acceptable. -/
structure Accepts (P : LineSearch α) (F : Oracle α n) (B : Box α n) (it : Iterate α n)
    (t : Trial α n) : Prop where
  projected : ∃ z, t.x = B.project z
  value_at : (F.value t.x).result = t.value
  value_finite : IsFinite t.value
  moves : 0 < norm (t.x - it.x)
  descends : dot it.gradient (t.x - it.x) < 0
  enough : t.value ≤ it.value + P.fraction * dot it.gradient (t.x - it.x)

theorem accepts_trial {P : LineSearch α} {it : Iterate α n} {d : Vector α n}
    (h : (P.trial F B it d).accepted = true) : P.Accepts F B it (P.trial F B it d) := by
  obtain ⟨harc, hvalue, hfinite, hmoves, hdescends, henough⟩ := go_accepted h
  exact ⟨⟨_, harc⟩, hvalue.symm, hfinite, hmoves, hdescends, henough⟩

end LineSearch

/-! ## The course -/

namespace Descent

/-- A solve from `x` with the secant `h` comes by way of the earlier iterates to `it`, where its
secant is `k`. -/
inductive Visits (D : Descent α τ n) (F : Oracle α n) (B : Box α n) (x : Vector α n)
    (h : Option τ) : List (Iterate α n) → Iterate α n → Option τ → Prop
  | start {it : Iterate α n}
      (hstart : (Iterate.start F B (B.project x)).run.result = .ok it) : Visits D F B x h [] it h
  | step {earlier : List (Iterate α n)} {it : Iterate α n} {k : Option τ} {t : Trial α n}
      {g : Vector α n} (hvisits : Visits D F B x h earlier it k)
      (hsearch : (D.search k it).run.result = .ok t) (haccepted : t.accepted = true)
      (hgradient : (finiteGradient F t.x).run.result = .ok g) :
      Visits D F B x h (earlier ++ [it]) (it.next B t g)
        (D.learn k (t.x - it.x) (g - it.gradient))

/-- How a solve can end at `it` after the earlier iterates. -/
inductive Halts (D : Descent α τ n) (F : Oracle α n) (B : Box α n) (tol : Tolerances α)
    (earlier : List (Iterate α n)) (it : Iterate α n) (k : Option τ) :
    Except Failure SolveReport → Prop
  | stationary (hstationary : it.Stationary tol.gradient) :
      Halts D F B tol earlier it k (.ok ⟨earlier.length, true⟩)
  | exhausted (hlength : earlier.length = tol.maxIterations) :
      Halts D F B tol earlier it k (.ok ⟨earlier.length, decide (it.Stationary tol.gradient)⟩)
  | short {prev : Iterate α n} (hprev : earlier.getLast? = some prev)
      (hshort : norm (it.x - prev.x) ≤ tol.step) :
      Halts D F B tol earlier it k (.ok ⟨earlier.length, decide (it.Stationary tol.gradient)⟩)
  | rejected {t : Trial α n} (hgoing : ¬ it.Stationary tol.gradient)
      (hsearch : (D.search k it).run.result = .ok t) (hrejected : t.accepted = false) :
      Halts D F B tol earlier it k (.ok ⟨earlier.length, false⟩)
  | unsearched {e : Failure} (hsearch : (D.search k it).run.result = .error e) :
      Halts D F B tol earlier it k (.error e)
  | unevaluated {t : Trial α n} {e : Failure} (hsearch : (D.search k it).run.result = .ok t)
      (haccepted : t.accepted = true) (hgradient : (finiteGradient F t.x).run.result = .error e) :
      Halts D F B tol earlier it k (.error e)

/-- What a solve from `x` with the secant `h` leaves behind. -/
inductive Leaves (D : Descent α τ n) (F : Oracle α n) (B : Box α n) (tol : Tolerances α)
    (x : Vector α n) (h : Option τ) : Exit α τ n → Prop
  | unstarted {e : Failure} {notes : List (Message α)}
      (hstart : (Iterate.start F B (B.project x)).run.result = .error e) :
      Leaves D F B tol x h ⟨B.project x, h, notes, .error e⟩
  | halted {earlier : List (Iterate α n)} {it : Iterate α n} {k : Option τ}
      {notes : List (Message α)} {outcome : Except Failure SolveReport}
      (hvisits : D.Visits F B x h earlier it k) (hlength : earlier.length ≤ tol.maxIterations)
      (hhalts : D.Halts F B tol earlier it k outcome) :
      Leaves D F B tol x h ⟨it.x, k, notes, outcome⟩

variable {D : Descent α τ n} {tol : Tolerances α} {h k : Option τ} {it : Iterate α n}
  {earlier : List (Iterate α n)}

theorem loop_leaves {left : Nat} (hvisits : D.Visits F B x h earlier it k)
    (hleft : earlier.length + left = tol.maxIterations) :
    D.Leaves F B tol x h (D.loop F B tol left earlier.length it k).result := by
  -- The earlier iterates grow as the iterations that are left become fewer.
  induction left generalizing earlier it k with
  | zero => exact .halted hvisits (by omega) (.exhausted hleft)
  | succ left ih =>
    have hlength : earlier.length ≤ tol.maxIterations := by omega
    unfold loop
    split
    · rename_i hstationary
      refine .halted hvisits hlength ?_
      rw [decide_eq_true hstationary]
      exact .stationary hstationary
    · rename_i hgoing
      rw [Metered.result_bind]
      split
      · rename_i e hsearch
        exact .halted hvisits hlength (.unsearched hsearch)
      · rename_i t hsearch
        split
        · rename_i hrejected
          exact .halted hvisits hlength
            (.rejected hgoing hsearch (Bool.eq_false_iff.mpr hrejected))
        · rename_i haccepted
          have haccepted := Decidable.not_not.mp haccepted
          rw [Metered.result_bind]
          split
          · rename_i e hgradient
            exact .halted hvisits hlength (.unevaluated hsearch haccepted hgradient)
          · rename_i g hgradient
            have hnext := hvisits.step hsearch haccepted hgradient
            have hgrown : (earlier ++ [it]).length = earlier.length + 1 := List.length_append
            dsimp only
            split
            · rename_i hshort
              rw [Metered.result_pure, ← hgrown]
              exact .halted hnext (by omega) (.short List.getLast?_concat hshort)
            · rw [← hgrown]
              exact ih hnext (by omega)

/-- An accepted trial with a finite gradient is a step. -/
theorem loop_of_accepted {left done : Nat} {t : Trial α n} {g : Vector α n}
    (hgoing : ¬ it.Stationary tol.gradient) (hsearch : (D.search k it).run.result = .ok t)
    (haccepted : t.accepted = true) (hgradient : (finiteGradient F t.x).run.result = .ok g) :
    (D.loop F B tol (left + 1) done it k).result =
      if norm (t.x - it.x) ≤ tol.step then
        stop tol.gradient (it.next B t g) (D.learn k (t.x - it.x) (g - it.gradient)) (done + 1)
      else (D.loop F B tol left (done + 1) (it.next B t g)
        (D.learn k (t.x - it.x) (g - it.gradient))).result := by
  rw [loop, if_neg hgoing, Metered.result_bind, hsearch]
  dsimp only
  rw [if_neg (not_not_intro haccepted), Metered.result_bind, hgradient]
  dsimp only
  split <;> rfl

theorem solve_leaves (D : Descent α τ n) (F : Oracle α n) (B : Box α n) (tol : Tolerances α)
    (x : Vector α n) (h : Option τ) : D.Leaves F B tol x h (D.solve F B tol x h).result := by
  unfold solve
  rw [Metered.result_bind]
  split
  · rename_i e hstart
    exact .unstarted hstart
  · rename_i it hstart
    exact loop_leaves (.start hstart) (Nat.zero_add _)

/-- The secant that a solve comes to has learnt every step of the way, in order. -/
theorem Visits.secant_eq (hvisits : D.Visits F B x h earlier it k) :
    k = (Iterate.changes (earlier ++ [it])).foldl (fun k c => D.learn k c.1 c.2) h := by
  induction hvisits with
  | start hstart => rfl
  | step hvisits hsearch haccepted hgradient ih =>
    rw [Iterate.changes_concat, List.foldl_append, ← ih]
    rfl

theorem Visits.head_eq (hvisits : D.Visits F B x h earlier it k) :
    (earlier ++ [it]).head?.map Iterate.x = some (B.project x) := by
  induction hvisits with
  | start hstart => exact congrArg some (Iterate.start_eq_ok hstart).1
  | @step earlier it k t g hvisits hsearch haccepted hgradient ih =>
    cases earlier <;> exact ih

/-- An accepted trial of the descent is one that the line search `P` accepts. -/
def Searches (D : Descent α τ n) (P : LineSearch α) (F : Oracle α n) (B : Box α n) : Prop :=
  ∀ k it t, (D.search k it).run.result = .ok t → t.accepted = true → P.Accepts F B it t

variable {P : LineSearch α}

theorem Visits.sound (hD : D.Searches P F B) (hvisits : D.Visits F B x h earlier it k) :
    ∀ a ∈ earlier ++ [it], a.Sound F B := by
  induction hvisits with
  | start hstart =>
    intro a ha
    obtain rfl := List.mem_singleton.mp ha
    exact (Iterate.start_eq_ok hstart).2
  | @step earlier it k t g hvisits hsearch haccepted hgradient ih =>
    intro a ha
    rcases List.mem_append.mp ha with ha | ha
    · exact ih a ha
    · obtain rfl := List.mem_singleton.mp ha
      have htrial := hD k it t hsearch haccepted
      obtain ⟨hat, hfinite⟩ := finiteGradient_eq_ok_iff.mp hgradient
      exact ⟨htrial.value_at, htrial.value_finite, hat, hfinite, rfl⟩

theorem Visits.sound_last (hD : D.Searches P F B) (hvisits : D.Visits F B x h earlier it k) :
    it.Sound F B :=
  hvisits.sound hD it (by simp)

end Descent

/-! ## The two solvers -/

variable [Secant α τ] {o : Options α}

/-- The descent that a solver of a kind runs. -/
def SolverChoice.descent (o : Options α) (F : Oracle α n) (B : Box α n) :
    SolverChoice → Descent α τ n
  | .spectral => .spectral (.ofOptions o) F B
  | .quasiNewton => .quasiNewton (.ofOptions o) F B

theorem SolverChoice.solve_result (c : SolverChoice) (tol : Tolerances α) (h : Option τ) :
    ((c.solver o).solve F B tol x () h).result =
      let e := ((c.descent o F B).solve F B tol x h).result
      ⟨e.x.toArray, (), e.secant, e.notes, e.outcome⟩ := by
  cases c <;> rfl

/-- The secant after it was offered the changes, if the solver uses it. -/
def SolverChoice.teach (h : Option τ) (changes : List (Vector α n × Vector α n)) :
    SolverChoice → Option τ
  | .spectral => h
  | .quasiNewton => h.map fun h => changes.foldl (fun h c => Secant.update h c.1 c.2) h

theorem SolverChoice.foldl_learn (c : SolverChoice) (changes : List (Vector α n × Vector α n))
    (h : Option τ) :
    changes.foldl (fun k s => (c.descent o F B).learn k s.1 s.2) h = c.teach h changes := by
  cases c with
  | spectral =>
    induction changes with
    | nil => rfl
    | cons s changes ih => exact ih
  | quasiNewton =>
    induction changes generalizing h with
    | nil => exact Option.map_id'.symm
    | cons s changes ih =>
      rw [List.foldl_cons, ih]
      cases h <;> rfl

/-- The direction that the quasi-Newton solver tries first, if the secant gives the answer `d`. -/
def Iterate.firstDirection (B : Box α n) (it : Iterate α n) (d : Option (Vector α n)) :
    Vector α n :=
  d.getD (-it.scale * B.freePart it.x it.gradient it.gradient)

/-- The trial at which the quasi-Newton solver ends its search: the first one, or one along plain
steepest descent if that is rejected. -/
def LineSearch.quasiNewtonTrial (P : LineSearch α) (F : Oracle α n) (B : Box α n)
    (it : Iterate α n) (d : Option (Vector α n)) : Trial α n :=
  let first := P.trial F B it (it.firstDirection B d)
  if first.accepted then first else P.trial F B it (-it.scale * it.gradient)

namespace LineSearch

variable {P : LineSearch α} {it : Iterate α n} {d : Option (Vector α n)}

theorem accepts_quasiNewtonTrial (h : (P.quasiNewtonTrial F B it d).accepted = true) :
    P.Accepts F B it (P.quasiNewtonTrial F B it d) := by
  unfold quasiNewtonTrial at h ⊢
  dsimp only at h ⊢
  split at h
  · rename_i hfirst
    rw [if_pos hfirst]
    exact accepts_trial hfirst
  · rename_i hfirst
    rw [if_neg hfirst]
    exact accepts_trial h

theorem quasiNewtonTrial_rejected (h : (P.quasiNewtonTrial F B it d).accepted = false) :
    (P.trial F B it (it.firstDirection B d)).accepted = false ∧
      (P.trial F B it (-it.scale * it.gradient)).accepted = false := by
  unfold quasiNewtonTrial at h
  dsimp only at h
  split at h
  · rename_i hfirst
    rw [hfirst] at h
    cases h
  · rename_i hfirst
    exact ⟨Bool.eq_false_iff.mpr hfirst, h⟩

end LineSearch

theorem quasiNewtonSearch_result (P : LineSearch α) (k : Option τ) (it : Iterate α n) :
    (quasiNewtonSearch P F B k it).run.result =
      (secantDirection? B it k).map (P.quasiNewtonTrial F B it) := by
  unfold quasiNewtonSearch
  cases secantDirection? B it k with
  | error e => rfl
  | ok d =>
    show (if (P.trial F B it (it.firstDirection B d)).accepted then
      (pure (P.trial F B it (it.firstDirection B d)) : Trying α (Trial α n)) else _).run.result =
        Except.ok (if _ then _ else _)
    split <;> rfl

theorem quasiNewtonSearch_eq_ok {P : LineSearch α} {k : Option τ} {it : Iterate α n}
    {t : Trial α n} (h : (quasiNewtonSearch P F B k it).run.result = .ok t) :
    ∃ d, secantDirection? B it k = .ok d ∧ t = P.quasiNewtonTrial F B it d := by
  rw [quasiNewtonSearch_result] at h
  cases hd : secantDirection? B it k with
  | error e =>
    rw [hd] at h
    cases h
  | ok d =>
    rw [hd] at h
    exact ⟨d, rfl, (Except.ok.inj h).symm⟩

theorem quasiNewtonSearch_eq_error {P : LineSearch α} {k : Option τ} {it : Iterate α n}
    {e : Failure} (h : (quasiNewtonSearch P F B k it).run.result = .error e) :
    secantDirection? B it k = .error e := by
  rw [quasiNewtonSearch_result] at h
  cases hd : secantDirection? B it k with
  | error e' =>
    rw [hd] at h
    exact congrArg Except.error (Except.error.inj h)
  | ok d =>
    rw [hd] at h
    cases h

theorem SolverChoice.searches (c : SolverChoice) (o : Options α) (F : Oracle α n) (B : Box α n) :
    (c.descent o F B : Descent α τ n).Searches (.ofOptions o) F B := by
  intro k it t hsearch haccepted
  cases c with
  | spectral =>
    cases hsearch
    exact LineSearch.accepts_trial haccepted
  | quasiNewton =>
    obtain ⟨d, -, rfl⟩ := quasiNewtonSearch_eq_ok hsearch
    exact LineSearch.accepts_quasiNewtonTrial haccepted

end LogBarrier

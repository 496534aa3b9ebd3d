import LogBarrier.Proofs.Course
import LogBarrier.Proofs.Eliminated.Barrier
import LogBarrier.Proofs.Inward

/-!
# Spectral descent without a fixed variable

The spectral solver keeps a fixed variable at its value: its direction has no part along it, so
neither has a step, and whatever the gradient says about the variable meets a zero in every product.
Step lengths, tests and trials are those of the problem without the variable.
-/

namespace LogBarrier

open Scalar Exact

variable {τ : Type} {n : ℕ}

namespace Elimination

variable {E : Elimination n} {F : Oracle Exact (n + 1)} {F' : Oracle Exact n}
  {B : Box Exact (n + 1)}

/-! ## Line search -/

/-- A step that does not move the variable. -/
def Keeps (E : Elimination n) (d : Vector Exact (n + 1)) : Prop := d.get E.index = 0

theorem Holds.keeps {x y : Vector Exact (n + 1)} (hx : E.Holds x) (hy : E.Holds y) :
    E.Keeps (y - x) := by
  show (y - x).get E.index = 0
  rw [get_sub, show y.get E.index = real E.value from hy,
    show x.get E.index = real E.value from hx, Exact.sub_self (isFinite_real _)]

theorem Holds.isFinite {x : Vector Exact (n + 1)} (hx : E.Holds x) : IsFinite (x.get E.index) := by
  rw [show x.get E.index = real E.value from hx]
  exact isFinite_real _

/-- Where the variable is not moved, its partial derivative does not count. -/
theorem Keeps.dot_drop {d g : Vector Exact (n + 1)} (hd : E.Keeps d)
    (hg : IsFinite (g.get E.index)) : dot (E.drop g) (E.drop d) = dot g d := by
  refine E.dot_drop ?_
  rw [show d.get E.index = 0 from hd, Exact.mul_zero hg]

section

variable {x d g : Vector Exact (n + 1)} {alpha : Exact}

theorem arc_drop (E : Elimination n) (B : Box Exact (n + 1)) (x d : Vector Exact (n + 1))
    (alpha : Exact) :
    LineSearch.arc (E.box B) (E.drop x) (E.drop d) alpha = E.drop (LineSearch.arc B x d alpha) := by
  unfold LineSearch.arc
  rw [← drop_mul, ← drop_add, project_drop]

theorem Fixes.holds_arc (hB : E.Fixes B) (hx : E.Holds x) (hd : E.Keeps d)
    (halpha : IsFinite alpha) : E.Holds (LineSearch.arc B x d alpha) := by
  refine hB.holds_project ?_
  rw [get_add, get_mul, show d.get E.index = 0 from hd, Exact.mul_zero halpha, Exact.add_zero]
  exact hx.isFinite

variable {P : LineSearch Exact} (hF : E.Reduces F F') (hB : E.Fixes B) (hrate : IsFinite P.rate)
  (hx : E.Holds x) (hd : E.Keeps d)

include hB hrate hx hd

theorem Fixes.holds_go (fx : Exact) {left : ℕ} {alpha : Exact} (halpha : IsFinite alpha)
    (last : Exact) : E.Holds (P.go F B x fx g d left alpha last).result.x := by
  induction left generalizing alpha last with
  | zero => exact hB.holds_arc hx hd halpha
  | succ left ih =>
    have hnext := isFinite_mul halpha hrate
    unfold LineSearch.go
    dsimp only
    split
    · -- The search ends at a trial or goes on with a shorter step, which keeps the variable too.
      rw [Metered.result_bind]
      split
      · exact hB.holds_arc hx hd halpha
      · exact ih hnext _
    · exact ih hnext _

include hF in
theorem go_eliminated (hg : IsFinite (g.get E.index)) (fx : Exact) {left : ℕ} {alpha : Exact}
    (halpha : IsFinite alpha) (last : Exact) :
    P.go F' (E.box B) (E.drop x) fx (E.drop g) (E.drop d) left alpha last =
      (P.go F B x fx g d left alpha last).translate E.call E.trial := by
  induction left generalizing alpha last with
  | zero =>
    unfold LineSearch.go
    rw [arc_drop]
    rfl
  | succ left ih =>
    have htrial := hB.holds_arc hx hd halpha
    have hstep := hx.keeps htrial
    have hnext := isFinite_mul halpha hrate
    unfold LineSearch.go
    dsimp only
    rw [arc_drop, ← drop_sub, E.norm_drop hstep, hstep.dot_drop hg]
    split
    · rw [hF.value htrial]
      refine Metered.translate_bind ?_
      dsimp only [id]
      split
      · rfl
      · exact ih hnext _
    · exact ih hnext _

end

/-! ## Evaluation -/

section

variable {x : Vector Exact (n + 1)} (hF : E.Reduces F F') (hx : E.Holds x)

include hF hx

theorem finiteValue_eliminated :
    finiteValue F' (E.drop x) = Trying.translate E.call id (finiteValue F x) := by
  unfold finiteValue
  rw [hF.value hx, ← Trying.translate_ask]
  refine Trying.translate_bind fun v _ => ?_
  dsimp only [id]
  split <;> rfl

theorem finiteGradient_eliminated :
    finiteGradient F' (E.drop x) = Trying.translate E.call E.drop (finiteGradient F x) := by
  unfold finiteGradient
  rw [hF.gradient hx]
  refine Trying.translate_bind fun g hg => ?_
  -- The entry that is dropped is real, so it does not decide whether all are finite.
  obtain ⟨v, rfl, hv⟩ := hF.entry hx hg
  have hfinite : AllFinite (E.dropArray v.toArray).toVector ↔ AllFinite v.toArray.toVector := by
    rw [← toArray_drop, allFinite_toVector, allFinite_toVector, E.allFinite_drop_iff hv]
  by_cases hall : AllFinite v.toArray.toVector
  · rw [if_pos hall, if_pos (hfinite.mpr hall), ← toArray_drop, sized_toArray, sized_toArray]
    rfl
  · rw [if_neg hall, if_neg (mt hfinite.mp hall)]
    rfl

end

/-! ## Iterates -/

/-- The variable is at its value, and nothing that a step is made from keeps it from staying. -/
structure Sound (E : Elimination n) (it : Iterate Exact (n + 1)) : Prop where
  holds : E.Holds it.x
  gradient : IsFinite (it.gradient.get E.index)
  residual : E.Keeps it.residual
  scale : IsFinite it.scale

section

variable {it : Iterate Exact (n + 1)} {t : Trial Exact (n + 1)} {x g : Vector Exact (n + 1)}

theorem Fixes.sound_start (hB : E.Fixes B) (hx : E.Holds x)
    (h : (Iterate.start F B x).run.result = .ok it) : E.Sound it := by
  unfold Iterate.start at h
  obtain ⟨v, -, h⟩ := Trying.bind_eq_ok_iff.mp h
  obtain ⟨g, hg, h⟩ := Trying.bind_eq_ok_iff.mp h
  obtain rfl := Except.ok.inj h
  have hentry : IsFinite (g.get E.index) := (finiteGradient_eq_ok_iff.mp hg).2 _
  exact ⟨hx, hentry, hB.residual_index hx hentry, (scaled_initialScale _).isFinite⟩

theorem Fixes.sound_next (hB : E.Fixes B) (it : Iterate Exact (n + 1)) (ht : E.Holds t.x)
    (hg : IsFinite (g.get E.index)) : E.Sound (it.next B t g) :=
  ⟨ht, hg, hB.residual_index ht hg, (scaled_spectralScale ..).isFinite⟩

theorem start_eliminated (hF : E.Reduces F F') (hB : E.Fixes B) (hx : E.Holds x) :
    Iterate.start F' (E.box B) (E.drop x) =
      Trying.translate E.call E.iterate (Iterate.start F B x) := by
  unfold Iterate.start
  rw [finiteValue_eliminated hF hx]
  refine Trying.translate_bind fun v _ => ?_
  rw [finiteGradient_eliminated hF hx]
  refine Trying.translate_bind fun g hg => ?_
  have hresidual := hB.residual_index hx ((finiteGradient_eq_ok_iff.mp hg).2 E.index)
  dsimp only
  rw [residual_drop]
  unfold initialScale
  rw [E.maxAbs_drop hresidual]
  rfl

theorem Sound.stationary_iff (hit : E.Sound it) {gtol : Exact} :
    (E.iterate it).Stationary gtol ↔ it.Stationary gtol := by
  unfold Iterate.Stationary
  rw [← E.norm_drop hit.residual]
  rfl

/-- The curvature along a step that does not move the variable does not ask for its partial
derivative. -/
theorem Sound.next_eliminated (hit : E.Sound it) (ht : E.Holds t.x)
    (hg : IsFinite (g.get E.index)) :
    (E.iterate it).next (E.box B) (E.trial t) (E.drop g) = E.iterate (it.next B t g) := by
  have hstep : (t.x - it.x).get E.index = 0 := hit.holds.keeps ht
  have hchange : IsFinite ((g - it.gradient).get E.index) := by
    rw [get_sub]
    exact isFinite_sub hg hit.gradient
  have hscale : spectralScale (E.drop t.x - E.drop it.x) (E.drop g - E.drop it.gradient) =
      spectralScale (t.x - it.x) (g - it.gradient) := by
    have hsy : dot (E.drop (t.x - it.x)) (E.drop (g - it.gradient)) =
        dot (t.x - it.x) (g - it.gradient) :=
      E.dot_drop (by rw [hstep, Exact.zero_mul hchange])
    have hss : dot (E.drop (t.x - it.x)) (E.drop (t.x - it.x)) =
        dot (t.x - it.x) (t.x - it.x) :=
      E.dot_drop (by rw [hstep, Exact.mul_zero isFinite_zero])
    unfold spectralScale
    rw [← drop_sub, ← drop_sub, hsy, hss]
  unfold Iterate.next iterate
  congr 1
  exact E.residual_drop B t.x g

/-! ## Descent -/

theorem direction_drop (E : Elimination n) (B : Box Exact (n + 1)) (it : Iterate Exact (n + 1)) :
    spectralDirection (E.box B) (E.iterate it) = E.drop (spectralDirection B it) := by
  unfold spectralDirection
  rw [drop_sub, ← project_drop, drop_sub, drop_mul]
  rfl

theorem Fixes.keeps_direction (hB : E.Fixes B) (hit : E.Sound it) :
    E.Keeps (spectralDirection B it) := by
  refine hit.holds.keeps (hB.holds_project ?_)
  rw [get_sub, get_mul]
  exact isFinite_sub hit.holds.isFinite (isFinite_mul hit.scale hit.gradient)

end

section

variable {P : LineSearch Exact} (hF : E.Reduces F F') (hB : E.Fixes B) (hrate : IsFinite P.rate)
  {it : Iterate Exact (n + 1)}

include hB hrate

theorem Fixes.holds_search (hit : E.Sound it) (h : Option τ) {t : Trial Exact (n + 1)}
    (ht : ((Descent.spectral P F B).search h it).run.result = .ok t) : E.Holds t.x := by
  obtain rfl := Except.ok.inj ht
  exact hB.holds_go hrate hit.holds (hB.keeps_direction hit) _ isFinite_one _

include hF in
theorem search_eliminated (hit : E.Sound it) (h : Option τ) :
    (Descent.spectral P F' (E.box B)).search h (E.iterate it) =
      Trying.translate E.call E.trial ((Descent.spectral P F B).search h it) := by
  show Trying.ask (P.go F' (E.box B) (E.drop it.x) it.value (E.drop it.gradient)
    (spectralDirection (E.box B) (E.iterate it)) (P.maxBacktracks + 1) 1 inf) = _
  rw [direction_drop, go_eliminated hF hB hrate hit.holds (hB.keeps_direction hit) hit.gradient
    it.value isFinite_one, ← Trying.translate_ask]
  rfl

/-- Wherever the iteration stops, the variable is at its value. -/
theorem Fixes.holds_loop (hit : E.Sound it) (tol : Tolerances Exact) (left done : ℕ)
    (h : Option τ) : E.Holds ((Descent.spectral P F B).loop F B tol left done it h).result.x := by
  induction left generalizing done it h with
  | zero => exact hit.holds
  | succ left ih =>
    unfold Descent.loop
    split
    · exact hit.holds
    rw [Metered.result_bind]
    cases hsearch : ((Descent.spectral P F B).search h it).run.result with
    | error e => exact hit.holds
    | ok t =>
      have ht := hB.holds_search hrate hit h hsearch
      dsimp only
      split
      · exact hit.holds
      rw [Metered.result_bind]
      cases hgradient : (finiteGradient F t.x).run.result with
      | error e => exact hit.holds
      | ok g =>
        have hnext := hB.sound_next it ht ((finiteGradient_eq_ok_iff.mp hgradient).2 E.index)
        dsimp only
        split
        · exact hnext.holds
        · exact ih hnext _ _

include hF in
theorem follows_spectral :
    (E.wording : Wording Exact τ (n + 1) n).Follows E.Sound F B (.spectral P F B) F' (E.box B)
      (.spectral P F' (E.box B)) where
  failed _ := rfl
  stationary hit := hit.stationary_iff
  search h hit := search_eliminated hF hB hrate hit h
  gradient {_ h _} hit ht := finiteGradient_eliminated hF (hB.holds_search hrate hit h ht.1)
  length {_ h _} hit ht := by
    show norm (E.drop _ - E.drop _) = _
    rw [← drop_sub, E.norm_drop (hit.holds.keeps (hB.holds_search hrate hit h ht.1))]
  next {_ h _ _} hit ht hg := hit.next_eliminated (hB.holds_search hrate hit h ht.1)
    ((finiteGradient_eq_ok_iff.mp hg).2 _)
  learn _ _ _ := rfl
  good {_ h _ _} hit ht hg := hB.sound_next _ (hB.holds_search hrate hit h ht.1)
    ((finiteGradient_eq_ok_iff.mp hg).2 _)

/-! ## The solver -/

variable {x : Vector Exact (n + 1)} (hx : IsFinite (x.get E.index))

include hx

theorem Fixes.holds_solve (tol : Tolerances Exact) (h : Option τ) :
    ∃ z : Vector Exact (n + 1),
      ((Solver.spectral P).solve F B tol x () h).result.x = z.toArray ∧ E.Holds z := by
  have hprojected := hB.holds_project hx
  have hsolve : E.Holds ((Descent.spectral P F B).solve F B tol x h).result.x := by
    unfold Descent.solve
    rw [Metered.result_bind]
    cases hstart : (Iterate.start F B (B.project x)).run.result with
    | error e => exact hprojected
    | ok it => exact hB.holds_loop hrate (hB.sound_start hprojected hstart) ..
  exact ⟨_, rfl, hsolve⟩

include hF in
/-- The spectral solver does without the variable what it does with it. -/
theorem solve_eliminated (tol : Tolerances Exact) (h : Option τ) :
    (Solver.spectral P).solve F' (E.box B) tol (E.drop x) () h =
      ((Solver.spectral P).solve F B tol x () h).translate E.call E.solved := by
  have hprojected := hB.holds_project hx
  have hsolve : (Descent.spectral P F' (E.box B)).solve F' (E.box B) tol (E.drop x) h =
      ((Descent.spectral P F B).solve F B tol x h).translate E.call E.exit :=
    (follows_spectral hF hB hrate).solve (E.project_drop B x) (start_eliminated hF hB hprojected)
      (fun _ hstart => hB.sound_start hprojected hstart) tol h
  show Descent.solve _ F' _ tol _ h >>= _ = _
  rw [hsolve]
  refine Metered.translate_bind ?_
  generalize ((Descent.spectral P F B).solve F B tol x h).result = e
  show (pure ⟨(E.drop e.x).toArray, (), e.secant, e.notes.map .eliminated, e.outcome⟩ :
    Metered Exact (Solved Exact Unit τ)) = _
  rw [toArray_drop]
  rfl

end

end Elimination

end LogBarrier

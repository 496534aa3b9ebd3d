import LogBarrier.Augmented
import LogBarrier.Descent.QuasiNewton
import LogBarrier.Proofs.Asks
import LogBarrier.Proofs.Interior
import LogBarrier.Proofs.Pairs

/-!
# Solvers that stay inside

With exact arithmetic, the descent solvers ask the caller's objective at interior points only and
end at one. Trials are real points of the box. Outside the domain of the barrier the augmented value
is infinite and the objective is not asked; a trial with a finite value lies inside, and only there
is the gradient asked.
-/

namespace LogBarrier

open Scalar Exact

variable {n : ℕ} {B : Box Exact n}

/-- The entries of an interior point of the box. -/
def Box.Inside (B : Box Exact n) (z : Array Exact) : Prop :=
  ∃ x : Vector Exact n, z = x.toArray ∧ B.Interior x

/-- A value or a gradient is asked, at an interior point. -/
def Box.Admits (B : Box Exact n) : Call Exact → Prop
  | .value z => B.Inside z
  | .gradient z => B.Inside z
  | .product _ _ => False

theorem Box.Interior.inside {x : Vector Exact n} (h : B.Interior x) : B.Inside x.toArray :=
  ⟨x, rfl, h⟩

/-! ## The augmented objective -/

/-- At a real point the function either has no finite value, or the point is inside. -/
structure Oracle.Inward (F : Oracle Exact n) (B : Box Exact n) : Prop where
  value {x : Vector Exact n} : AllFinite x →
    (F.value x).Asks B.Admits fun v => IsFinite v → B.Interior x
  gradient {x : Vector Exact n} : B.Interior x →
    Trying.Asks (F.gradient x) B.Admits fun _ => True

theorem Augmented.inward (A : Augmented Exact n) (hB : A.box.Regular) :
    A.oracle.Inward A.box where
  value {x} hx := by
    show (A.value x).Asks _ _
    unfold Augmented.value
    dsimp only
    split
    · rw [Metered.asks_pure]
      exact fun h => absurd h Interval.not_isFinite_posInf
    · rename_i hinside
      have hin := hB.interior_of_barrier hx hinside
      unfold Augmented.plainValue
      simp only [Metered.asks_bind, Metered.asks_counting, Metered.asks_call, Metered.asks_pure]
      exact ⟨hin.inside, fun _ => hin⟩
  gradient {x} hx := by
    show Trying.Asks (A.gradient x) _ _
    unfold Augmented.gradient
    have hasked : (A.plainGradient x.toArray).Asks A.box.Admits fun _ => True := by
      unfold Augmented.plainGradient
      rw [Metered.asks_counting, Metered.asks_call]
      exact ⟨hx.inside, trivial⟩
    refine ((Trying.asks_ask _).mpr hasked).bind fun g _ => ?_
    have hsized : Trying.Asks (Trying.of (sized n g)) A.box.Admits fun _ => True :=
      (Trying.asks_of _).mpr fun _ _ => trivial
    exact hsized.bind fun g _ => (Trying.asks_pure _).mpr trivial

variable {F : Oracle Exact n}

theorem finiteValue_asks (hF : F.Inward B) {x : Vector Exact n} (hx : AllFinite x) :
    Trying.Asks (finiteValue F x) B.Admits fun _ => B.Interior x := by
  unfold finiteValue
  refine ((Trying.asks_ask _).mpr (hF.value hx)).bind fun v hv => ?_
  split
  · rename_i hfinite
    rw [Trying.asks_pure]
    exact hv hfinite
  · exact Trying.asks_throw _

theorem finiteGradient_asks (hF : F.Inward B) {x : Vector Exact n} (hx : B.Interior x) :
    Trying.Asks (finiteGradient F x) B.Admits fun g => AllFinite g := by
  unfold finiteGradient
  refine (hF.gradient hx).bind fun g _ => ?_
  split
  · rename_i hfinite
    rw [Trying.asks_of]
    intro g' hg'
    obtain rfl := sized_eq_ok_iff.mp hg'
    obtain ⟨g, rfl⟩ := g'
    exact hfinite
  · exact Trying.asks_throw _

/-! ## Line search -/

theorem LineSearch.go_asks {P : LineSearch Exact} (hrate : IsFinite P.rate) (hF : F.Inward B)
    (hB : B.Regular) {x d : Vector Exact n} (hx : AllFinite x) (hd : AllFinite d) (fx : Exact)
    (g : Vector Exact n) {left : ℕ} {alpha : Exact} (halpha : IsFinite alpha) (last : Exact) :
    (P.go F B x fx g d left alpha last).Asks B.Admits
      fun t => t.accepted = true → B.Interior t.x := by
  -- No trial needs to be inside: that the value there is finite is what makes the accepted one so.
  induction left generalizing alpha last with
  | zero =>
    unfold go
    rw [Metered.asks_pure]
    exact fun h => absurd h Bool.false_ne_true
  | succ left ih =>
    have htrial : AllFinite (arc B x d alpha) :=
      hB.allFinite_project (allFinite_add hx (allFinite_mul halpha hd))
    have hnext := isFinite_mul halpha hrate
    unfold go
    dsimp only
    split
    · rw [Metered.asks_bind]
      refine (hF.value htrial).mono fun v hv => ?_
      split
      · rename_i haccepted
        rw [Metered.asks_pure]
        exact fun _ => hv haccepted.1
      · exact ih hnext v
    · exact ih hnext last

theorem LineSearch.search_asks {P : LineSearch Exact} (hrate : IsFinite P.rate) (hF : F.Inward B)
    (hB : B.Regular) {x d : Vector Exact n} (hx : AllFinite x) (hd : AllFinite d) (fx : Exact)
    (g : Vector Exact n) :
    (P.search F B x fx g d 1).Asks B.Admits
      fun t => t.accepted = true → B.Interior t.x :=
  go_asks hrate hF hB hx hd fx g (isFinite_real 1) _

/-! ## Step lengths -/

/-- A step length between its bounds. -/
def Scaled (t : Exact) : Prop := minScale ≤ t ∧ t ≤ maxScale

theorem Scaled.exists_real {t : Exact} (h : Scaled t) :
    ∃ r : ℝ, t = real r ∧ 1e-10 ≤ r ∧ r ≤ 1e10 := by
  obtain ⟨r, rfl⟩ : ∃ r, t = real r := exists_real_of_le_of_le h.1 h.2
  exact ⟨r, rfl, h⟩

theorem Scaled.isFinite {t : Exact} (h : Scaled t) : IsFinite t := by
  obtain ⟨r, rfl, -⟩ := h.exists_real
  exact isFinite_real r

theorem minScale_le_maxScale : (minScale : Exact) ≤ maxScale := by
  show (1e-10 : ℝ) ≤ 1e10
  norm_num

/-- Whatever number is proposed, the step length is between its bounds. -/
theorem scaled_clampScale (t : Exact) : Scaled (Scalar.min maxScale (Scalar.max minScale t)) := by
  have hmin : (minScale : Exact) ≤ minScale := real_le_real.mpr le_rfl
  have hmax : (maxScale : Exact) ≤ maxScale := real_le_real.mpr le_rfl
  have hle := minScale_le_maxScale
  unfold Scalar.max
  by_cases hlower : minScale ≤ t
  · rw [if_pos hlower]
    unfold Scalar.min
    by_cases hupper : t ≤ maxScale
    · rw [if_pos hupper]
      exact ⟨hlower, hupper⟩
    · rw [if_neg hupper, if_pos hmax]
      exact ⟨hle, hmax⟩
  · rw [if_neg hlower, if_pos hmin]
    unfold Scalar.min
    rw [if_pos hle]
    exact ⟨hmin, hle⟩

theorem scaled_spectralScale (s y : Vector Exact n) : Scaled (spectralScale s y) := by
  unfold spectralScale
  dsimp only
  split
  · exact ⟨minScale_le_maxScale, real_le_real.mpr le_rfl⟩
  · exact scaled_clampScale _

theorem scaled_initialScale (r : Vector Exact n) : Scaled (initialScale r) := by
  unfold initialScale
  split
  · exact scaled_clampScale _
  · show (1e-10 : ℝ) ≤ 1 ∧ (1 : ℝ) ≤ 1e10
    norm_num

/-! ## Descent -/

structure Iterate.Inward (it : Iterate Exact n) (B : Box Exact n) : Prop where
  point : B.Interior it.x
  gradient : AllFinite it.gradient
  scale : IsFinite it.scale

theorem Iterate.start_asks (hF : F.Inward B) {x : Vector Exact n} (hx : AllFinite x) :
    Trying.Asks (Iterate.start F B x) B.Admits fun it => it.Inward B := by
  unfold Iterate.start
  refine (finiteValue_asks hF hx).bind fun v hin => ?_
  refine (finiteGradient_asks hF hin).bind fun g hg => ?_
  rw [Trying.asks_pure]
  exact ⟨hin, hg, (scaled_initialScale _).isFinite⟩

theorem Iterate.Inward.next (it : Iterate Exact n) {t : Trial Exact n} (ht : B.Interior t.x)
    {g : Vector Exact n} (hg : AllFinite g) : (it.next B t g).Inward B where
  point := ht
  gradient := hg
  scale := (scaled_spectralScale ..).isFinite

variable {τ : Type} [Secant Exact τ] [RealSecant τ]

/-- A secant that is missing or has been offered real vectors only. -/
def SoundSecant (h : Option τ) : Prop := ∀ k ∈ h, RealSecant.Sound k

/-- What the iteration needs of a way to find trials and to learn from them. -/
structure Descent.Inward (D : Descent Exact τ n) (B : Box Exact n) : Prop where
  search {h : Option τ} {it : Iterate Exact n} : SoundSecant h → it.Inward B →
    Trying.Asks (D.search h it) B.Admits fun t => t.accepted = true → B.Interior t.x
  learn {h : Option τ} {s y : Vector Exact n} : SoundSecant h → AllFinite s → AllFinite y →
    SoundSecant (D.learn h s y)

structure Exit.Inward (e : Exit Exact τ n) (B : Box Exact n) : Prop where
  point : B.Interior e.x
  secant : SoundSecant e.secant

namespace Descent

variable {D : Descent Exact τ n}

theorem loop_asks (hD : D.Inward B) (hF : F.Inward B) (hB : B.Regular) (tol : Tolerances Exact)
    {left done : ℕ} {it : Iterate Exact n} (hit : it.Inward B) {h : Option τ}
    (hh : SoundSecant h) :
    (D.loop F B tol left done it h).Asks B.Admits fun e => e.Inward B := by
  -- Every way out of the iteration returns an iterate that is known to be inside.
  induction left generalizing done it h with
  | zero =>
    unfold loop
    rw [Metered.asks_pure]
    exact ⟨hit.point, hh⟩
  | succ left ih =>
    unfold loop
    split
    · rw [Metered.asks_pure]
      exact ⟨hit.point, hh⟩
    refine (hD.search hh hit).run_bind (fun e => ?_) fun t ht => ?_
    · exact (Metered.asks_pure _).mpr ⟨hit.point, hh⟩
    dsimp only
    split
    · exact (Metered.asks_pure _).mpr ⟨hit.point, hh⟩
    rename_i haccepted
    have hin := ht (not_not.mp haccepted)
    refine (finiteGradient_asks hF hin).run_bind (fun e => ?_) fun g hg => ?_
    · exact (Metered.asks_pure _).mpr ⟨hit.point, hh⟩
    have hnext := Iterate.Inward.next it hin hg
    have hlearnt := hD.learn hh (allFinite_sub (hB.allFinite hin) (hB.allFinite hit.point))
      (allFinite_sub hg hit.gradient)
    dsimp only
    split
    · exact (Metered.asks_pure _).mpr ⟨hnext.point, hlearnt⟩
    · exact ih hnext hlearnt

theorem solve_asks (hD : D.Inward B) (hF : F.Inward B) (hB : B.Regular) (tol : Tolerances Exact)
    {x : Vector Exact n} (hx : B.Interior x) {h : Option τ} (hh : SoundSecant h) :
    (D.solve F B tol x h).Asks B.Admits fun e => e.Inward B := by
  unfold solve
  rw [hB.project_of_interior hx]
  refine (Iterate.start_asks hF (hB.allFinite hx)).run_bind (fun e => ?_) fun it hit => ?_
  · exact (Metered.asks_pure _).mpr ⟨hx, hh⟩
  · exact loop_asks hD hF hB tol hit hh

/-! ## Both searches -/

theorem spectral_inward {P : LineSearch Exact} (hrate : IsFinite P.rate) (hF : F.Inward B)
    (hB : B.Regular) : (Descent.spectral P F B : Descent Exact τ n).Inward B where
  search {h it} _ hit := by
    have hx := hB.allFinite hit.point
    refine (Trying.asks_ask _).mpr (LineSearch.search_asks hrate hF hB hx ?_ _ _)
    exact allFinite_sub (hB.allFinite_project
      (allFinite_sub hx (allFinite_mul hit.scale hit.gradient))) hx
  learn hh _ _ := hh

end Descent

theorem Box.allFinite_freePart (B : Box Exact n) (x g : Vector Exact n) {v : Vector Exact n}
    (hv : AllFinite v) : AllFinite (B.freePart x g v) := by
  intro i
  show IsFinite ((Vector.ofFn _)[i])
  rw [Fin.getElem_fin, Vector.getElem_ofFn]
  split
  · exact isFinite_real 0
  · exact hv i

theorem allFinite_secantDirection {it : Iterate Exact n} (hit : it.Inward B) {h : Option τ}
    (hh : SoundSecant h) {d : Vector Exact n} (hd : secantDirection? B it h = .ok (some d)) :
    AllFinite d := by
  cases h with
  | none => cases hd
  | some k =>
    unfold secantDirection? at hd
    dsimp only at hd
    split at hd
    · cases hd
    cases hv : Secant.apply k (B.freePart it.x it.gradient it.gradient) with
    | error e =>
      rw [hv] at hd
      cases hd
    | ok v =>
      rw [hv] at hd
      have hv := RealSecant.allFinite_apply (hh k rfl)
        (B.allFinite_freePart _ _ hit.gradient) hv
      simp only [Except.map, Except.ok.injEq] at hd
      split at hd
      · cases hd
        exact B.allFinite_freePart _ _ (allFinite_neg hv)
      · cases hd

theorem Descent.quasiNewton_inward {P : LineSearch Exact} (hrate : IsFinite P.rate)
    (hF : F.Inward B) (hB : B.Regular) :
    (Descent.quasiNewton P F B : Descent Exact τ n).Inward B where
  search {h it} hh hit := by
    have hx := hB.allFinite hit.point
    have hsearch {d : Vector Exact n} (hd : AllFinite d) :
        Trying.Asks (Trying.ask (P.search F B it.x it.value it.gradient d 1)) B.Admits
          fun t => t.accepted = true → B.Interior t.x :=
      (Trying.asks_ask _).mpr (LineSearch.search_asks hrate hF hB hx hd _ _)
    have hscale := isFinite_neg hit.scale
    show Trying.Asks (quasiNewtonSearch P F B h it) _ _
    unfold quasiNewtonSearch
    have hdirection : Trying.Asks (Trying.of (secantDirection? B it h)) B.Admits
        fun d? => ∀ d, d? = some d → AllFinite d := by
      rw [Trying.asks_of]
      rintro _ hd d rfl
      exact allFinite_secantDirection hit hh hd
    refine hdirection.bind fun d? hd? => ?_
    refine (hsearch (d := d?.getD _) ?_).bind fun t ht => ?_
    · cases d? with
      | none => exact allFinite_mul hscale (B.allFinite_freePart _ _ hit.gradient)
      | some d => exact hd? d rfl
    split
    · exact (Trying.asks_pure _).mpr ht
    · -- The first search has failed; the second one goes down the gradient.
      exact hsearch (allFinite_mul hscale hit.gradient)
  learn {h s y} hh hs hy := by
    intro k hk
    obtain ⟨k, hk', rfl⟩ := Option.map_eq_some_iff.mp hk
    exact RealSecant.sound_update (hh k hk') hs hy

/-! ## Solvers -/

/-- From an interior point the solver asks at interior points and ends at one. -/
structure Solver.Inward {σ : Type} (S : Solver Exact σ τ) : Prop where
  solve {n : ℕ} {F : Oracle Exact n} {B : Box Exact n} (hF : F.Inward B) (hB : B.Regular)
    (tol : Tolerances Exact) {x : Vector Exact n} (hx : B.Interior x) (m : σ) {h : Option τ}
    (hh : SoundSecant h) :
    (S.solve F B tol x m h).Asks B.Admits fun r => B.Inside r.x ∧ SoundSecant r.secant

theorem Solver.ofDescent_inward {name : String}
    {D : {n : ℕ} → Oracle Exact n → Box Exact n → Descent Exact τ n}
    (hD : ∀ {n : ℕ} {F : Oracle Exact n} {B : Box Exact n}, F.Inward B → B.Regular →
      (D F B).Inward B) : (Solver.ofDescent name D).Inward where
  solve {n F B} hF hB tol {x} hx m {h} hh := by
    show Metered.Asks ((D F B).solve F B tol x h >>= _) _ _
    rw [Metered.asks_bind]
    refine (Descent.solve_asks (hD hF hB) hF hB tol hx hh).mono fun e he => ?_
    exact (Metered.asks_pure _).mpr ⟨he.point.inside, he.secant⟩

theorem Solver.spectral_inward {P : LineSearch Exact} (hrate : IsFinite P.rate) :
    (Solver.spectral P : Solver Exact Unit τ).Inward :=
  ofDescent_inward (Descent.spectral_inward hrate)

theorem Solver.quasiNewton_inward {P : LineSearch Exact} (hrate : IsFinite P.rate) :
    (Solver.quasiNewton P : Solver Exact Unit τ).Inward :=
  ofDescent_inward (Descent.quasiNewton_inward hrate)

end LogBarrier

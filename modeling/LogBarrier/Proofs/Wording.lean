import LogBarrier.Descent
import LogBarrier.Proofs.Translation

/-!
# Descents in other words

One descent follows another if it searches, learns and tests the same, put in other words. Then the
iterations of both go in step: they make the same calls and end alike.
-/

namespace LogBarrier

open Scalar

variable {α τ : Type} {m n : Nat}

/-- What the words of a descent in `m` variables mean in one with `n` variables. -/
structure Wording (α τ : Type) (m n : Nat) where
  call : Call α → Call α
  vector : Vector α m → Vector α n
  secant : Option τ → Option τ
  message : Message α → Message α

namespace Wording

variable (W : Wording α τ m n)

def trial (t : Trial α m) : Trial α n := ⟨t.alpha, W.vector t.x, t.value, t.accepted⟩

def iterate (it : Iterate α m) : Iterate α n where
  x := W.vector it.x
  value := it.value
  gradient := W.vector it.gradient
  residual := W.vector it.residual
  scale := it.scale

def exit (e : Exit α τ m) : Exit α τ n :=
  ⟨W.vector e.x, W.secant e.secant, e.notes.map W.message, e.outcome⟩

end Wording

variable [Scalar α]

/-- The search of `D` from `it` takes the trial `t`. -/
def Descent.Takes (D : Descent α τ n) (h : Option τ) (it : Iterate α n) (t : Trial α n) : Prop :=
  (D.search h it).run.result = .ok t ∧ t.accepted = true

namespace Wording

variable {F : Oracle α m} {F' : Oracle α n} {B : Box α m} {B' : Box α n} {D : Descent α τ m}
  {D' : Descent α τ n} {Good : Iterate α m → Prop} {W : Wording α τ m n}

/-- From good iterates, `D'` does to `F'` on `B'` what `D` does to `F` on `B`. -/
structure Follows (W : Wording α τ m n) (Good : Iterate α m → Prop) (F : Oracle α m)
    (B : Box α m) (D : Descent α τ m) (F' : Oracle α n) (B' : Box α n) (D' : Descent α τ n) :
    Prop where
  failed (done : Nat) : W.message (.searchFailed D.tag done) = .searchFailed D'.tag done
  stationary {it : Iterate α m} {gtol : α} : Good it →
    ((W.iterate it).Stationary gtol ↔ it.Stationary gtol)
  search {it : Iterate α m} (h : Option τ) : Good it →
    D'.search (W.secant h) (W.iterate it) = (D.search h it).translate W.call W.trial
  gradient {it : Iterate α m} {h : Option τ} {t : Trial α m} : Good it → D.Takes h it t →
    finiteGradient F' (W.vector t.x) = (finiteGradient F t.x).translate W.call W.vector
  length {it : Iterate α m} {h : Option τ} {t : Trial α m} : Good it → D.Takes h it t →
    norm (W.vector t.x - W.vector it.x) = norm (t.x - it.x)
  next {it : Iterate α m} {h : Option τ} {t : Trial α m} {g : Vector α m} : Good it →
    D.Takes h it t → (finiteGradient F t.x).run.result = .ok g →
    (W.iterate it).next B' (W.trial t) (W.vector g) = W.iterate (it.next B t g)
  learn {it : Iterate α m} {h : Option τ} {t : Trial α m} {g : Vector α m} : Good it →
    D.Takes h it t → (finiteGradient F t.x).run.result = .ok g →
    D'.learn (W.secant h) (W.vector t.x - W.vector it.x) (W.vector g - W.vector it.gradient) =
      W.secant (D.learn h (t.x - it.x) (g - it.gradient))
  good {it : Iterate α m} {h : Option τ} {t : Trial α m} {g : Vector α m} : Good it →
    D.Takes h it t → (finiteGradient F t.x).run.result = .ok g → Good (it.next B t g)

variable (hW : W.Follows Good F B D F' B' D')

include hW

theorem Follows.stop {it : Iterate α m} (hit : Good it) (gtol : α) (h : Option τ) (done : Nat) :
    Descent.stop gtol (W.iterate it) (W.secant h) done = W.exit (Descent.stop gtol it h done) := by
  unfold Descent.stop exit
  simp only [hW.stationary hit]
  rfl

/-- By induction on the iterations that are left. -/
theorem Follows.loop {it : Iterate α m} (hit : Good it) (tol : Tolerances α) (left done : Nat)
    (h : Option τ) :
    D'.loop F' B' tol left done (W.iterate it) (W.secant h) =
      (D.loop F B tol left done it h).translate W.call W.exit := by
  induction left generalizing done it h with
  | zero => exact congrArg pure (hW.stop hit tol.gradient h done)
  | succ left ih =>
    unfold Descent.loop
    by_cases hstationary : it.Stationary tol.gradient
    · rw [if_pos hstationary, if_pos ((hW.stationary hit).mpr hstationary), hW.stop hit]
      rfl
    -- Both searches give the same answer, so only iterations that take a trial go on.
    rw [if_neg hstationary, if_neg (mt (hW.stationary hit).mp hstationary), hW.search h hit,
      Trying.run_translate]
    refine Metered.translate_bind ?_
    cases hsearch : (D.search h it).run.result with
    | error e => rfl
    | ok t =>
      show (if ¬ t.accepted = true then _ else _) =
        Metered.translate _ _ (if ¬ t.accepted = true then _ else _)
      by_cases haccepted : t.accepted = true
      · have ht : D.Takes h it t := ⟨hsearch, haccepted⟩
        rw [if_neg (not_not_intro haccepted), if_neg (not_not_intro haccepted)]
        show (finiteGradient F' (W.vector t.x)).run >>= _ = _
        rw [hW.gradient hit ht, Trying.run_translate]
        refine Metered.translate_bind ?_
        cases hg : (finiteGradient F t.x).run.result with
        | error e => rfl
        | ok g =>
          have hnext := hW.good hit ht hg
          show (if norm (W.vector t.x - W.vector it.x) ≤ tol.step then
              pure (Descent.stop _ ((W.iterate it).next _ (W.trial t) (W.vector g))
                (D'.learn _ (W.vector t.x - W.vector it.x) (W.vector g - W.vector it.gradient)) _)
            else Descent.loop _ _ _ _ _ _ ((W.iterate it).next _ (W.trial t) (W.vector g))
              (D'.learn _ (W.vector t.x - W.vector it.x) (W.vector g - W.vector it.gradient))) =
            Metered.translate _ _ (if norm (t.x - it.x) ≤ tol.step then _ else _)
          rw [hW.length hit ht, hW.next hit ht hg, hW.learn hit ht hg]
          split
          · rw [hW.stop hnext]
            rfl
          · exact ih hnext _ _
      · rw [if_pos haccepted, if_pos haccepted, ← hW.failed]
        rfl

/-- Solves go in step from points whose projections correspond, if what starts there is good. -/
theorem Follows.solve {x : Vector α m} {x' : Vector α n}
    (hx : B'.project x' = W.vector (B.project x))
    (hstart : Iterate.start F' B' (W.vector (B.project x)) =
      (Iterate.start F B (B.project x)).translate W.call W.iterate)
    (hgood : ∀ it, (Iterate.start F B (B.project x)).run.result = .ok it → Good it)
    (tol : Tolerances α) (h : Option τ) :
    D'.solve F' B' tol x' (W.secant h) =
      (D.solve F B tol x h).translate W.call W.exit := by
  unfold Descent.solve
  dsimp only
  rw [hx, hstart, Trying.run_translate]
  refine Metered.translate_bind ?_
  cases hit : (Iterate.start F B (B.project x)).run.result with
  | error e => rfl
  | ok it => exact hW.loop (hgood it hit) ..

end Wording

end LogBarrier

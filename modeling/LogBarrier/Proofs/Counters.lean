import LogBarrier.Augmented.Points
import LogBarrier.Double
import LogBarrier.Proofs.Spent
import Mathlib.Algebra.GroupWithZero.Nat

/-!
# The counters of the augmented objective

What the owner of an augmented objective may do with it, in any order and at points of any length,
and what its counters show after that. They see every evaluation but those behind a product with
the second derivative: where the caller's objective has no exact product, it asks for its own
gradient.
-/

namespace LogBarrier

open Scalar

variable {α : Type} [Scalar α] {n : Nat}

/-! ## Products by differences -/

/-- The evaluations of the gradient behind the product with `v` at `x`. The second one is not
reached if `x` cannot be moved along `v`. -/
def Objective.differences (f : Objective α) (x v : Array α) : Nat :=
  if f.product?.isSome ∨ Same (norm v.toVector) 0 then 0 else if v.size = x.size then 2 else 1

theorem Objective.differences_eq_zero_iff {f : Objective α} {x v : Array α} :
    f.differences x v = 0 ↔ (f.product? = none → Same (norm v.toVector) 0) := by
  unfold differences
  cases f.product? with
  | some h => simp
  | none =>
    by_cases hv : Same (norm v.toVector) 0
    · rw [if_pos (.inr hv)]
      exact iff_of_true rfl fun _ => hv
    · rw [if_neg (not_or.mpr ⟨nofun, hv⟩)]
      exact iff_of_false (by split <;> simp) fun h => hv (h rfl)

/-- Nobody counts the evaluations behind a product. -/
theorem Objective.misses_productAt (f : Objective α) (x : Vector α n) (v : Array α) :
    Trying.Misses (f.productAt x v) ⟨0, f.differences x.toArray v⟩ := by
  unfold productAt differences
  cases f.product? with
  | some h => exact Metered.Misses.map (Metered.misses_call _ _) _
  | none =>
    unfold forwardDifference
    by_cases hv : Same (norm v.toVector) 0
    · simp only [if_pos hv, if_pos (Or.inr hv)]
      exact Trying.tallied_pure _
    · simp only [if_neg hv, Option.isSome_none, Bool.false_eq_true, false_or, x.size_toArray]
      by_cases hsize : v.size = n
      · rw [if_pos hsize]
        refine Trying.Misses.ask_bind (k := ⟨0, 1⟩) (l := ⟨0, 1⟩) (Metered.misses_call _ _) ?_
        rw [sized, dif_pos hsize, Trying.of_ok, pure_bind]
        refine (Trying.Misses.ask (Metered.misses_call _ _)).bind_tallied fun shifted => ?_
        exact (Trying.tallied_of _).bind_tallied fun _ => Trying.tallied_pure _
      · rw [if_neg hsize, sized_of_ne hsize]
        exact Trying.Misses.ask_bind (k := ⟨0, 1⟩) (l := 0) (Metered.misses_call _ _) rfl

namespace Augmented

/-! ## What the owner may ask -/

inductive Use (α : Type) where
  | value (x : Array α)
  | gradient (x : Array α)
  | product (x v : Array α)
  | barrier (x : Array α)
  | slopes (x : Array α)
  | curvatures (x : Array α)
  | plainValue (x : Array α)
  | plainGradient (x : Array α)
  | damped (x : Array α)
  | setMu (mu : α)

inductive Answer (α : Type) where
  | number (t : α)
  | entries (xs : Array α)
  | variables (is : List Nat)
  | done

def use (A : Augmented α n) : Use α → Trying α (Answer α)
  | .value x => return .number (← A.valueAt x)
  | .gradient x => return .entries (← A.gradientAt x)
  | .product x v => return .entries (← A.productAt x v)
  | .barrier x => return .number (← Trying.of (A.barrierAt x))
  | .slopes x => return .entries (← Trying.of (A.barrierSlopesAt x))
  | .curvatures x => return .entries (← Trying.of (A.barrierCurvaturesAt x))
  | .plainValue x => return .number (← Trying.ask (A.plainValue x))
  | .plainGradient x => return .entries (← Trying.ask (A.plainGradient x))
  | .damped x => return .variables ((← Trying.of (A.dampedAt x.size)).map Fin.val)
  | .setMu _ => return .done

/-- The augmented objective after a use, answered or not. -/
def after (A : Augmented α n) (u : Use α) : Augmented α n :=
  let A := A.count (A.use u).run.tally
  match u with
  | .setMu mu => { A with mu }
  | _ => A

/-- The augmented objective after a series of uses, and the calls of the caller's objective made in
it. -/
def series (A : Augmented α n) : List (Use α) → Augmented α n × List (Call α)
  | [] => (A, [])
  | u :: us =>
    let (B, calls) := (A.after u).series us
    (B, (A.use u).run.calls ++ calls)

@[simp] theorem objective_after (A : Augmented α n) (u : Use α) :
    (A.after u).objective = A.objective := by
  cases u <;> rfl

@[simp] theorem tally_after (A : Augmented α n) (u : Use α) :
    (A.after u).tally = A.tally + (A.use u).run.tally := by
  cases u <;> rfl

/-! ## One use -/

omit [Scalar α] in
theorem tallied_plainValue (A : Augmented α n) (x : Array α) : (A.plainValue x).Tallied :=
  Metered.Misses.counting (Metered.misses_call _ _)

omit [Scalar α] in
theorem tallied_plainGradient (A : Augmented α n) (x : Array α) : (A.plainGradient x).Tallied :=
  Metered.Misses.counting (Metered.misses_call _ _)

theorem tallied_value (A : Augmented α n) (x : Vector α n) : (A.value x).Tallied := by
  unfold value
  dsimp only
  split
  · exact Metered.tallied_pure _
  · exact (A.tallied_plainValue _).bind_tallied fun _ => Metered.tallied_pure _

theorem tallied_gradient (A : Augmented α n) (x : Vector α n) : Trying.Tallied (A.gradient x) := by
  unfold gradient
  refine (Trying.Misses.ask (A.tallied_plainGradient _)).bind_tallied fun g => ?_
  exact (Trying.tallied_of _).bind_tallied fun _ => Trying.tallied_pure _

theorem misses_product (A : Augmented α n) (x : Vector α n) (v : Array α) :
    Trying.Misses (A.product x v) ⟨0, A.objective.differences x.toArray v⟩ := by
  unfold product
  refine (A.objective.misses_productAt x v).bind_tallied fun h => ?_
  refine (Trying.tallied_of _).bind_tallied fun v => ?_
  exact (Trying.tallied_of _).bind_tallied fun _ => Trying.tallied_pure _

theorem tallied_valueAt (A : Augmented α n) (x : Array α) : Trying.Tallied (A.valueAt x) := by
  unfold valueAt
  split
  · exact Trying.Misses.ask (tallied_value _ _)
  · exact Trying.tallied_of _

theorem tallied_gradientAt (A : Augmented α n) (x : Array α) :
    Trying.Tallied (A.gradientAt x) := by
  unfold gradientAt
  split
  · exact tallied_gradient _ _
  · exact (Trying.Misses.ask (A.tallied_plainGradient x)).bind_tallied fun _ =>
      Trying.tallied_throw _

theorem misses_productAt (A : Augmented α n) (x v : Array α) :
    Trying.Misses (A.productAt x v) ⟨0, A.objective.differences x v⟩ := by
  unfold productAt
  split
  · rename_i h
    exact (A.leading h).misses_product _ v
  · exact (A.objective.misses_productAt _ v).bind_tallied fun _ => Trying.tallied_throw _

/-- The evaluations in a use that the counters do not see. -/
def Use.unseen (f : Objective α) : Use α → Nat
  | .product x v => f.differences x v
  | _ => 0

theorem misses_use (A : Augmented α n) (u : Use α) :
    Trying.Misses (A.use u) ⟨0, u.unseen A.objective⟩ := by
  have answered {β : Type} {m : Trying α β} {k : Tally} (h : Trying.Misses m k)
      (answer : β → Answer α) : Trying.Misses (m >>= fun b => pure (answer b)) k :=
    h.bind_tallied fun _ => Trying.tallied_pure _
  cases u with
  | value x => exact answered (A.tallied_valueAt x) _
  | gradient x => exact answered (A.tallied_gradientAt x) _
  | product x v => exact answered (A.misses_productAt x v) _
  | barrier x => exact answered (Trying.tallied_of _) _
  | slopes x => exact answered (Trying.tallied_of _) _
  | curvatures x => exact answered (Trying.tallied_of _) _
  | plainValue x => exact answered (Trying.Misses.ask (A.tallied_plainValue x)) _
  | plainGradient x => exact answered (Trying.Misses.ask (A.tallied_plainGradient x)) _
  | damped x => exact answered (Trying.tallied_of _) _
  | setMu mu => exact Trying.tallied_pure _

/-! ## A series of uses -/

/-- The counters fall behind by the evaluations they do not see. -/
theorem misses_series (A : Augmented α n) (us : List (Use α)) :
    A.tally + .ofCalls (A.series us).2 =
      (A.series us).1.tally + ⟨0, (us.map (Use.unseen A.objective)).sum⟩ := by
  induction us generalizing A with
  | nil => rfl
  | cons u us ih =>
    have hu : Tally.ofCalls (A.use u).run.calls = _ := A.misses_use u
    have hus := ih (A.after u)
    rw [tally_after, objective_after] at hus
    calc A.tally + .ofCalls (A.series (u :: us)).2
      _ = A.tally + (A.use u).run.tally + .ofCalls ((A.after u).series us).2 +
          ⟨0, u.unseen A.objective⟩ := by
        rw [series, Tally.ofCalls_append, hu]
        apply Tally.eq_of_parts <;> simp only [Tally.values_add, Tally.gradients_add] <;> omega
      _ = _ := by
        rw [hus, List.map_cons, List.sum_cons, series, Tally.add_assoc]
        congr 1
        exact Tally.eq_of_parts rfl (Nat.add_comm _ _)

/-- The counters of an augmented objective show what was evaluated, whatever was done with it,
exactly as long as no product was taken by differences. -/
theorem counters_exact_iff (f : Objective α) (B : Box α n) (mu kappa : α) (damping : Bool)
    (us : List (Use α)) :
    let r := (start f B mu kappa damping).series us
    r.1.tally = .ofCalls r.2 ↔
      (f.product? = none → ∀ x v, .product x v ∈ us → Same (norm v.toVector) 0) := by
  intro r
  have hmissed : .ofCalls r.2 = r.1.tally + ⟨0, (us.map (Use.unseen f)).sum⟩ :=
    (Tally.zero_add _).symm.trans (misses_series (start f B mu kappa damping) us)
  have hexact : r.1.tally = .ofCalls r.2 ↔ (us.map (Use.unseen f)).sum = 0 := by
    rw [hmissed, Tally.eq_add_iff]
    exact ⟨congrArg Tally.gradients, fun h => Tally.eq_of_parts rfl h⟩
  rw [hexact, List.sum_eq_zero_iff_forall_eq_nat, List.forall_mem_map]
  constructor
  · exact fun h hf x v hu => Objective.differences_eq_zero_iff.mp (h _ hu) hf
  · intro h u hu
    cases u with
    | product x v => exact Objective.differences_eq_zero_iff.mpr fun hf => h hf x v hu
    | _ => rfl

end Augmented

/-! ## A product by differences -/

/-- Half the square of the first coordinate, with no exact product. -/
def Objective.parabola : Objective Float where
  value x := 0.5 * x[0]! * x[0]!
  gradient x := #[x[0]!]
  product? := none

/-- The gradient is evaluated twice behind one product, and the counters show nothing. -/
theorem Augmented.exists_counters_off :
    let r := (start .parabola (.free 1) 1 1e-4 true).series [.product #[1] #[1]]
    r.1.tally = 0 ∧ r.1.tally ≠ .ofCalls r.2 := by
  decide +kernel

end LogBarrier

import LogBarrier.Descent.QuasiNewton
import LogBarrier.Proofs.Positions

/-!
# Searches along steepest descent

Steepest descent on all variables and on those that are not held are two directions for the same
search. At every length that is not negative a held variable is clamped back to where it was, and
the two directions lead to one trial. A negative length, which only a negative rate brings about,
leads uphill in every variable that moves, so that neither trial is asked for its value.
-/

namespace LogBarrier

open Scalar Exact
open scoped Matrix

variable {n : ℕ}

namespace LineSearch

/-! ## Two directions -/

section

variable {α : Type}

/-- Two searches with the same questions that end at the same length with the same value, both
accepted or both rejected. An accepted one ends at the same point, too. -/
structure SameSearch (m m' : Metered α (Trial α n)) : Prop where
  calls : m.calls = m'.calls
  alpha : m.result.alpha = m'.result.alpha
  value : m.result.value = m'.result.value
  accepted : m.result.accepted = m'.result.accepted
  point : m.result.accepted = true → m.result.x = m'.result.x

theorem SameSearch.of_eq {m m' : Metered α (Trial α n)} (hresult : m.result = m'.result)
    (hcalls : m.calls = m'.calls) : SameSearch m m' := by
  refine ⟨hcalls, ?_, ?_, ?_, fun _ => ?_⟩ <;> rw [hresult]

/-- The same questions may come before both searches. -/
theorem SameSearch.of_rest {m m' rest rest' : Metered α (Trial α n)} {first : List (Call α)}
    (h : SameSearch rest rest')
    (hm : m.result = rest.result ∧ m.calls = first ++ rest.calls)
    (hm' : m'.result = rest'.result ∧ m'.calls = first ++ rest'.calls) : SameSearch m m' := by
  obtain ⟨hresult, hcalls⟩ := hm
  obtain ⟨hresult', hcalls'⟩ := hm'
  refine ⟨?_, ?_, ?_, ?_, ?_⟩
  · rw [hcalls, hcalls', h.calls]
  · rw [hresult, hresult', h.alpha]
  · rw [hresult, hresult', h.value]
  · rw [hresult, hresult', h.accepted]
  · rw [hresult, hresult']
    exact h.point

variable [Scalar α]

/-- The directions `d` and `d'` lead to one trial of length `alpha`, or to two of no promise. -/
def Alike (B : Box α n) (x g d d' : Vector α n) (alpha : α) : Prop :=
  arc B x d alpha = arc B x d' alpha ∨
    ¬ Promises x g (arc B x d alpha) ∧ ¬ Promises x g (arc B x d' alpha)

variable {P : LineSearch α} {F : Oracle α n} {B : Box α n} {x g d d' : Vector α n} {fx alpha : α}

theorem lengthOf_mul_rate (P : LineSearch α) (alpha : α) (k : ℕ) :
    P.lengthOf (alpha * P.rate) k = P.lengthOf alpha (k + 1) := by
  induction k with
  | zero => rfl
  | succ k ih => exact congrArg (· * P.rate) ih

/-- Directions that are alike at all lengths are searched alike. -/
theorem go_of_alike {left : ℕ} (h : ∀ k < left, Alike B x g d d' (P.lengthOf alpha k))
    (F : Oracle α n) (fx last : α) :
    SameSearch (P.go F B x fx g d left alpha last) (P.go F B x fx g d' left alpha last) := by
  induction left generalizing alpha last with
  | zero => exact ⟨rfl, rfl, rfl, rfl, nofun⟩
  | succ left ih =>
    have hnow : Alike B x g d d' alpha := h 0 (Nat.succ_pos left)
    have hlater (last : α) : SameSearch (P.go F B x fx g d left (alpha * P.rate) last)
        (P.go F B x fx g d' left (alpha * P.rate) last) := by
      refine ih (fun k hk => ?_) last
      rw [lengthOf_mul_rate]
      exact h (k + 1) (Nat.succ_lt_succ hk)
    by_cases hpromises : Promises x g (arc B x d alpha)
    · have harc := hnow.resolve_right fun hnone => hnone.1 hpromises
      by_cases hsuffices : P.Suffices F x fx g (arc B x d alpha)
      · obtain ⟨hresult, hcalls⟩ := go_of_suffices hpromises hsuffices left last
        rw [harc] at hpromises hsuffices hresult hcalls
        obtain ⟨hresult', hcalls'⟩ := go_of_suffices hpromises hsuffices left last
        exact .of_eq (hresult.trans hresult'.symm) (hcalls.trans hcalls'.symm)
      · have hm := go_of_rejected (P := P) (fun _ => hsuffices) left last
        rw [harc] at hm hsuffices
        have hm' := go_of_rejected (P := P) (fun _ => hsuffices) left last
        exact (hlater _).of_rest hm hm'
    · have hpromises' : ¬ Promises x g (arc B x d' alpha) := by
        rcases hnow with harc | ⟨-, hnone⟩
        · rwa [← harc]
        · exact hnone
      have hrejects : P.Rejects F x fx g (arc B x d alpha) := fun hp => absurd hp hpromises
      have hrejects' : P.Rejects F x fx g (arc B x d' alpha) := fun hp => absurd hp hpromises'
      have hm := go_of_rejected hrejects left last
      have hm' := go_of_rejected hrejects' left last
      rw [if_neg hpromises, if_neg hpromises] at hm
      rw [if_neg hpromises', if_neg hpromises'] at hm'
      exact (hlater last).of_rest hm hm'

theorem get_arc (B : Box α n) (x d : Vector α n) (alpha : α) (i : Fin n) :
    (arc B x d alpha).get i = (B.side i).clamp (x.get i + alpha * d.get i) := by
  rw [arc, Box.get_project]
  congr 1
  show (x + alpha * d)[i.val] = _
  rw [Vector.getElem_add, Vector.getElem_hmul]
  rfl

end

end LineSearch

/-! ## Held variables -/

theorem Interval.Regular.clamp_add_of_holds {I : Interval Exact} (hI : I.Regular) {x : Exact}
    (hx : I.Contains x) {b c : ℝ} (h : I.Holds x (real b)) (hcb : c * b ≤ 0) :
    I.clamp (x + real c) = x := by
  cases x with
  | nan => exact absurd hx.1 (not_le_nan _)
  | negInf => exact clamp_of_contains hx
  | posInf => exact clamp_of_contains hx
  | real a =>
    rw [real_add_real, ← sub_neg_eq_add, hI.clamp_sub_eq_iff hx, neg_eq_zero, neg_pos,
      neg_neg_iff_pos]
    rcases h with ⟨hlower, hb⟩ | ⟨hupper, hb⟩
    · have hb : 0 < b := hb
      rcases (nonpos_of_mul_nonpos_left hcb hb).eq_or_lt with hc | hc
      · exact .inl hc
      · exact .inr (.inl ⟨Exact.le_antisymm hlower hx.1, hc⟩)
    · have hb : b < 0 := hb
      rcases (nonneg_of_mul_nonpos_left hcb hb).eq_or_lt with hc | hc
      · exact .inl hc.symm
      · exact .inr (.inr ⟨Exact.le_antisymm hx.2 hupper, hc⟩)

namespace Box

variable {B : Box Exact n} {x g : Vector Exact n} {b c : Fin n → ℝ} {s t : ℝ}

theorem freePart_eq_vec (B : Box Exact n) (x : Vector Exact n) (b v : Fin n → ℝ) :
    B.freePart x (vec b) (vec v) =
      vec fun i => if (B.side i).Holds (x.get i) (real (b i)) then 0 else v i := by
  refine eq_vec_iff.mpr fun i => (Vector.getElem_ofFn i.isLt).trans ?_
  show (if (B.side i).Holds (x.get i) ((vec b).get i) then 0 else (vec v).get i) = _
  rw [get_vec, get_vec]
  split <;> rfl

/-- The gradient on the variables that are not held, entry by entry. -/
theorem exists_freePart (B : Box Exact n) (x : Vector Exact n) (b : Fin n → ℝ) :
    ∃ w : Fin n → ℝ, B.freePart x (vec b) (vec b) = vec w ∧
      ∀ i, (B.side i).Holds (x.get i) (real (b i)) ∧ w i = 0 ∨ w i = b i := by
  refine ⟨_, B.freePart_eq_vec x b b, fun i => ?_⟩
  by_cases hi : (B.side i).Holds (x.get i) (real (b i))
  · exact .inl ⟨hi, if_pos hi⟩
  · exact .inr (if_neg hi)

/-- At lengths that are not negative the held variables stay where they are. -/
theorem Regular.arc_freePart (hB : B.Regular) (hx : B.Feasible x) (b : Fin n → ℝ) (ht : 0 ≤ t)
    (hs : 0 ≤ s) : LineSearch.arc B x (-real t * B.freePart x (vec b) (vec b)) (real s) =
      LineSearch.arc B x (-real t * vec b) (real s) := by
  obtain ⟨w, hw, hentry⟩ := B.exists_freePart x b
  rw [hw, neg_real, real_mul_vec, real_mul_vec]
  refine ext_get fun i => ?_
  rw [LineSearch.get_arc, LineSearch.get_arc, get_vec, get_vec, real_mul_real, real_mul_real,
    Pi.smul_apply, Pi.smul_apply, smul_eq_mul, smul_eq_mul]
  rcases hentry i with ⟨hholds, hzero⟩ | hsame
  · have hback : s * (-t * b i) * b i ≤ 0 := by
      have := mul_nonneg (mul_nonneg hs ht) (mul_self_nonneg (b i))
      linarith
    rw [(hB i).clamp_add_of_holds (hx i) hholds hback, hzero, mul_zero, mul_zero]
    exact (hB i).clamp_add_of_holds (hx i) hholds (by rw [zero_mul])
  · rw [hsame]

/-- Infinite coordinates do not move, and the difference is `nan`. -/
theorem Regular.allFinite_of_descends (hx : B.Feasible x)
    (h : dot g (LineSearch.arc B x (vec c) (real s) - x) < 0) : AllFinite x := by
  have hnumber : IsNumber (dot g (LineSearch.arc B x (vec c) (real s) - x)) :=
    OrderedScalar.le_refl_left (OrderedScalar.le_of_lt h)
  intro i
  have hi : IsNumber ((LineSearch.arc B x (vec c) (real s) - x)[i.val]) :=
    (allNumbers_of_dot hnumber).2 i
  rw [Vector.getElem_sub] at hi
  change IsNumber ((LineSearch.arc B x (vec c) (real s)).get i - x.get i) at hi
  rw [LineSearch.get_arc, get_vec, real_mul_real] at hi
  have hxi := hx i
  cases hcase : x.get i with
  | real r => exact isFinite_real r
  | nan =>
    rw [hcase] at hxi
    exact absurd hxi.1 (not_le_nan _)
  | negInf =>
    rw [hcase] at hi hxi
    have hstays : (B.side i).clamp (negInf + real (s * c i)) = negInf :=
      Interval.clamp_of_contains hxi
    rw [hstays] at hi
    exact hi.elim
  | posInf =>
    rw [hcase] at hi hxi
    have hstays : (B.side i).clamp (posInf + real (s * c i)) = posInf :=
      Interval.clamp_of_contains hxi
    rw [hstays] at hi
    exact hi.elim

/-- A negative length along steepest descent, in some variables or in all of them, does not lead
down. -/
theorem Regular.not_promises_of_neg (hB : B.Regular) (hx : B.Feasible x) (ht : 0 < t)
    (hc : ∀ i, c i = 0 ∨ c i = -t * b i) (hs : s < 0) :
    ¬ LineSearch.Promises x (vec b) (LineSearch.arc B x (vec c) (real s)) := by
  rintro ⟨-, hdown⟩
  obtain ⟨a, rfl⟩ := allFinite_iff.mp (Regular.allFinite_of_descends hx hdown)
  rw [hB.arc_vec, vec_sub_vec, dot_vec, real_lt_zero] at hdown
  refine hdown.not_ge (Finset.sum_nonneg fun i _ => ?_)
  have hi := hx i
  rw [get_vec] at hi
  show 0 ≤ b i * (B.nearest (a + s • c) i - a i)
  have hobtuse := (hB i).clamp_obtuse (hB.clamp_eq_nearest (a + s • c) i) hi
  rw [Pi.add_apply, Pi.smul_apply, smul_eq_mul] at hobtuse
  generalize B.nearest (a + s • c) i = q at hobtuse
  rcases hc i with hzero | hsteep
  · rw [hzero, mul_zero, add_zero] at hobtuse
    have hstays : a i - q = 0 := mul_self_eq_zero.mp (le_antisymm hobtuse (mul_self_nonneg _))
    rw [← neg_sub, hstays, neg_zero, mul_zero]
  · rw [hsteep] at hobtuse
    have hlength : s * t < 0 := mul_neg_of_neg_of_pos hs ht
    by_contra hup
    have := mul_pos_of_neg_of_neg hlength (not_le.mp hup)
    nlinarith [mul_self_nonneg (a i - q)]

theorem Regular.alike_freePart (hB : B.Regular) (hx : B.Feasible x) (b : Fin n → ℝ) (ht : 0 < t)
    (s : ℝ) : LineSearch.Alike B x (vec b) (-real t * B.freePart x (vec b) (vec b))
      (-real t * vec b) (real s) := by
  rcases le_or_gt 0 s with hs | hs
  · exact .inl (hB.arc_freePart hx b ht.le hs)
  · obtain ⟨w, hw, hentry⟩ := B.exists_freePart x b
    rw [hw, neg_real, real_mul_vec, real_mul_vec]
    refine .inr ⟨hB.not_promises_of_neg hx ht (fun i => ?_) hs,
      hB.not_promises_of_neg hx ht (fun i => .inr rfl) hs⟩
    rw [Pi.smul_apply, smul_eq_mul]
    rcases hentry i with ⟨-, hzero⟩ | hsame
    · rw [hzero, mul_zero]
      exact .inl rfl
    · rw [hsame]
      exact .inr rfl

end Box

/-! ## The search -/

namespace LineSearch

variable {P : LineSearch Exact} {B : Box Exact n} {x g d d' : Vector Exact n} {r t alpha : ℝ}

theorem sameSearch_freePart (hB : B.Regular) (hr : P.rate = real r) (hx : B.Feasible x)
    (b : Fin n → ℝ) (ht : 0 < t) (F : Oracle Exact n) (fx : Exact) (alpha : ℝ) :
    SameSearch (P.search F B x fx (vec b) (-real t * B.freePart x (vec b) (vec b)) (real alpha))
      (P.search F B x fx (vec b) (-real t * vec b) (real alpha)) := by
  refine go_of_alike (fun k _ => ?_) F fx inf
  rw [lengthOf_real hr]
  exact hB.alike_freePart hx b ht _

/-- Where the lengths are not negative it is enough that the arcs agree on these. -/
theorem go_congr (hr : P.rate = real r) (hr0 : 0 ≤ r)
    (h : ∀ s, 0 ≤ s → arc B x d (real s) = arc B x d' (real s)) (F : Oracle Exact n)
    (fx last : Exact) {left : ℕ} (halpha : 0 ≤ alpha) :
    P.go F B x fx g d left (real alpha) last = P.go F B x fx g d' left (real alpha) last := by
  induction left generalizing alpha last with
  | zero =>
    unfold go
    rw [h alpha halpha]
  | succ left ih =>
    have hlater (last : Exact) : P.go F B x fx g d left (real alpha * P.rate) last =
        P.go F B x fx g d' left (real alpha * P.rate) last := by
      rw [hr, real_mul_real]
      exact ih last (mul_nonneg halpha hr0)
    unfold go
    simp only [h alpha halpha, hlater]

/-- A search without any promise ends at the length after the last one. -/
theorem search_of_not_promises (hr : P.rate = real r)
    (h : ∀ s, ¬ Promises x g (arc B x d (real s))) (F : Oracle Exact n) (fx : Exact) (alpha : ℝ) :
    (P.search F B x fx g d (real alpha)).result.x =
      arc B x d (real (alpha * r ^ (P.maxBacktracks + 1))) := by
  have hrejected (j : ℕ) (_ : j < P.maxBacktracks + 1) :
      P.Rejects F x fx g (P.point B x d (real alpha) j) := by
    intro hpromises
    rw [point, lengthOf_real hr] at hpromises
    exact absurd hpromises (h _)
  rw [search, (go_exhausted inf hrejected).1]
  dsimp only
  rw [point, lengthOf_real hr]

theorem search_freePart (hB : B.Regular) (hr : P.rate = real r) (hr0 : 0 ≤ r) (hx : B.Feasible x)
    (b : Fin n → ℝ) (ht : 0 < t) (F : Oracle Exact n) (fx : Exact) (halpha : 0 ≤ alpha) :
    P.search F B x fx (vec b) (-real t * B.freePart x (vec b) (vec b)) (real alpha) =
      P.search F B x fx (vec b) (-real t * vec b) (real alpha) :=
  go_congr hr hr0 (fun _ hs => hB.arc_freePart hx b ht.le hs) F fx inf halpha

end LineSearch

end LogBarrier

import LogBarrier.LineSearch
import LogBarrier.Proofs.Counters
import Mathlib.Data.Nat.Find

/-!
# The trials of a search

Each rejection multiplies the length by the rate, so the trials of a search are known before it
starts. It comes to trial `k` if all trials before are rejected; what it has asked by then and the
value that it holds follow from these trials. The first acceptable trial is the one that it returns.
A search that runs out of trials has moved on to the length after its last one, and returns that
length and the point there with the value computed last.
-/

namespace LogBarrier

open Scalar

namespace LineSearch

variable {α : Type} [Scalar α] {n : Nat}

/-! ## Trials -/

/-- The length that is left of `alpha` after `k` rejections. -/
def lengthOf (P : LineSearch α) (alpha : α) : Nat → α
  | 0 => alpha
  | k + 1 => P.lengthOf alpha k * P.rate

/-- The point of trial `k`. -/
def point (P : LineSearch α) (B : Box α n) (x d : Vector α n) (alpha : α) (k : Nat) : Vector α n :=
  arc B x d (P.lengthOf alpha k)

/-- The point `t` is away from `x`, and the gradient `g` predicts a decrease there. -/
abbrev Promises (x g t : Vector α n) : Prop := 0 < norm (t - x) ∧ dot g (t - x) < 0

/-- The value at `t` is finite and falls as asked for. -/
abbrev Suffices (P : LineSearch α) (F : Oracle α n) (x : Vector α n) (fx : α) (g t : Vector α n) :
    Prop :=
  IsFinite (F.value t).result ∧ (F.value t).result ≤ fx + P.fraction * dot g (t - x)

/-- The trial `t` is not acceptable: it is passed over, or its value does not suffice. -/
abbrev Rejects (P : LineSearch α) (F : Oracle α n) (x : Vector α n) (fx : α) (g t : Vector α n) :
    Prop :=
  Promises x g t → ¬ P.Suffices F x fx g t

/-- The value computed last before trial `k`, `last` if there is none. -/
def held (F : Oracle α n) (x g : Vector α n) (t : Nat → Vector α n) (last : α) : Nat → α
  | 0 => last
  | k + 1 => if Promises x g (t k) then (F.value (t k)).result else held F x g t last k

/-- What is asked in the trials before `k`. -/
def asked (F : Oracle α n) (x g : Vector α n) (t : Nat → Vector α n) (k : Nat) :
    List (Call α) :=
  ((List.range k).filter fun j => decide (Promises x g (t j))).flatMap fun j => (F.value (t j)).calls

variable {P : LineSearch α} {F : Oracle α n} {B : Box α n} {x g d : Vector α n}
  {t : Nat → Vector α n} {fx alpha last : α} {k left : Nat}

theorem asked_succ : asked F x g t (k + 1) =
    asked F x g t k ++ if Promises x g (t k) then (F.value (t k)).calls else [] := by
  unfold asked
  rw [List.range_succ, List.filter_append, List.flatMap_append]
  congr 1
  by_cases hpromises : Promises x g (t k)
  · simp [hpromises]
  · simp [hpromises]

/-! ## One trial -/

/-- An acceptable trial ends the search. -/
theorem go_of_suffices (hpromises : Promises x g (arc B x d alpha))
    (hsuffices : P.Suffices F x fx g (arc B x d alpha)) (left : Nat) (last : α) :
    let m := P.go F B x fx g d (left + 1) alpha last
    m.result = ⟨alpha, arc B x d alpha, (F.value (arc B x d alpha)).result, true⟩ ∧
      m.calls = (F.value (arc B x d alpha)).calls := by
  intro m
  have hm : m = P.go F B x fx g d (left + 1) alpha last := rfl
  unfold go at hm
  dsimp only at hm
  rw [if_pos hpromises] at hm
  constructor
  · rw [hm, Metered.result_bind, if_pos hsuffices]
    rfl
  · rw [hm, Metered.calls_bind, if_pos hsuffices]
    exact List.append_nil _

/-- After a rejection the search goes on with the next length. It holds on to the value that it has
just computed, if it has computed one. -/
theorem go_of_rejected (h : P.Rejects F x fx g (arc B x d alpha)) (left : Nat) (last : α) :
    let m := P.go F B x fx g d (left + 1) alpha last
    let rest := P.go F B x fx g d left (alpha * P.rate)
      (if Promises x g (arc B x d alpha) then (F.value (arc B x d alpha)).result else last)
    m.result = rest.result ∧
      m.calls = (if Promises x g (arc B x d alpha) then (F.value (arc B x d alpha)).calls else []) ++
        rest.calls := by
  intro m
  have hm : m = P.go F B x fx g d (left + 1) alpha last := rfl
  unfold go at hm
  dsimp only at hm
  by_cases hpromises : Promises x g (arc B x d alpha)
  · rw [if_pos hpromises] at hm
    rw [if_pos hpromises, if_pos hpromises]
    constructor
    · rw [hm, Metered.result_bind, if_neg (h hpromises)]
    · rw [hm, Metered.calls_bind, if_neg (h hpromises)]
  · rw [if_neg hpromises] at hm
    rw [if_neg hpromises, if_neg hpromises, hm]
    exact ⟨rfl, rfl⟩

/-! ## The whole search -/

/-- What remains of a search when it comes to trial `k`. -/
theorem go_after (hrejected : ∀ j < k, P.Rejects F x fx g (P.point B x d alpha j)) (left : Nat)
    (last : α) :
    let m := P.go F B x fx g d (left + k) alpha last
    let rest := P.go F B x fx g d left (P.lengthOf alpha k)
      (held F x g (P.point B x d alpha) last k)
    m.result = rest.result ∧ m.calls = asked F x g (P.point B x d alpha) k ++ rest.calls := by
  -- The search peels trials off at the front, the induction adds one at the back.
  induction k generalizing left with
  | zero => exact ⟨rfl, rfl⟩
  | succ k ih =>
    obtain ⟨hresult, hcalls⟩ := ih (fun j hj => hrejected j (Nat.lt_succ_of_lt hj)) (left + 1)
    obtain ⟨hstep, hasked⟩ := go_of_rejected (hrejected k (Nat.lt_succ_self k)) left
      (held F x g (P.point B x d alpha) last k)
    rw [Nat.succ_add_eq_add_succ] at hresult hcalls
    constructor
    · exact hresult.trans hstep
    · rw [asked_succ, List.append_assoc]
      exact hcalls.trans (congrArg (_ ++ ·) hasked)

/-- The first acceptable trial is returned. -/
theorem go_first (last : α) (hk : k < left) (hpromises : Promises x g (P.point B x d alpha k))
    (hsuffices : P.Suffices F x fx g (P.point B x d alpha k))
    (hrejected : ∀ j < k, P.Rejects F x fx g (P.point B x d alpha j)) :
    let m := P.go F B x fx g d left alpha last
    let t := P.point B x d alpha
    m.result = ⟨P.lengthOf alpha k, t k, (F.value (t k)).result, true⟩ ∧
      m.calls = asked F x g t (k + 1) := by
  obtain ⟨more, rfl⟩ := Nat.exists_eq_add_of_lt hk
  obtain ⟨hresult, hcalls⟩ := go_after hrejected (more + 1) last
  obtain ⟨hlast, hasked⟩ := go_of_suffices hpromises hsuffices more
    (held F x g (P.point B x d alpha) last k)
  rw [show k + more + 1 = more + 1 + k by omega]
  constructor
  · exact hresult.trans hlast
  · rw [asked_succ, if_pos hpromises]
    exact hcalls.trans (congrArg (_ ++ ·) hasked)

/-- Without an acceptable trial the search stands at the length after the last one. -/
theorem go_exhausted (last : α)
    (hrejected : ∀ j < left, P.Rejects F x fx g (P.point B x d alpha j)) :
    let m := P.go F B x fx g d left alpha last
    let t := P.point B x d alpha
    m.result = ⟨P.lengthOf alpha left, t left, held F x g t last left, false⟩ ∧
      m.calls = asked F x g t left := by
  obtain ⟨hresult, hcalls⟩ := go_after hrejected 0 last
  rw [Nat.zero_add] at hresult hcalls
  exact ⟨hresult, hcalls.trans (List.append_nil _)⟩

/-- A search either has a first acceptable trial or rejects them all. -/
theorem exists_first_or_rejected (P : LineSearch α) (F : Oracle α n) (x : Vector α n) (fx : α)
    (g : Vector α n) (t : Nat → Vector α n) (left : Nat) :
    (∃ k < left, Promises x g (t k) ∧ P.Suffices F x fx g (t k) ∧
        ∀ j < k, P.Rejects F x fx g (t j)) ∨
      ∀ j < left, P.Rejects F x fx g (t j) := by
  by_cases hexists : ∃ k, k < left ∧ Promises x g (t k) ∧ P.Suffices F x fx g (t k)
  · obtain ⟨hk, hpromises, hsuffices⟩ := Nat.find_spec hexists
    refine .inl ⟨Nat.find hexists, hk, hpromises, hsuffices, fun j hj hpromises hsuffices => ?_⟩
    exact Nat.find_min hexists hj ⟨Nat.lt_trans hj hk, hpromises, hsuffices⟩
  · exact .inr fun j hj hpromises hsuffices => hexists ⟨j, hj, hpromises, hsuffices⟩

theorem go_accepted_iff : (P.go F B x fx g d left alpha last).result.accepted = true ↔
    ∃ k < left, Promises x g (P.point B x d alpha k) ∧
      P.Suffices F x fx g (P.point B x d alpha k) := by
  rcases exists_first_or_rejected P F x fx g (P.point B x d alpha) left with
    ⟨k, hk, hpromises, hsuffices, hrejected⟩ | hrejected
  · rw [(go_first last hk hpromises hsuffices hrejected).1]
    exact iff_of_true rfl ⟨k, hk, hpromises, hsuffices⟩
  · rw [(go_exhausted last hrejected).1]
    exact iff_of_false Bool.false_ne_true fun ⟨k, hk, hpromises, hsuffices⟩ =>
      hrejected k hk hpromises hsuffices

theorem rejected_of_failed (h : (P.go F B x fx g d left alpha last).result.accepted = false) :
    ∀ j < left, P.Rejects F x fx g (P.point B x d alpha j) := by
  intro j hj hpromises hsuffices
  exact Bool.eq_false_iff.mp h (go_accepted_iff.mpr ⟨j, hj, hpromises, hsuffices⟩)

/-! ## A failed search -/

/-- The trial `r` is the last one that the search has tested, at its own length, and with the value
there if that was asked for. -/
structure HoldsLast (P : LineSearch α) (F : Oracle α n) (B : Box α n) (x g d : Vector α n)
    (alpha : α) (r : Trial α n) : Prop where
  tested : r.x = P.point B x d alpha P.maxBacktracks
  at_length : r.x = arc B x d r.alpha
  value : Promises x g (P.point B x d alpha P.maxBacktracks) → r.value = (F.value r.x).result

/-- A failed search returns the point after the last one that it has tested. It holds its last trial
exactly if the two are the same. -/
theorem holdsLast_iff (h : (P.search F B x fx g d alpha).result.accepted = false) :
    let r := (P.search F B x fx g d alpha).result
    let t := P.point B x d alpha
    let m := P.maxBacktracks
    r = ⟨P.lengthOf alpha (m + 1), t (m + 1), held F x g t inf (m + 1), false⟩ ∧
      (P.HoldsLast F B x g d alpha r ↔ t (m + 1) = t m) := by
  intro r t m
  have hr : r = ⟨P.lengthOf alpha (m + 1), t (m + 1), held F x g t inf (m + 1), false⟩ :=
    (go_exhausted inf (rejected_of_failed h)).1
  refine ⟨hr, ?_⟩
  rw [hr]
  constructor
  · exact fun hlast => hlast.tested
  · intro hsame
    refine ⟨hsame, rfl, fun hpromises => ?_⟩
    rw [held, if_pos hpromises, hsame]

/-- One eighth to the right of the minimum of a parabola, to the left over lengths from one down to
one half. Both trials are too far on the other side. -/
def overshot : Trial Float 1 :=
  ((⟨1e-4, 0.5, 1⟩ : LineSearch Float).search Objective.parabola.oracle (.free 1) #v[0.125]
    0.0078125 #v[0.125] #v[-1] 1).result

theorem accepted_overshot : overshot.accepted = false := by
  decide +kernel

theorem holdsLast_iff_overshot :
    let P : LineSearch Float := ⟨1e-4, 0.5, 1⟩
    let F : Oracle Float 1 := Objective.parabola.oracle
    let t := P.point (.free 1) #v[0.125] #v[-1] 1
    let m := P.maxBacktracks
    overshot.accepted = false ∧
      overshot =
        ⟨P.lengthOf 1 (m + 1), t (m + 1), held F #v[0.125] #v[0.125] t inf (m + 1), false⟩ ∧
      (P.HoldsLast F (.free 1) #v[0.125] #v[0.125] #v[-1] 1 overshot ↔ t (m + 1) = t m) :=
  ⟨accepted_overshot, holdsLast_iff accepted_overshot⟩

/-- The trial at half the length is rejected. The point at a quarter of it is returned, with the
value of the rejected one. -/
theorem not_holdsLast_overshot :
    let P : LineSearch Float := ⟨1e-4, 0.5, 1⟩
    let F : Oracle Float 1 := Objective.parabola.oracle
    overshot.accepted = false ∧ overshot.x = #v[-0.125] ∧
      overshot.value = (F.value #v[-0.375]).result ∧ ¬ overshot.value = (F.value overshot.x).result ∧
      ¬ P.HoldsLast F (.free 1) #v[0.125] #v[0.125] #v[-1] 1 overshot := by
  have hmoved : overshot.x = #v[-0.125] := by decide +kernel
  have hvalue : overshot.value = (Objective.parabola.oracle.value #v[-0.375]).result := by
    decide +kernel
  have hother : ¬ overshot.value = (Objective.parabola.oracle.value overshot.x).result := by
    decide +kernel
  have htested : ¬ overshot.x =
      (⟨1e-4, 0.5, 1⟩ : LineSearch Float).point (.free 1) #v[0.125] #v[-1] 1 1 := by
    decide +kernel
  exact ⟨accepted_overshot, hmoved, hvalue, hother, fun hlast => htested hlast.tested⟩

end LineSearch

end LogBarrier

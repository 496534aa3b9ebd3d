import LogBarrier.Proofs.Falling
import LogBarrier.Proofs.Inside
import LogBarrier.Proofs.Positions
import LogBarrier.Proofs.Trials

/-!
# The first acceptable trial

With exact arithmetic the lengths of a search are the powers of its rate, and a trial is passed over
exactly if it stands still or the gradient predicts no decrease for it. The search returns the first
acceptable trial, which lies in the box and has a smaller value than the start. It asks for the
value once at each trial that is not passed over, up to the one that it returns.
-/

namespace LogBarrier

open Scalar Exact

variable {n : ℕ}

/-- A finite value that falls short of `a` by a positive multiple of a decrease lies below `a`, be
that finite or not. -/
theorem Exact.lt_of_le_add_mul {a v c d : Exact} (hv : IsFinite v) (hc : 0 < c) (hd : d < 0)
    (hle : v ≤ a + c * d) : v < a := by
  cases a with
  | nan =>
    change v ≤ Exact.nan at hle
    exact absurd hle (not_le_nan v)
  | negInf =>
    obtain ⟨r, rfl⟩ := isFinite_iff.mp hv
    generalize c * d = s at hle
    cases s <;> exact hle.elim
  | real a => exact Exact.lt_of_le_of_lt hle (add_mul_lt (isFinite_real a) hv hc hd hle)
  | posInf => exact hv.2

namespace LineSearch

variable {P : LineSearch Exact} {F : Oracle Exact n} {B : Box Exact n} {g : Vector Exact n}
  {fx : Exact} {a d : Fin n → ℝ} {r alpha : ℝ}

/-- The trial `t` moves, the gradient predicts a decrease for it, and the value there is finite and
falls by the fraction that is asked for. -/
structure Acceptable (P : LineSearch Exact) (F : Oracle Exact n) (x : Vector Exact n) (fx : Exact)
    (g t : Vector Exact n) : Prop where
  moves : t ≠ x
  descends : dot g (t - x) < 0
  finite : IsFinite (F.value t).result
  enough : (F.value t).result ≤ fx + P.fraction * dot g (t - x)

open Classical in
/-- One question for the value at each of the trials `t 0`, …, `t (k - 1)` that moves and has a
predicted decrease, in order. -/
noncomputable def questions (F : Oracle Exact n) (x g : Vector Exact n) (t : ℕ → Vector Exact n)
    (k : ℕ) : List (Call Exact) :=
  ((List.range k).filter fun j => t j ≠ x ∧ dot g (t j - x) < 0).flatMap fun j =>
    (F.value (t j)).calls

/-- The trials are real points, and such a point has moved if it is another one. -/
theorem promises_point_iff (hB : B.Regular) (hr : P.rate = real r) (k : ℕ) :
    let t := P.point B (vec a) (vec d) (real alpha) k
    Promises (vec a) g t ↔ t ≠ vec a ∧ dot g (t - vec a) < 0 := by
  intro t
  have ht : t = vec (B.nearest (a + (alpha * r ^ k) • d)) := by
    show arc B (vec a) (vec d) (P.lengthOf (real alpha) k) = _
    rw [lengthOf_real hr, hB.arc_vec]
  have hmoves : 0 < norm (t - vec a) ↔ t ≠ vec a := by
    rw [ht, vec_sub_vec, norm_vec, zero_lt_real, length_pos_iff, sub_ne_zero, ne_eq,
      ← vec_injective.eq_iff, ne_eq]
  exact and_congr_left fun _ => hmoves

theorem acceptable_point_iff (hB : B.Regular) (hr : P.rate = real r) (k : ℕ) :
    let t := P.point B (vec a) (vec d) (real alpha) k
    P.Acceptable F (vec a) fx g t ↔ Promises (vec a) g t ∧ P.Suffices F (vec a) fx g t := by
  intro t
  constructor
  · intro h
    exact ⟨(promises_point_iff hB hr k).mpr ⟨h.moves, h.descends⟩, h.finite, h.enough⟩
  · rintro ⟨hpromises, hfinite, henough⟩
    obtain ⟨hmoves, hdescends⟩ := (promises_point_iff hB hr k).mp hpromises
    exact ⟨hmoves, hdescends, hfinite, henough⟩

theorem asked_eq_questions (hB : B.Regular) (hr : P.rate = real r) (k : ℕ) :
    let t := P.point B (vec a) (vec d) (real alpha)
    asked F (vec a) g t k = questions F (vec a) g t k := by
  intro t
  unfold asked questions
  congr 1
  refine List.filter_congr fun j _ => ?_
  exact decide_eq_decide.mpr (promises_point_iff hB hr j)

/-- A search succeeds if one of its trials is acceptable, and returns the first one that is. It asks
for the value once at each trial up to there that moves and has a predicted decrease, or at each
such trial if none is acceptable. -/
theorem search_returns_first (hB : B.Regular) (hr : P.rate = real r) (hfraction : 0 < P.fraction)
    (F : Oracle Exact n) (fx : Exact) (g : Vector Exact n) (a d : Fin n → ℝ) (alpha : ℝ) :
    let t (k : ℕ) := B.project (vec a + real (alpha * r ^ k) * vec d)
    let m := P.search F B (vec a) fx g (vec d) (real alpha)
    (m.result.accepted = true ↔ ∃ k ≤ P.maxBacktracks, P.Acceptable F (vec a) fx g (t k)) ∧
      (∀ k, IsLeast {k | k ≤ P.maxBacktracks ∧ P.Acceptable F (vec a) fx g (t k)} k →
        m.result = ⟨real (alpha * r ^ k), t k, (F.value (t k)).result, true⟩ ∧
          (F.value (t k)).result < fx ∧ B.Feasible (t k) ∧
          m.calls = questions F (vec a) g t (k + 1)) ∧
      (m.result.accepted = false →
        m.calls = questions F (vec a) g t (P.maxBacktracks + 1)) := by
  intro t m
  have ht : t = P.point B (vec a) (vec d) (real alpha) := by
    funext k
    rw [point, lengthOf_real hr]
    rfl
  clear_value t
  subst ht
  refine ⟨?_, fun k hk => ?_, fun hfailed => ?_⟩
  · refine go_accepted_iff.trans (exists_congr fun k => ?_)
    rw [Nat.lt_succ_iff]
    exact and_congr_right fun _ => (acceptable_point_iff hB hr k).symm
  · obtain ⟨⟨hle, hk⟩, hleast⟩ := hk
    obtain ⟨hpromises, hsuffices⟩ := (acceptable_point_iff hB hr k).mp hk
    have hrejected : ∀ j < k, P.Rejects F (vec a) fx g
        (P.point B (vec a) (vec d) (real alpha) j) := by
      intro j hj hpromises hsuffices
      have hj_acceptable := (acceptable_point_iff hB hr j).mpr ⟨hpromises, hsuffices⟩
      exact hj.not_ge (hleast ⟨hj.le.trans hle, hj_acceptable⟩)
    obtain ⟨hresult, hcalls⟩ := go_first inf (Nat.lt_succ_of_le hle) hpromises hsuffices hrejected
    rw [lengthOf_real hr] at hresult
    refine ⟨hresult, lt_of_le_add_mul hk.finite hfraction hk.descends hk.enough, ?_,
      hcalls.trans (asked_eq_questions hB hr _)⟩
    rw [point, lengthOf_real hr, hB.arc_vec]
    exact hB.feasible_nearest _
  · exact (go_exhausted inf (rejected_of_failed hfailed)).2.trans (asked_eq_questions hB hr _)

/-- The squares between minus one and one, from the right end. The first trial is the left end,
which is no lower, and the second one is the origin. -/
theorem search_returns_first_squares :
    let P : LineSearch Exact := ⟨real 1e-4, real 0.5, 60⟩
    let F : Oracle Exact 1 := Objective.squares.oracle
    let B := Box.between (vec fun _ : Fin 1 => -1) (vec fun _ => 1)
    let a : Fin 1 → ℝ := fun _ => 1
    let d : Fin 1 → ℝ := fun _ => -2
    let g := vec fun _ : Fin 1 => 2
    let t (k : ℕ) := B.project (vec a + real (1 * 0.5 ^ k) * vec d)
    let m := P.search F B (vec a) (real 1) g (vec d) (real 1)
    B.Regular ∧ P.rate = real 0.5 ∧ 0 < P.fraction ∧
      IsLeast {k | k ≤ P.maxBacktracks ∧ P.Acceptable F (vec a) (real 1) g (t k)} 1 ∧
      m.result = ⟨real (1 * 0.5 ^ 1), t 1, (F.value (t 1)).result, true⟩ ∧
      (F.value (t 1)).result < real 1 ∧ B.Feasible (t 1) ∧
      m.calls = questions F (vec a) g t 2 := by
  intro P F B a d g t m
  have hB : B.Regular := Box.regular_between fun _ => by norm_num
  have hfraction : (0 : Exact) < real 1e-4 := zero_lt_real.mpr (by norm_num)
  have ht {k : ℕ} {c : ℝ} (hc : 1 + 1 * 0.5 ^ k * -2 = c) (hlow : -1 ≤ c) (hhigh : c ≤ 1) :
      t k = vec fun _ => c := by
    have hpoint : (a + (1 * 0.5 ^ k : ℝ) • d) = fun _ => c := funext fun _ => hc
    have hfeasible : B.Feasible (vec fun _ => c) := by
      intro i
      rw [Box.side_between, get_vec, get_vec, get_vec]
      exact ⟨hlow, hhigh⟩
    show B.project (vec a + real (1 * 0.5 ^ k) * vec d) = _
    rw [real_mul_vec, vec_add_vec, hB.project_vec, hpoint, hB.nearest_of_feasible hfeasible]
  have hzero : t 0 = vec fun _ => -1 := ht (by norm_num) le_rfl (by norm_num)
  have hone : t 1 = vec fun _ => 0 := ht (by norm_num) (by norm_num) zero_le_one
  have hfirst : IsLeast {k | k ≤ P.maxBacktracks ∧ P.Acceptable F (vec a) (real 1) g (t k)} 1 := by
    constructor
    · refine ⟨by decide, ?_⟩
      rw [hone]
      refine ⟨?_, ?_, ?_, ?_⟩
      · exact vec_injective.ne fun h => zero_ne_one (congrFun h 0)
      · rw [vec_sub_vec, dot_vec, real_lt_zero]
        norm_num [dotProduct, a]
      · rw [Objective.value_squares]
        exact isFinite_real _
      · rw [Objective.value_squares, vec_sub_vec, dot_vec, real_mul_real, real_add_real,
          real_le_real]
        norm_num [dotProduct, a]
    · rintro k ⟨-, hk⟩
      by_contra hlt
      obtain rfl : k = 0 := by omega
      have henough := hk.enough
      rw [hzero, Objective.value_squares, vec_sub_vec, dot_vec, real_mul_real, real_add_real,
        real_le_real] at henough
      norm_num [dotProduct, a] at henough
  exact ⟨hB, rfl, hfraction, hfirst,
    (search_returns_first hB rfl hfraction F (real 1) g a d 1).2.1 1 hfirst⟩

end LineSearch

end LogBarrier

import LogBarrier.Proofs.Pairs
import Mathlib.Algebra.Order.Star.Real
import Mathlib.LinearAlgebra.Matrix.PosDef

/-!
# The matrix of a limited memory

A limited memory applies its pairs one after the other and never forms a matrix. Among real numbers
the result is a product with one all the same: a multiple of the identity, corrected once for each
pair, the oldest first. The corrections keep it positive definite, and the last of them makes it
take the newest change of the gradient to the newest step.
-/

namespace LogBarrier

open Scalar Exact Matrix

variable {n : ℕ}

/-- A step and the change of the gradient along it, of positive curvature. -/
@[ext] structure Curved (n : ℕ) where
  s : Fin n → ℝ
  y : Fin n → ℝ
  pos : 0 < s ⬝ᵥ y

namespace Curved

/-- The inverse of the curvature. -/
noncomputable def r (c : Curved n) : ℝ := 1 / (c.s ⬝ᵥ c.y)

/-- The pair as a limited memory stores it. -/
noncomputable def pair (c : Curved n) : Pair Exact n := ⟨vec c.s, vec c.y, real c.r⟩

/-- The approximation `H` as the pair corrects it. -/
noncomputable def correct (c : Curved n) (H : Matrix (Fin n) (Fin n) ℝ) :
    Matrix (Fin n) (Fin n) ℝ :=
  (1 - c.r • vecMulVec c.s c.y) * H * (1 - c.r • vecMulVec c.y c.s) + c.r • vecMulVec c.s c.s

/-- The factor of the identity that fits the last pair. -/
noncomputable def fit (cs : List (Curved n)) : ℝ :=
  match cs.getLast? with
  | none => 1
  | some c => (c.s ⬝ᵥ c.y) / (c.y ⬝ᵥ c.y)

/-- A multiple of the identity, corrected by the pairs from the first to the last. -/
noncomputable def corrected (gamma : ℝ) (cs : List (Curved n)) : Matrix (Fin n) (Fin n) ℝ :=
  cs.foldl (fun H c => c.correct H) (gamma • 1)

/-- The approximation that the pairs make, oldest first. -/
noncomputable def inverse (cs : List (Curved n)) : Matrix (Fin n) (Fin n) ℝ :=
  corrected (fit cs) cs

variable {c : Curved n} {cs : List (Curved n)} {gamma : ℝ} {H : Matrix (Fin n) (Fin n) ℝ}

theorem r_pos (c : Curved n) : 0 < c.r := one_div_pos.mpr c.pos

theorem r_mul_curvature (c : Curved n) : c.r * (c.s ⬝ᵥ c.y) = 1 := one_div_mul_cancel c.pos.ne'

theorem fit_concat (cs : List (Curved n)) (c : Curved n) :
    fit (cs ++ [c]) = (c.s ⬝ᵥ c.y) / (c.y ⬝ᵥ c.y) := by
  unfold fit
  rw [List.getLast?_concat]

theorem corrected_concat (gamma : ℝ) (cs : List (Curved n)) (c : Curved n) :
    corrected gamma (cs ++ [c]) = c.correct (corrected gamma cs) := by
  unfold corrected
  rw [List.foldl_append, List.foldl_cons, List.foldl_nil]

/-! ## One correction -/

/-- A vector before the older pairs are applied to it. -/
noncomputable def down (c : Curved n) (q : Fin n → ℝ) : Fin n → ℝ :=
  q - (c.r * (c.s ⬝ᵥ q)) • c.y

theorem one_sub_mulVec (c : Curved n) (q : Fin n → ℝ) :
    (1 - c.r • vecMulVec c.y c.s) *ᵥ q = c.down q := by
  rw [sub_mulVec, one_mulVec, smul_mulVec, vecMulVec_mulVec, op_smul_eq_smul, smul_smul]
  rfl

theorem correct_mulVec (c : Curved n) (H : Matrix (Fin n) (Fin n) ℝ) (q : Fin n → ℝ) :
    c.correct H *ᵥ q =
      H *ᵥ c.down q + (c.r * (c.s ⬝ᵥ q) - c.r * (c.y ⬝ᵥ H *ᵥ c.down q)) • c.s := by
  unfold correct
  rw [add_mulVec, ← mulVec_mulVec, ← mulVec_mulVec, one_sub_mulVec, sub_mulVec, one_mulVec,
    smul_mulVec, smul_mulVec, vecMulVec_mulVec, vecMulVec_mulVec, op_smul_eq_smul, op_smul_eq_smul,
    smul_smul, smul_smul, sub_smul]
  abel

/-- The correction takes the change of the gradient to the step. -/
theorem correct_mulVec_y (c : Curved n) (H : Matrix (Fin n) (Fin n) ℝ) :
    c.correct H *ᵥ c.y = c.s := by
  have hdown : c.down c.y = 0 := by rw [down, r_mul_curvature, one_smul, sub_self]
  rw [correct_mulVec, hdown, mulVec_zero, dotProduct_zero, mul_zero, sub_zero, r_mul_curvature,
    one_smul, zero_add]

theorem transpose_one_sub (c : Curved n) :
    (1 - c.r • vecMulVec c.s c.y)ᵀ = 1 - c.r • vecMulVec c.y c.s := by
  rw [transpose_sub, transpose_one, transpose_smul, transpose_vecMulVec]

/-- Between two vectors, the correction is `H` between what is left of them, and more along the
step. -/
theorem dotProduct_correct_mulVec (c : Curved n) (H : Matrix (Fin n) (Fin n) ℝ)
    (u v : Fin n → ℝ) : u ⬝ᵥ c.correct H *ᵥ v =
      c.down u ⬝ᵥ H *ᵥ c.down v + c.r * (c.s ⬝ᵥ u) * (c.s ⬝ᵥ v) := by
  rw [correct, add_mulVec, dotProduct_add, ← mulVec_mulVec, ← mulVec_mulVec, one_sub_mulVec,
    dotProduct_mulVec, ← mulVec_transpose, transpose_one_sub, one_sub_mulVec, smul_mulVec,
    vecMulVec_mulVec, op_smul_eq_smul, smul_smul, dotProduct_smul, smul_eq_mul, dotProduct_comm u]
  ring

theorem transpose_correct (c : Curved n) (H : Matrix (Fin n) (Fin n) ℝ) :
    (c.correct H)ᵀ = c.correct Hᵀ := by
  unfold correct
  rw [transpose_add, transpose_mul, transpose_mul, transpose_smul, transpose_vecMulVec,
    ← transpose_one_sub, transpose_transpose, Matrix.mul_assoc]

theorem posDef_correct (hH : H.PosDef) (c : Curved n) : (c.correct H).PosDef := by
  refine .of_dotProduct_mulVec_pos ?_ fun v hv => ?_
  · rw [IsHermitian, conjTranspose_eq_transpose_of_trivial, transpose_correct,
      ← conjTranspose_eq_transpose_of_trivial, hH.isHermitian.eq]
  rw [star_trivial, dotProduct_correct_mulVec, mul_assoc]
  by_cases hdown : c.down v = 0
  · -- All of `v` lies along `c.y`, and then it has a part along `c.s`.
    have hsv : c.s ⬝ᵥ v ≠ 0 := by
      intro hzero
      rw [down, hzero, mul_zero, zero_smul, sub_zero] at hdown
      exact hv hdown
    rw [hdown, zero_dotProduct, zero_add]
    exact mul_pos c.r_pos (mul_self_pos.mpr hsv)
  · have hpos : 0 < c.down v ⬝ᵥ H *ᵥ c.down v := hH.dotProduct_mulVec_pos hdown
    exact add_pos_of_pos_of_nonneg hpos (mul_nonneg c.r_pos.le (mul_self_nonneg _))

/-! ## All pairs -/

theorem fit_pos (cs : List (Curved n)) : 0 < fit cs := by
  induction cs using List.reverseRecOn with
  | nil => exact one_pos
  | append_singleton cs c =>
    rw [fit_concat]
    exact div_pos c.pos (dotProduct_self_pos c.pos.ne')

theorem posDef_corrected (hgamma : 0 < gamma) (cs : List (Curved n)) :
    (corrected gamma cs).PosDef := by
  induction cs using List.reverseRecOn with
  | nil => exact PosDef.one.smul hgamma
  | append_singleton cs c ih =>
    rw [corrected_concat]
    exact posDef_correct ih c

theorem posDef_inverse (cs : List (Curved n)) : (inverse cs).PosDef :=
  posDef_corrected (fit_pos cs) cs

/-- The last pair is met exactly. -/
theorem inverse_mulVec_last (h : cs.getLast? = some c) : inverse cs *ᵥ c.y = c.s := by
  obtain ⟨older, rfl⟩ := List.getLast?_eq_some_iff.mp h
  rw [inverse, corrected_concat, correct_mulVec_y]

/-- The recursion over the pairs is a product with the matrix. It begins with the newest pair, so
the induction is on the list from its end, for every vector that newer pairs may have left. -/
theorem recur_pairs (gamma : ℝ) (cs : List (Curved n)) (q : Fin n → ℝ) :
    Pair.recur (real gamma) (cs.map pair).reverse (vec q) = vec (corrected gamma cs *ᵥ q) := by
  induction cs using List.reverseRecOn generalizing q with
  | nil =>
    show real gamma * vec q = vec ((gamma • 1 : Matrix (Fin n) (Fin n) ℝ) *ᵥ q)
    rw [real_mul_vec, smul_mulVec, one_mulVec]
  | append_singleton cs c ih =>
    rw [List.map_append, List.map_singleton, List.reverse_concat, corrected_concat,
      correct_mulVec]
    unfold Pair.recur
    dsimp only [pair]
    rw [dot_vec, real_mul_real, real_mul_vec, vec_sub_vec, ← down, ih, dot_vec, real_mul_real,
      real_sub_real, real_mul_vec, vec_add_vec]

theorem scale_pairs (cs : List (Curved n)) :
    Pair.scale (cs.map pair).reverse = real (fit cs) := by
  induction cs using List.reverseRecOn with
  | nil => rfl
  | append_singleton cs c =>
    rw [List.map_append, List.map_singleton, List.reverse_concat, fit_concat]
    show dot (vec c.s) (vec c.y) / dot (vec c.y) (vec c.y) = _
    rw [dot_vec, dot_vec, real_div_real _ (dotProduct_self_pos c.pos.ne').ne']

theorem apply_pairs (cs : List (Curved n)) (v : Fin n → ℝ) :
    Pair.apply (cs.map pair).reverse (vec v) = vec (inverse cs *ᵥ v) := by
  rw [Pair.apply, scale_pairs, recur_pairs, inverse]

/-- A pair among those of other dimensions. -/
noncomputable def stored (c : Curved n) : (n : ℕ) × Pair Exact n := ⟨n, c.pair⟩

theorem stored_injective : Function.Injective (stored (n := n)) := by
  intro c d h
  obtain ⟨hs, hy, -⟩ := Pair.mk.inj (eq_of_heq (Sigma.mk.inj h).2)
  exact Curved.ext (vec_injective hs) (vec_injective hy)

theorem measured?_eq_pair (c : Curved n) {a b : ℝ} (hc : 1e-10 * a * b < c.s ⬝ᵥ c.y) :
    Pair.measured? (real a) (real b) (vec c.s) (vec c.y) = some c.pair := by
  unfold Pair.measured?
  have hlarge : ¬ real (c.s ⬝ᵥ c.y) ≤ Pair.curvatureTolerance * real a * real b := not_le.mpr hc
  rw [dot_vec, if_neg (not_or.mpr ⟨not_not.mpr (isFinite_real _), hlarge⟩), one_eq,
    real_div_real 1 c.pos.ne']
  rfl

end Curved

theorem Pair.Positive.exists_curved {p : Pair Exact n} (h : p.Positive) :
    ∃ c : Curved n, c.pair = p := by
  obtain ⟨s, y, hpos, rfl⟩ := h
  exact ⟨⟨s, y, hpos⟩, rfl⟩

namespace LimitedMemory

variable {h : LimitedMemory Exact} {L : Set ℕ} {c : Curved n} {cs : List (Curved n)}

/-! ## The window of a limited memory -/

theorem Positive.exists_window (hh : h.Positive) (hn : ∀ p ∈ h.window, p.1 = n) :
    ∃ cs : List (Curved n), h.window = cs.map Curved.stored := by
  have hrange : h.window ∈ Set.range (List.map (Curved.stored (n := n))) := by
    rw [Set.range_list_map]
    rintro ⟨m, p⟩ hp
    obtain rfl : m = n := hn _ hp
    obtain ⟨c, hc⟩ := (hh _ hp).exists_curved
    exact ⟨c, congrArg (Sigma.mk m) hc⟩
  obtain ⟨cs, hcs⟩ := hrange
  exact ⟨cs, hcs.symm⟩

theorem pairs?_of_window (hw : h.window = cs.map Curved.stored) :
    h.pairs? n = some (cs.map Curved.pair) := by
  unfold pairs?
  rw [hw]
  clear hw
  induction cs with
  | nil => rfl
  | cons c cs ih =>
    rw [List.map_cons, List.mapM_cons, ih]
    simp [Curved.stored]

theorem apply_of_window (hw : h.window = cs.map Curved.stored) (v : Fin n → ℝ) :
    Secant.apply h (vec v) = .ok (vec (Curved.inverse cs *ᵥ v)) := by
  unfold Secant.apply instSecant
  dsimp only
  rw [pairs?_of_window hw]
  exact congrArg Except.ok (Curved.apply_pairs cs v)

/-! ## A limited memory in use -/

/-- Offers a pair whose parts count as vectors of the norms `a` and `b`. -/
def offer {α : Type} [Scalar α] (h : LimitedMemory α) (a b : α) (s y : Vector α n) :
    LimitedMemory α :=
  match Pair.measured? a b s y with
  | some p => h.push p
  | none => h

theorem update_eq_offer {α : Type} [Scalar α] (h : LimitedMemory α) (s y : Vector α n) :
    Secant.update h s y = h.offer (norm s) (norm y) s y := by
  unfold Secant.update instSecant offer
  dsimp only
  rw [Pair.of?_eq_measured?]
  cases Pair.measured? (norm s) (norm y) s y <;> rfl

theorem update_eq_push (h : LimitedMemory Exact) (c : Curved n)
    (hc : 1e-10 * length c.s * length c.y < c.s ⬝ᵥ c.y) :
    Secant.update h (vec c.s) (vec c.y) = h.push c.pair := by
  rw [update_eq_offer, norm_vec, norm_vec, offer, c.measured?_eq_pair hc]

/-- `h` was made empty, and then reset and offered pairs of real vectors with lengths in `L`, in any
order. Of what counts as the norm of a vector it is only known that it is not negative. -/
inductive Used (L : Set ℕ) : LimitedMemory Exact → Prop
  | empty (memory : ℕ) : Used L (empty memory)
  | reset {h : LimitedMemory Exact} (hh : Used L h) : Used L (Secant.reset h)
  | offer {h : LimitedMemory Exact} (hh : Used L h) {n : ℕ} (hn : n ∈ L) (s y : Fin n → ℝ)
      {a b : ℝ} (ha : 0 ≤ a) (hb : 0 ≤ b) : Used L (h.offer (real a) (real b) (vec s) (vec y))

/-- The program's own norm is not negative. -/
theorem Used.update (hh : Used L h) (hn : n ∈ L) (s y : Fin n → ℝ) :
    Used L (Secant.update h (vec s) (vec y)) := by
  rw [update_eq_offer, norm_vec, norm_vec]
  exact hh.offer hn s y (length_nonneg s) (length_nonneg y)

/-- Whatever a limited memory has been through, its pairs are those that it was offered, of positive
curvature. -/
theorem Used.window (hh : Used L h) : ∀ p ∈ h.window, p.1 ∈ L ∧ p.2.Positive := by
  induction hh with
  | empty memory => exact fun p hp => nomatch hp
  | reset hh ih => exact fun p hp => nomatch hp
  | @offer h hh n hn s y a b ha hb ih =>
    unfold LimitedMemory.offer
    split
    · rename_i hp
      exact forall_push ih ⟨hn, Pair.positive_of_measured? ha hb hp⟩
    · exact ih

theorem Used.exists_window (hh : Used L h) (hn : ∀ p ∈ h.window, p.1 = n) :
    ∃ cs : List (Curved n), h.window = cs.map Curved.stored :=
  Positive.exists_window (fun p hp => (hh.window p hp).2) hn

/-! ## Three pairs of a plane -/

def first : Curved 2 := ⟨![1, 0], ![6, 8], by norm_num⟩

def second : Curved 2 := ⟨![6, 8], ![8, 6], by norm_num⟩

def third : Curved 2 := ⟨![0, 1], ![6, 8], by norm_num⟩

/-- The three pairs are offered to a window of two. -/
noncomputable def plane : LimitedMemory Exact :=
  Secant.update (Secant.update (Secant.update (empty 2) (vec first.s) (vec first.y))
    (vec second.s) (vec second.y)) (vec third.s) (vec third.y)

theorem used_plane : Used {2} plane :=
  (((Used.empty 2).update (Set.mem_singleton 2) _ _).update (Set.mem_singleton 2) _ _).update
    (Set.mem_singleton 2) _ _

theorem length_six_eight : length ![(6 : ℝ), 8] = 10 := length_eq (by norm_num) (by norm_num)

theorem first_large : 1e-10 * length first.s * length first.y < first.s ⬝ᵥ first.y := by
  have hunit : length ![(1 : ℝ), 0] = 1 := length_eq (by norm_num) (by norm_num)
  simp only [first, hunit, length_six_eight]
  norm_num

theorem second_large : 1e-10 * length second.s * length second.y < second.s ⬝ᵥ second.y := by
  have hlength : length ![(8 : ℝ), 6] = 10 := length_eq (by norm_num) (by norm_num)
  simp only [second, length_six_eight, hlength]
  norm_num

theorem third_large : 1e-10 * length third.s * length third.y < third.s ⬝ᵥ third.y := by
  have hunit : length ![(0 : ℝ), 1] = 1 := length_eq (by norm_num) (by norm_num)
  simp only [third, hunit, length_six_eight]
  norm_num

theorem window_plane : plane.window = [second.stored, third.stored] := by
  rw [plane, update_eq_push _ first first_large, update_eq_push _ second second_large,
    update_eq_push _ third third_large]
  rfl

/-! ## What a limited memory applies -/

/-- To vectors of the length of its pairs, a limited memory applies the matrix that the pairs make,
corrected from the oldest to the newest. -/
theorem apply_eq_inverse_mulVec (hh : Used L h) (hn : ∀ p ∈ h.window, p.1 = n) :
    ∃ cs : List (Curved n), h.window = cs.map Curved.stored ∧
      ∀ v : Fin n → ℝ, Secant.apply h (vec v) = .ok (vec (Curved.inverse cs *ᵥ v)) := by
  obtain ⟨cs, hw⟩ := hh.exists_window hn
  exact ⟨cs, hw, apply_of_window hw⟩

theorem apply_plane :
    plane.window = [second.stored, third.stored] ∧
      ∀ v : Fin 2 → ℝ, Secant.apply plane (vec v) =
        .ok (vec (third.correct (second.correct ((2 / 25 : ℝ) • 1)) *ᵥ v)) := by
  refine ⟨window_plane, ?_⟩
  obtain ⟨cs, hw, happly⟩ := apply_eq_inverse_mulVec used_plane fun p hp =>
    (used_plane.window p hp).1
  have hcs : [second, third] = cs :=
    List.map_injective_iff.mpr Curved.stored_injective (window_plane.symm.trans hw)
  have hfit : Curved.fit [second, third] = 2 / 25 := by
    show ![(0 : ℝ), 1] ⬝ᵥ ![6, 8] / (![6, 8] ⬝ᵥ ![6, 8]) = 2 / 25
    norm_num
  intro v
  rw [happly, ← hcs, Curved.inverse, hfit]
  rfl

/-- `h` applies the map `H`, symmetric and positive definite, that meets the newest pair exactly. -/
structure Definite (h : LimitedMemory Exact) (H : (Fin n → ℝ) →ₗ[ℝ] Fin n → ℝ) : Prop where
  applies (v : Fin n → ℝ) : Secant.apply h (vec v) = .ok (vec (H v))
  symmetric (u v : Fin n → ℝ) : u ⬝ᵥ H v = v ⬝ᵥ H u
  positive (v : Fin n → ℝ) (hv : v ≠ 0) : 0 < v ⬝ᵥ H v
  newest (p : (n : ℕ) × Pair Exact n) (hp : h.window.getLast? = some p) :
    Secant.apply h p.2.y = .ok p.2.s

/-- After vectors of one length only, what a limited memory applies is definite. -/
theorem exists_definite (hh : Used {n} h) :
    ∃ H : (Fin n → ℝ) →ₗ[ℝ] Fin n → ℝ, h.Definite H := by
  obtain ⟨cs, hw⟩ := hh.exists_window fun p hp => (hh.window p hp).1
  have hdef := Curved.posDef_inverse cs
  refine ⟨(Curved.inverse cs).mulVecLin, apply_of_window hw, fun u v => ?_,
    fun v hv => hdef.dotProduct_mulVec_pos hv, fun p hp => ?_⟩
  · have hsymm : (Curved.inverse cs)ᵀ = Curved.inverse cs :=
      (conjTranspose_eq_transpose_of_trivial _).symm.trans hdef.isHermitian.eq
    rw [mulVecLin_apply, mulVecLin_apply, dotProduct_mulVec, ← mulVec_transpose, hsymm,
      dotProduct_comm]
  · rw [hw, List.getLast?_map, Option.map_eq_some_iff] at hp
    obtain ⟨c, hc, rfl⟩ := hp
    show Secant.apply h (vec c.y) = .ok (vec c.s)
    rw [apply_of_window hw, Curved.inverse_mulVec_last hc]

theorem definite_plane : ∃ H : (Fin 2 → ℝ) →ₗ[ℝ] Fin 2 → ℝ,
    plane.Definite H ∧ Secant.apply plane (vec ![6, 8]) = .ok (vec ![0, 1]) := by
  obtain ⟨H, hH⟩ := exists_definite used_plane
  refine ⟨H, hH, hH.newest third.stored ?_⟩
  rw [window_plane]
  rfl

end LimitedMemory

end LogBarrier

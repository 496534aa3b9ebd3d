import LogBarrier.Double.Order

/-!
# Products of doubles

A positive double times a positive factor below one is rounded to a double that does not exceed it.
The product of the mantissas is shifted by fewer places than the factor has, or by as many, so that
its exponent does not exceed that of the other.
-/

namespace LogBarrier.Double

open Float.Model Float.Model.UnpackedFloat

theorem mantissa_shift (em : ExtendedMantissa) (k : ℕ) :
    (em >>> k).mantissa = em.mantissa / 2 ^ k := by
  induction k with
  | zero => exact (Nat.div_one _).symm
  | succ k ih =>
    show (em >>> k).mantissa / 2 = _
    rw [ih, Nat.div_div_eq_div_mul, pow_succ]

theorem roundedMantissa_bounds (em : ExtendedMantissa) :
    em.mantissa ≤ em.roundedMantissa ∧ em.roundedMantissa ≤ em.mantissa + 1 := by
  obtain ⟨m, roundBit, stickyBit⟩ := em
  cases roundBit <;> cases stickyBit
  · exact ⟨le_rfl, Nat.le_succ m⟩
  · exact ⟨le_rfl, Nat.le_succ m⟩
  · show m ≤ m + m % 2 ∧ m + m % 2 ≤ m + 1
    omega
  · exact ⟨Nat.le_succ m, le_rfl⟩

theorem targetExponent_eq (m : ℕ) (e : ℤ) :
    Format.binary64.targetExponent (totalExponent m e) = max (m.log2 + e - 52) (-1074) := by
  show max (((m.log2 : ℤ) + 1 + e) - 53) (-1074) = _
  congr 1
  omega

/-- A rounded mantissa that needs no more than 53 bits stays as it is. -/
theorem shift_again_of_lt {q : ℕ} {e : ℤ} (hq : q < 2 ^ 53) (he : -1074 ≤ e) :
    shiftToTargetExponent .binary64 q e .exact = (⟨q, false, false⟩, e) := by
  have hlog : q.log2 ≤ 52 := by
    by_cases hzero : q = 0
    · subst hzero
      decide
    · have := (Nat.log2_lt hzero).mpr hq
      omega
  unfold shiftToTargetExponent shiftToExponent
  rw [targetExponent_eq]
  have hshift : (max ((q.log2 : ℤ) + e - 52) (-1074) - e).toNat = 0 := by omega
  dsimp only
  rw [hshift, Nat.cast_zero, add_zero]
  rfl

theorem shift_again_of_eq {e : ℤ} (he : -1074 ≤ e) :
    shiftToTargetExponent .binary64 (2 ^ 53) e .exact = (⟨2 ^ 52, false, false⟩, e + 1) := by
  unfold shiftToTargetExponent shiftToExponent
  rw [targetExponent_eq, Nat.log2_two_pow]
  have hshift : (max (((53 : ℕ) : ℤ) + e - 52) (-1074) - e).toNat = 1 := by omega
  dsimp only
  rw [hshift]
  rfl

/-! ## The shift -/

/-- How many places `M * 2 ^ E` is shifted to have at most 53 bits and at least the least
exponent. -/
def shiftBy (M : ℕ) (E : ℤ) : ℕ := (max (M.log2 + E - 52) (-1074) - E).toNat

theorem least_le_shiftBy (M : ℕ) (E : ℤ) : -1074 ≤ E + shiftBy M E := by
  unfold shiftBy
  omega

theorem div_shiftBy_lt (M : ℕ) (E : ℤ) : M / 2 ^ shiftBy M E < 2 ^ 53 := by
  rw [Nat.div_lt_iff_lt_mul (Nat.two_pow_pos _), ← pow_add]
  refine lt_of_lt_of_le Nat.lt_log2_self (Nat.pow_le_pow_right (by decide) ?_)
  unfold shiftBy
  omega

theorem normal_or_least_shiftBy {M : ℕ} {E : ℤ} (hM : M ≠ 0) (h : 52 ≤ M.log2 ∨ E ≤ -1074) :
    2 ^ 52 ≤ M / 2 ^ shiftBy M E ∨ E + shiftBy M E = -1074 := by
  by_cases hleast : M.log2 + E - 52 ≤ -1074
  · refine .inr ?_
    unfold shiftBy
    omega
  · refine .inl ?_
    have hs : shiftBy M E = M.log2 - 52 := by
      unfold shiftBy
      omega
    have hsum : 52 + (M.log2 - 52) = M.log2 := by omega
    rw [hs, Nat.le_div_iff_mul_le (Nat.two_pow_pos _), ← pow_add, hsum]
    exact Nat.log2_self_le hM

section

variable {m₁ m₂ d : ℕ} {e : ℤ}

theorem mul_lt_shift (hm₁ : m₁ < 2 ^ 53) (hm₂ : 0 < m₂) (hd : 53 ≤ d) :
    m₁ * m₂ < m₂ * 2 ^ d := by
  rw [Nat.mul_comm]
  exact Nat.mul_lt_mul_of_pos_left
    (lt_of_lt_of_le hm₁ (Nat.pow_le_pow_right (by decide) hd)) hm₂

/-- The product with `m₁ * 2 ^ (-d)` is shifted by no more than `d` places. -/
theorem shiftBy_mul_le (hm₁ : 0 < m₁) (hlt : m₁ < 2 ^ 53) (hm₂ : 0 < m₂) (h₂ : Canonical m₂ e)
    (hd : 53 ≤ d) : shiftBy (m₁ * m₂) (-(d : ℤ) + e) ≤ d := by
  have hlog : (m₁ * m₂).log2 ≤ 52 + d := by
    refine Nat.le_of_lt_succ ((Nat.log2_lt (Nat.mul_pos hm₁ hm₂).ne').mpr ?_)
    calc m₁ * m₂ < m₂ * 2 ^ d := mul_lt_shift hlt hm₂ hd
      _ ≤ 2 ^ 53 * 2 ^ d := Nat.mul_le_mul_right _ h₂.mantissa_lt.le
      _ = 2 ^ (52 + d + 1) := by ring
  have hle := h₂.le_exponent
  unfold shiftBy
  omega

/-- The product is normal or its exponent is small, so that it is shifted to its target. -/
theorem le_log2_mul (hm₁ : 0 < m₁) (hm₂ : 0 < m₂) (h₂ : Canonical m₂ e) :
    52 ≤ (m₁ * m₂).log2 ∨ -(d : ℤ) + e ≤ -1074 := by
  obtain hnormal | hleast := h₂.normal_or_least
  · exact .inl ((Nat.le_log2 (Nat.mul_pos hm₁ hm₂).ne').mpr
      (hnormal.trans (Nat.le_mul_of_pos_left m₂ hm₁)))
  · exact .inr (by omega)

end

/-! ## Rounding -/

/-- Rounding cuts a mantissa to 53 bits and may add one to it. -/
theorem round_cases (M : ℕ) (E : ℤ) :
    ∃ q, M / 2 ^ shiftBy M E ≤ q ∧ q ≤ M / 2 ^ shiftBy M E + 1 ∧
      (roundWithAccuracy .binary64 .positive M E .exact = .zero .positive ∨
        (∃ hq, q < 2 ^ 53 ∧ roundWithAccuracy .binary64 .positive M E .exact =
          .finite .positive q (E + shiftBy M E) hq) ∨
        q = 2 ^ 53 ∧ roundWithAccuracy .binary64 .positive M E .exact =
          .finite .positive (2 ^ 52) (E + shiftBy M E + 1) (by decide)) := by
  have hfirst : shiftToTargetExponent .binary64 M E .exact =
      (ExtendedMantissa.mk M false false >>> shiftBy M E, E + shiftBy M E) := by
    unfold shiftToTargetExponent shiftToExponent shiftBy
    rw [targetExponent_eq]
    rfl
  have hE := least_le_shiftBy M E
  have hfloor := div_shiftBy_lt M E
  obtain ⟨hlow, hhigh⟩ :=
    roundedMantissa_bounds (ExtendedMantissa.mk M false false >>> shiftBy M E)
  rw [mantissa_shift] at hlow hhigh
  refine ⟨_, hlow, hhigh, ?_⟩
  dsimp only at hhigh
  generalize hq : (ExtendedMantissa.mk M false false >>> shiftBy M E).roundedMantissa = q
    at hhigh ⊢
  unfold roundWithAccuracy
  rw [hfirst]
  dsimp only
  rw [hq]
  by_cases hlt : q < 2 ^ 53
  · rw [shift_again_of_lt hlt hE]
    by_cases hzero : q = 0
    · exact .inl (dif_pos hzero)
    · exact .inr (.inl ⟨Nat.pos_of_ne_zero hzero, hlt, dif_neg hzero⟩)
  · obtain rfl : q = 2 ^ 53 := by omega
    rw [shift_again_of_eq hE]
    exact .inr (.inr ⟨rfl, rfl⟩)

/-- The product with a mantissa that has a smaller exponent than one has, rounded, is at most the
other factor: its exponent is smaller, or it is the same and so is the mantissa at most. -/
theorem round_mul {m₁ m₂ : ℕ} {e₁ e₂ : ℤ} (hm₁ : 0 < m₁) (hm₂ : 0 < m₂) (h₁ : Canonical m₁ e₁)
    (h₂ : Canonical m₂ e₂) (hlt : e₁ < -52) :
    roundWithAccuracy .binary64 .positive (m₁ * m₂) (e₁ + e₂) .exact = .zero .positive ∨
    ∃ q e hq, roundWithAccuracy .binary64 .positive (m₁ * m₂) (e₁ + e₂) .exact =
        .finite .positive q e hq ∧
      Canonical q e ∧ (e < e₂ ∨ e = e₂ ∧ q ≤ m₂) := by
  obtain ⟨q, hlow, hhigh, hcases⟩ := round_cases (m₁ * m₂) (e₁ + e₂)
  obtain ⟨d, rfl⟩ : ∃ d : ℕ, e₁ = -(d : ℤ) := ⟨(-e₁).toNat, by omega⟩
  have hd : 53 ≤ d := by omega
  have hge := h₂.exponent_le
  have hprod := mul_lt_shift h₁.mantissa_lt hm₂ hd
  have hshift := shiftBy_mul_le hm₁ h₁.mantissa_lt hm₂ h₂ hd
  have hnormal :=
    normal_or_least_shiftBy (Nat.mul_pos hm₁ hm₂).ne' (le_log2_mul (d := d) hm₁ hm₂ h₂)
  have hleast := least_le_shiftBy (m₁ * m₂) (-(d : ℤ) + e₂)
  generalize shiftBy (m₁ * m₂) (-(d : ℤ) + e₂) = s at *
  have hq : q ≤ m₂ * 2 ^ (d - s) := by
    refine hhigh.trans (Nat.succ_le_of_lt ((Nat.div_lt_iff_lt_mul (Nat.two_pow_pos s)).mpr ?_))
    rwa [Nat.mul_assoc, ← pow_add, Nat.sub_add_cancel hshift]
  obtain hround | ⟨hqpos, hqlt, hround⟩ | ⟨rfl, hround⟩ := hcases
  · exact .inl hround
  · refine .inr ⟨q, _, hqpos, hround, ⟨hqlt, hleast, by omega, ?_⟩, ?_⟩
    · exact hnormal.imp_left fun h => h.trans hlow
    · obtain hlt | rfl := Nat.lt_or_eq_of_le hshift
      · exact .inl (by omega)
      · rw [Nat.sub_self, pow_zero, Nat.mul_one] at hq
        exact .inr ⟨by omega, hq⟩
  · -- The carry moves the exponent up by one, so the shift was not all of `d`.
    have hsd : s < d := by
      by_contra hsd
      rw [show d - s = 0 by omega, pow_zero, Nat.mul_one] at hq
      have := h₂.mantissa_lt
      omega
    refine .inr ⟨2 ^ 52, _, by decide, hround, ⟨by decide, by omega, by omega, .inl le_rfl⟩, ?_⟩
    obtain hlt | heq : s + 1 < d ∨ s + 1 = d := by omega
    · exact .inl (by omega)
    · rw [show d - s = 1 by omega, pow_one] at hq
      exact .inr ⟨by omega, by omega⟩

/-! ## Factors below one -/

theorem unpack_one :
    (1.0 : Float).toModel.unpack = .finite .positive (2 ^ 52) (-52) (by decide) := rfl

theorem exponent_lt_of_lt_one {m : ℕ} {e : ℤ} {hm : 0 < m} (h : Canonical m e)
    (hlt : (finite .positive m e hm).compare (.finite .positive (2 ^ 52) (-52) (by decide)) =
      some .lt) : e < -52 := by
  change some ((compare e (-52)).then (compare m (2 ^ 52))) = some .lt at hlt
  rw [Option.some.injEq, Ordering.then_eq_lt] at hlt
  obtain he | ⟨he, hm⟩ := hlt
  · exact Int.compare_eq_lt.mp he
  · have he := Int.compare_eq_eq.mp he
    have hm := Nat.compare_eq_lt.mp hm
    obtain hnormal | hleast := h.normal_or_least <;> omega

theorem mul_le_of_lt_one {r a : Float} (hr : 0.0 < r) (hr1 : r < 1.0) (ha : 0.0 < a) :
    r * a ≤ a := by
  rw [lt_iff, unpack_one, beq_iff_eq] at hr1
  rw [le_iff]
  show ((Float.Model.pack (UnpackedFloat.mul .binary64 r.toModel.unpack
    a.toModel.unpack)).unpack.compare a.toModel.unpack).any _ = true
  obtain hr | ⟨m₁, e₁, hm₁, hr⟩ := pos_cases hr
  · rw [hr] at hr1
    cases hr1
  rw [hr] at hr1 ⊢
  obtain ha | ⟨m₂, e₂, hm₂, ha⟩ := pos_cases ha
  · rw [ha]
    show ((Float.Model.pack (.infinity .positive)).unpack.compare
      (.infinity .positive)).any _ = true
    decide +kernel
  have h₁ := canonical_of_unpack hr
  have h₂ := canonical_of_unpack ha
  rw [ha]
  show ((Float.Model.pack (roundWithAccuracy .binary64 .positive (m₁ * m₂) (e₁ + e₂)
    .exact)).unpack.compare (.finite .positive m₂ e₂ hm₂)).any _ = true
  obtain hround | ⟨q, e, hq, hround, hcanonical, hle⟩ :=
    round_mul hm₁ hm₂ h₁ h₂ (exponent_lt_of_lt_one h₁ hr1)
  · rw [hround]
    rfl
  · rw [hround, unpack_pack hcanonical]
    show ((compare e e₂).then (compare q m₂)).isLE = true
    rw [Ordering.isLE_then_iff_or]
    obtain hlt | ⟨rfl, hle⟩ := hle
    · exact .inl (Int.compare_eq_lt.mpr hlt)
    · exact .inr ⟨by simp, Nat.isLE_compare.mpr hle⟩

end LogBarrier.Double

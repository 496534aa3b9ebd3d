import LogBarrier.Double.Packing

/-!
# The order of doubles

Comparison of doubles that are not `nan`. Two positive doubles that are the same number have the
same bits, unlike the two zeros.
-/

namespace LogBarrier.Double

open Float.Model Float.Model.UnpackedFloat

/-! ## Unpacked doubles -/

theorem compare_swap (u v : UnpackedFloat) : v.compare u = (u.compare v).map Ordering.swap := by
  cases u with
  | notANumber => cases v <;> rfl
  | infinity s =>
    cases v with
    | infinity t => cases s <;> cases t <;> rfl
    | notANumber => rfl
    | zero t => cases s <;> rfl
    | finite t m e h => cases s <;> cases t <;> rfl
  | zero s =>
    cases v with
    | infinity t => cases t <;> rfl
    | notANumber => rfl
    | zero t => rfl
    | finite t m e h => cases t <;> rfl
  | finite s m e h =>
    cases v with
    | infinity t => cases s <;> cases t <;> rfl
    | notANumber => rfl
    | zero t => cases s <;> rfl
    | finite t m' e' h' =>
      have hswap : ((compare e e').then (compare m m')).swap =
          (compare e' e).then (compare m' m) := by
        rw [Ordering.swap_then, Int.compare_swap, Nat.compare_swap]
      cases s with
      | negative =>
        cases t with
        | negative =>
          show some ((compare e' e).then (compare m' m)).swap =
            some ((compare e e').then (compare m m')).swap.swap
          rw [hswap]
        | positive => rfl
      | positive =>
        cases t with
        | negative => rfl
        | positive =>
          show some ((compare e' e).then (compare m' m)) =
            some ((compare e e').then (compare m m')).swap
          rw [hswap]

theorem compare_self {u v : UnpackedFloat} {o : Ordering} (h : u.compare v = some o) :
    u.compare u = some .eq := by
  cases u with
  | notANumber => cases v <;> cases h
  | infinity s => cases s <;> rfl
  | zero s => rfl
  | finite s m e hm =>
    have hself : (compare e e).then (compare m m) = .eq := by simp [Ordering.then]
    cases s with
    | negative =>
      show some ((compare e e).then (compare m m)).swap = _
      rw [hself]
      rfl
    | positive => exact congrArg some hself

theorem exists_compare {u v : UnpackedFloat} (hu : u ≠ .notANumber) (hv : v ≠ .notANumber) :
    ∃ o, u.compare v = some o := by
  unfold UnpackedFloat.compare
  split
  · exact absurd rfl hu
  · exact absurd rfl hv
  all_goals exact ⟨_, rfl⟩

/-- The place of an unpacked double that is not `nan`: its sign and kind, then its exponent and its
mantissa, which count backwards below zero. -/
def place : UnpackedFloat → ℤ ×ₗ ℤ ×ₗ ℤ
  | .notANumber => toLex (3, toLex (0, 0))
  | .infinity .positive => toLex (2, toLex (0, 0))
  | .finite .positive m e _ => toLex (1, toLex (e, m))
  | .zero _ => toLex (0, toLex (0, 0))
  | .finite .negative m e _ => toLex (-1, toLex (-e, -m))
  | .infinity .negative => toLex (-2, toLex (0, 0))

theorem isLE_then_iff {e e' : ℤ} {m m' : ℕ} :
    ((compare e e').then (compare m m')).isLE = true ↔ e < e' ∨ (e = e' ∧ m ≤ m') := by
  rw [Ordering.isLE_then_iff_or, Int.compare_eq_lt, Int.compare_eq_eq, Nat.isLE_compare]

/-- Doubles compare like their places. -/
theorem isLE_compare_iff {u v : UnpackedFloat} (hu : u ≠ .notANumber) (hv : v ≠ .notANumber) :
    (u.compare v).any Ordering.isLE = true ↔ place u ≤ place v := by
  cases u with
  | notANumber => exact absurd rfl hu
  | infinity s =>
    cases v with
    | notANumber => exact absurd rfl hv
    | infinity t => cases s <;> cases t <;> decide
    | zero t => cases s <;> simp [UnpackedFloat.compare, place, Prod.Lex.toLex_le_toLex]
    | finite t m e h =>
      cases s <;> cases t <;> simp [UnpackedFloat.compare, place, Prod.Lex.toLex_le_toLex]
  | zero s =>
    cases v with
    | notANumber => exact absurd rfl hv
    | infinity t => cases t <;> simp [UnpackedFloat.compare, place, Prod.Lex.toLex_le_toLex]
    | zero t => simp [UnpackedFloat.compare, place]
    | finite t m e h => cases t <;> simp [UnpackedFloat.compare, place, Prod.Lex.toLex_le_toLex]
  | finite s m e h =>
    cases v with
    | notANumber => exact absurd rfl hv
    | infinity t =>
      cases s <;> cases t <;> simp [UnpackedFloat.compare, place, Prod.Lex.toLex_le_toLex]
    | zero t => cases s <;> simp [UnpackedFloat.compare, place, Prod.Lex.toLex_le_toLex]
    | finite t m' e' h' =>
      cases s with
      | negative =>
        cases t with
        | negative =>
          show ((compare e e').then (compare m m')).swap.isLE = true ↔ _
          rw [Ordering.swap_then, Int.compare_swap, Nat.compare_swap, isLE_then_iff]
          simp only [place, Prod.Lex.toLex_le_toLex, lt_irrefl, true_and, false_or]
          omega
        | positive => simp [UnpackedFloat.compare, place, Prod.Lex.toLex_le_toLex]
      | positive =>
        cases t with
        | negative => simp [UnpackedFloat.compare, place, Prod.Lex.toLex_le_toLex]
        | positive =>
          show ((compare e e').then (compare m m')).isLE = true ↔ _
          rw [isLE_then_iff]
          simp only [place, Prod.Lex.toLex_le_toLex, lt_irrefl, true_and, false_or]
          omega

/-! ## Doubles -/

theorem le_iff (a b : Float) :
    a ≤ b ↔ ((a.toModel.unpack.compare b.toModel.unpack).any Ordering.isLE) = true := by
  show decide (a.toModel ≤ b.toModel) = true ↔ _
  rw [decide_eq_true_iff]
  exact Iff.rfl

theorem lt_iff (a b : Float) :
    a < b ↔ (a.toModel.unpack.compare b.toModel.unpack == some .lt) = true := by
  show decide (a.toModel < b.toModel) = true ↔ _
  rw [decide_eq_true_iff]
  exact Iff.rfl

theorem lt_iff_le_not_le (a b : Float) : a < b ↔ a ≤ b ∧ ¬ b ≤ a := by
  rw [lt_iff, le_iff, le_iff, compare_swap a.toModel.unpack b.toModel.unpack]
  cases a.toModel.unpack.compare b.toModel.unpack with
  | none => simp
  | some o => cases o <;> simp

theorem ne_nan_of_le {a b : Float} (h : a ≤ b) :
    a.toModel.unpack ≠ .notANumber ∧ b.toModel.unpack ≠ .notANumber := by
  rw [le_iff] at h
  constructor
  · intro ha
    rw [ha] at h
    cases h
  · intro hb
    rw [hb] at h
    cases hu : a.toModel.unpack <;> rw [hu] at h <;> cases h

theorem le_refl_of_ne_nan {a : Float} (h : a.toModel.unpack ≠ .notANumber) : a ≤ a := by
  obtain ⟨o, ho⟩ := exists_compare h h
  rw [le_iff, compare_self ho]
  rfl

theorem le_total_of_ne_nan {a b : Float} (ha : a.toModel.unpack ≠ .notANumber)
    (hb : b.toModel.unpack ≠ .notANumber) : a ≤ b ∨ b ≤ a := by
  obtain ⟨o, ho⟩ := exists_compare ha hb
  rw [le_iff, le_iff, compare_swap a.toModel.unpack, ho]
  cases o <;> simp

theorem le_trans {a b c : Float} (hab : a ≤ b) (hbc : b ≤ c) : a ≤ c := by
  obtain ⟨ha, hb⟩ := ne_nan_of_le hab
  obtain ⟨-, hc⟩ := ne_nan_of_le hbc
  rw [le_iff, isLE_compare_iff ha hb] at hab
  rw [le_iff, isLE_compare_iff hb hc] at hbc
  rw [le_iff, isLE_compare_iff ha hc]
  exact hab.trans hbc

theorem pos_cases {a : Float} (h : 0.0 < a) :
    a.toModel.unpack = .infinity .positive ∨
      ∃ m e hm, a.toModel.unpack = .finite .positive m e hm := by
  rw [lt_iff] at h
  cases hu : a.toModel.unpack with
  | notANumber => rw [hu] at h; cases h
  | infinity s =>
    cases s with
    | negative => rw [hu] at h; cases h
    | positive => exact .inl rfl
  | zero s => rw [hu] at h; cases h
  | finite s m e hm =>
    cases s with
    | negative => rw [hu] at h; cases h
    | positive => exact .inr ⟨m, e, hm, rfl⟩

/-- Two positive doubles that are the same number have the same bits. -/
theorem eq_of_pos {a b : Float} (ha : 0.0 < a) (hab : a ≤ b) (hba : b ≤ a) : a = b := by
  have hcompare : a.toModel.unpack.compare b.toModel.unpack = some .eq := by
    rw [le_iff] at hab hba
    rw [compare_swap a.toModel.unpack] at hba
    cases h : a.toModel.unpack.compare b.toModel.unpack with
    | none =>
      rw [h] at hab
      cases hab
    | some o =>
      rw [h] at hab hba
      cases o
      · cases hba
      · rfl
      · cases hab
  refine eq_of_unpack ?_
  obtain hu | ⟨m, e, hm, hu⟩ := pos_cases ha
  · rw [hu] at hcompare ⊢
    cases hv : b.toModel.unpack with
    | infinity s =>
      cases s with
      | negative => rw [hv] at hcompare; cases hcompare
      | positive => rfl
    | notANumber => rw [hv] at hcompare; cases hcompare
    | zero s => rw [hv] at hcompare; cases hcompare
    | finite s m e hm => rw [hv] at hcompare; cases hcompare
  · rw [hu] at hcompare ⊢
    cases hv : b.toModel.unpack with
    | infinity s => cases s <;> rw [hv] at hcompare <;> cases hcompare
    | notANumber => rw [hv] at hcompare; cases hcompare
    | zero s => rw [hv] at hcompare; cases hcompare
    | finite s m' e' hm' =>
      rw [hv] at hcompare
      cases s with
      | negative => cases hcompare
      | positive =>
        change some ((compare e e').then (compare m m')) = some .eq at hcompare
        rw [Option.some.injEq, Ordering.then_eq_eq] at hcompare
        obtain ⟨he, hm⟩ := hcompare
        obtain rfl := Int.compare_eq_eq.mp he
        obtain rfl := Nat.compare_eq_eq.mp hm
        rfl

end LogBarrier.Double

import LogBarrier.Double
import Mathlib

/-!
# The fields of doubles

What the bits of a double say about its mantissa and its exponent. Packing a mantissa that has all
its bits, or the least exponent, and unpacking it again gives it back.
-/

namespace LogBarrier.Double

open Float.Model Float.Model.UnpackedFloat

/-! ## Fields -/

abbrev signOf (b : BitVec 64) : BitVec 1 := @unpackSign .binary64 b

abbrev exponentOf (b : BitVec 64) : BitVec 11 := @unpackExponent .binary64 b

abbrev mantissaOf (b : BitVec 64) : BitVec 52 := @unpackMantissa .binary64 b

/-- The double with the given fields. -/
def ofFields (s : Sign) (E : BitVec 11) (M : BitVec 52) : UnpackedFloat :=
  if E = -1#11 then
    if M = 0#52 then .infinity s else .notANumber
  else if E = 0#11 then
    if hM : M = 0#52 then .zero s
    else .finite s M.toNat (-1074) (Nat.pos_of_ne_zero (BitVec.toNat_ne.mp hM))
  else .finite s (2 ^ 52 + M.toNat) (E.toNat - 1075) (Nat.add_pos_left (by decide) _)

theorem toNat_implicit {w : ℕ} (M : BitVec w) : (1#1 ++ M).toNat = 2 ^ w + M.toNat := by
  rw [BitVec.toNat_append, ← Nat.shiftLeft_add_eq_or_of_lt M.isLt, Nat.shiftLeft_eq]
  simp

theorem finite_congr {s : Sign} {m m' : ℕ} {e e' : ℤ} (hm : m = m') (he : e = e') {h : 0 < m}
    {h' : 0 < m'} : finite s m e h = finite s m' e' h' := by
  subst hm he
  rfl

theorem unpack_eq_ofFields (b : BitVec 64) :
    UnpackedFloat.unpack .binary64 b =
      ofFields (.ofBitVec (signOf b)) (exponentOf b) (mantissaOf b) := by
  show (if exponentOf b = -1#11 then _ else _) = _
  unfold ofFields
  split
  · rfl
  · show (if exponentOf b = 0#11 then _ else _) = _
    split
    · rename_i hzero
      refine dite_congr rfl (fun _ => rfl) fun _ => finite_congr rfl ?_
      show ((exponentOf b).toNat : ℤ) - 1075 + 1 = -1074
      rw [hzero]
      rfl
    · exact finite_congr (toNat_implicit (mantissaOf b)) rfl

/-- Doubles that unpack alike have the same bits: there is one `nan`. -/
theorem eq_of_unpack {a b : Float} (h : a.toModel.unpack = b.toModel.unpack) : a = b :=
  Float.toBits_inj.mp (UInt64.toBitVec_inj.mp
    ((unpack_inj_of_valid a.toModel.valid b.toModel.valid).mp h))

/-! ## Mantissa and exponent -/

/-- The mantissa and exponent of a finite double: the mantissa has all its bits, or the exponent is
the least one. -/
structure Canonical (m : ℕ) (e : ℤ) : Prop where
  mantissa_lt : m < 2 ^ 53
  le_exponent : -1074 ≤ e
  exponent_le : e ≤ 971
  normal_or_least : 2 ^ 52 ≤ m ∨ e = -1074

section

variable {s : Sign} {E : BitVec 11} {M : BitVec 52}

theorem canonical_of_ofFields {t : Sign} {m : ℕ} {e : ℤ} {hm : 0 < m}
    (h : ofFields s E M = .finite t m e hm) : Canonical m e := by
  unfold ofFields at h
  have hM := M.isLt
  have hE := E.isLt
  split at h
  · split at h <;> cases h
  · rename_i hones
    have hE1 : E.toNat ≠ 2047 := BitVec.toNat_ne.mp hones
    split at h
    · split at h
      · cases h
      · cases h
        exact ⟨by omega, by decide, by decide, .inr rfl⟩
    · rename_i hzero
      have hE0 : E.toNat ≠ 0 := BitVec.toNat_ne.mp hzero
      cases h
      exact ⟨by omega, by omega, by omega, .inl (by omega)⟩

theorem canonical_of_unpack {x : Float.Model} {t : Sign} {m : ℕ} {e : ℤ} {hm : 0 < m}
    (h : x.unpack = .finite t m e hm) : Canonical m e :=
  canonical_of_ofFields ((unpack_eq_ofFields _).symm.trans h)

theorem ofFields_normal (h0 : E ≠ 0#11) (h1 : E ≠ -1#11) {m : ℕ} {e : ℤ} {hm : 0 < m}
    (hM : 2 ^ 52 + M.toNat = m) (hE : (E.toNat : ℤ) - 1075 = e) :
    ofFields s E M = .finite s m e hm := by
  subst hM hE
  rw [ofFields, if_neg h1, if_neg h0]

theorem ofFields_subnormal (h0 : M ≠ 0#52) {m : ℕ} {hm : 0 < m} (hM : M.toNat = m) :
    ofFields s 0#11 M = .finite s m (-1074) hm := by
  subst hM
  rw [ofFields, if_neg (by decide), if_pos rfl, dif_neg h0]

end

/-! ## Packing -/

theorem unpack_packComponents (s : Sign) (E : BitVec 11) (M : BitVec 52) :
    UnpackedFloat.unpack .binary64 (packComponents .binary64 s E M) = ofFields s E M := by
  rw [unpack_eq_ofFields, signOf, exponentOf, mantissaOf, unpackExponent_packComponents,
    unpackMantissa_packComponents, unpackSign_packComponents, Sign.ofBitVec_toBitVec]

theorem unpack_pack {m : ℕ} {e : ℤ} {hm : 0 < m} (h : Canonical m e) :
    (Float.Model.pack (.finite .positive m e hm)).unpack = .finite .positive m e hm := by
  obtain ⟨hlt, hle, hge, hor⟩ := h
  have hb : ¬ 2 ^ 11 ≤ (e + 1023 + 52).toNat + 1 := by omega
  show UnpackedFloat.unpack .binary64 (if 2 ^ 11 ≤ (e + 1023 + 52).toNat + 1 then _
    else if m.log2 + 1 = 53 then _ else _) = _
  rw [if_neg hb]
  by_cases hnormal : 2 ^ 52 ≤ m
  · -- The highest bit is not stored, and the exponent field is neither zero nor all ones.
    have hlog : m.log2 = 52 := (Nat.log2_eq_iff hm.ne').mpr ⟨hnormal, hlt⟩
    have hE : (BitVec.ofNat 11 (e + 1023 + 52).toNat).toNat = (e + 1075).toNat := by
      rw [BitVec.toNat_ofNat, Nat.mod_eq_of_lt (by omega)]
      congr 1
      omega
    have hM : (BitVec.ofNat 52 m).toNat = m - 2 ^ 52 := by
      rw [BitVec.toNat_ofNat]
      omega
    rw [hlog, if_pos rfl]
    refine (unpack_packComponents .positive (BitVec.ofNat 11 (e + 1023 + 52).toNat)
      (BitVec.ofNat 52 m)).trans (ofFields_normal (fun h => ?_) (fun h => ?_) ?_ ?_)
    · have hzero : (BitVec.ofNat 11 (e + 1023 + 52).toNat).toNat = 0 := congrArg BitVec.toNat h
      omega
    · have hones : (BitVec.ofNat 11 (e + 1023 + 52).toNat).toNat = 2047 := congrArg BitVec.toNat h
      omega
    · omega
    · rw [hE]
      omega
  · -- All bits are stored, under the exponent field zero.
    have hlog : ¬ m.log2 + 1 = 53 := by
      have := (Nat.log2_lt hm.ne').mpr (Nat.not_le.mp hnormal)
      omega
    have hM : (BitVec.ofNat 52 m).toNat = m := by
      rw [BitVec.toNat_ofNat, Nat.mod_eq_of_lt (by omega)]
    rw [if_neg hlog]
    obtain rfl : e = -1074 := hor.resolve_left hnormal
    refine (unpack_packComponents .positive 0#11 (BitVec.ofNat 52 m)).trans
      (ofFields_subnormal (fun h => ?_) hM)
    have hzero : (BitVec.ofNat 52 m).toNat = 0 := congrArg BitVec.toNat h
    omega

end LogBarrier.Double

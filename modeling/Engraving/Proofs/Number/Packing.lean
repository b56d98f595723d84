import Engraving.Number.Exact
import Mathlib

/-!
# Floats and their parts

A binary64 number is stored as bits and computed with as a sign, a significand and an exponent. The
parts that the bits unpack to are canonical: the significand has 53 bits, or fewer at the least
exponent. Packing canonical parts and unpacking them again gives the same parts, unless the exponent
is too great for the format, which gives an infinity.
-/

open Float.Model (Format UnpackedFloat)
open Float.Model.UnpackedFloat

namespace Engraving

/-- The significand and the exponent of a positive binary64 number, but for the upper end of the
exponents. -/
structure IsCanonical (significand : ℕ) (exponent : ℤ) : Prop where
  pos : 0 < significand
  lt : significand < 2 ^ 53
  least_le : -1074 ≤ exponent
  /-- Shorter significands stand at the least exponent only. -/
  normal_or_least : 2 ^ 52 ≤ significand ∨ exponent = -1074

/-! ## Bits -/

/-- The stored bits of a normal significand, with the leading one put back. -/
private theorem toNat_one_append (m : BitVec 52) : (1#1 ++ m).toNat = 2 ^ 52 + m.toNat := by
  rw [BitVec.toNat_append, ← Nat.shiftLeft_add_eq_or_of_lt m.isLt]
  rfl

private theorem unpack_pack_components (s : Sign) (e : BitVec 11) (m : BitVec 52) :
    UnpackedFloat.unpack Format.binary64 (packComponents Format.binary64 s e m)
      = if e = -1#11 then (if m = 0#52 then .infinity s else .notANumber)
        else if e = 0#11 then
          (if h : m = 0#52 then .zero s
            else .finite s m.toNat (-1074) (by simpa [BitVec.toNat_pos, BitVec.pos_iff_ne_zero]))
        else .finite s (1#1 ++ m).toNat (e.toNat - 1075)
          (by rw [toNat_one_append]; omega) := by
  rw [UnpackedFloat.unpack]
  simp only [unpackMantissa_packComponents, unpackExponent_packComponents,
    unpackSign_packComponents, Sign.ofBitVec_toBitVec]
  split_ifs with h1 h2 h3 h4
  · rfl
  · rfl
  · rfl
  · subst h3
    rfl
  · rfl

/-! ## Packing and unpacking -/

/-- What a packed number unpacks to. -/
def stored (u : UnpackedFloat) : UnpackedFloat := (Float.Model.pack u).unpack

theorem stored_zero (s : Sign) : stored (.zero s) = .zero s := by
  cases s <;> rfl

theorem stored_infinity (s : Sign) : stored (.infinity s) = .infinity s := by
  cases s <;> rfl

theorem stored_notANumber : stored .notANumber = .notANumber := rfl

variable {s : Sign} {m : ℕ} {e : ℤ} {hm : 0 < m}

private theorem stored_finite_eq : stored (.finite s m e hm)
    = UnpackedFloat.unpack Format.binary64
        (if 2 ^ 11 ≤ (e + 1075).toNat + 1 then packedInfinity Format.binary64 s
        else if m.log2 + 1 = 53 then
          packComponents Format.binary64 s (BitVec.ofNat 11 (e + 1075).toNat) (BitVec.ofNat 52 m)
        else packComponents Format.binary64 s 0#11 (BitVec.ofNat 52 m)) := by
  have hbias : (e + (Format.binary64.exponentBias : ℤ)
      + (Format.binary64.mantissaBitsWithoutImplicit : ℤ)).toNat = (e + 1075).toNat := by
    rw [show (Format.binary64.exponentBias : ℤ) = 1023 from rfl]
    rw [show (Format.binary64.mantissaBitsWithoutImplicit : ℤ) = 52 from rfl]
    congr 1
    omega
  change UnpackedFloat.unpack Format.binary64
    (UnpackedFloat.pack Format.binary64 (.finite s m e hm)) = _
  rw [UnpackedFloat.pack]
  dsimp only
  rw [hbias]
  rfl

/-- Of a normal significand the leading one is not stored. -/
private theorem unpack_normal (hge : 2 ^ 52 ≤ m) (hlt : m < 2 ^ 53) (hleast : -1074 ≤ e)
    (he : e ≤ 971) : UnpackedFloat.unpack Format.binary64
        (packComponents Format.binary64 s (BitVec.ofNat 11 (e + 1075).toNat) (BitVec.ofNat 52 m))
      = .finite s m e hm := by
  have hexp : (BitVec.ofNat 11 (e + 1075).toNat).toNat = (e + 1075).toNat := by
    rw [BitVec.toNat_ofNat, Nat.mod_eq_of_lt (by norm_num; omega)]
  -- Cut off to 52 bits, the significand loses just its leading one.
  have hmant : (BitVec.ofNat 52 m).toNat = m - 2 ^ 52 := by
    rw [BitVec.toNat_ofNat]
    omega
  have hinf : ¬BitVec.ofNat 11 (e + 1075).toNat = -1#11 := by
    rw [← BitVec.toNat_inj, hexp]
    norm_num
    omega
  have hsub : ¬BitVec.ofNat 11 (e + 1075).toNat = 0#11 := by
    rw [← BitVec.toNat_inj, hexp]
    norm_num
    omega
  rw [unpack_pack_components, if_neg hinf, if_neg hsub]
  congr 1
  · rw [toNat_one_append, hmant]
    omega
  · rw [hexp]
    omega

private theorem unpack_subnormal (hlow : m < 2 ^ 52) : UnpackedFloat.unpack Format.binary64
      (packComponents Format.binary64 s 0#11 (BitVec.ofNat 52 m)) = .finite s m (-1074) hm := by
  have hmant : (BitVec.ofNat 52 m).toNat = m := by
    rw [BitVec.toNat_ofNat, Nat.mod_eq_of_lt hlow]
  have hne : ¬BitVec.ofNat 52 m = 0#52 := by
    rw [← BitVec.toNat_inj, hmant]
    norm_num
    omega
  rw [unpack_pack_components, if_neg (by decide), if_pos rfl, dif_neg hne]
  congr 1

/-- Canonical parts are kept, as long as the exponent is not too great. -/
theorem stored_finite (h : IsCanonical m e) (he : e ≤ 971) :
    stored (.finite s m e hm) = .finite s m e hm := by
  have hleast := h.least_le
  rw [stored_finite_eq, if_neg (by norm_num; omega)]
  split_ifs with hbits
  · have hge : 2 ^ 52 ≤ m := by
      rw [show 52 = m.log2 by omega]
      exact Nat.log2_self_le hm.ne'
    exact unpack_normal hge h.lt hleast he
  · -- Fewer than 53 bits: the exponent is the least one.
    have hlow : m < 2 ^ 52 := by
      by_contra hge
      have hlog := (Nat.le_log2 hm.ne').mpr (not_lt.mp hge)
      have hlog' := (Nat.log2_lt hm.ne').mpr h.lt
      omega
    obtain rfl : e = -1074 := h.normal_or_least.resolve_left (by omega)
    exact unpack_subnormal hlow

/-- Parts with too great an exponent are stored as an infinity. -/
theorem stored_finite_of_lt (he : 971 < e) : stored (.finite s m e hm) = .infinity s := by
  rw [stored_finite_eq, if_pos (by norm_num; omega), packedInfinity, unpack_pack_components,
    if_pos rfl]
  rfl

/-- The sign of an unpacked number, if there is a number. -/
def unpackedSign? : UnpackedFloat → Option Sign
  | .finite s _ _ _ | .zero s | .infinity s => some s
  | .notANumber => none

/-- Whatever the parts are, they are stored with their sign. -/
theorem unpackedSign?_stored (u : UnpackedFloat) : unpackedSign? (stored u) = unpackedSign? u := by
  have hsign (s : Sign) {e : BitVec 11} (he : e ≠ -1#11) (m : BitVec 52) :
      unpackedSign? (UnpackedFloat.unpack Format.binary64 (packComponents Format.binary64 s e m))
        = some s := by
    rw [unpack_pack_components, if_neg he]
    split_ifs <;> rfl
  match u with
  | .notANumber => rfl
  | .zero s => rw [stored_zero]
  | .infinity s => rw [stored_infinity]
  | .finite s m e hm =>
    rw [stored_finite_eq]
    split_ifs with hlarge hnormal
    · exact (congrArg unpackedSign? (stored_infinity s)).trans rfl
    · refine hsign s (fun h ↦ ?_) _
      rw [← BitVec.toNat_inj, BitVec.toNat_ofNat, Nat.mod_eq_of_lt (by norm_num; omega)] at h
      norm_num at h
      omega
    · exact hsign s (by decide) _

theorem isCanonical_of_unpack {x : Float.Model} (h : x.unpack = .finite s m e hm) :
    IsCanonical m e ∧ e ≤ 971 := by
  have hmant := (@unpackMantissa Format.binary64 x.toBits.toBitVec).isLt
  have hexp := (@unpackExponent Format.binary64 x.toBits.toBitVec).isLt
  rw [Float.Model.unpack, UnpackedFloat.unpack] at h
  dsimp only at h
  change (@unpackMantissa Format.binary64 x.toBits.toBitVec).toNat < 2 ^ 52 at hmant
  change (@unpackExponent Format.binary64 x.toBits.toBitVec).toNat < 2 ^ 11 at hexp
  have hoffset : ((Format.binary64.exponentBias : ℤ)
      + (Format.binary64.mantissaBitsWithoutImplicit : ℤ)) = 1075 := rfl
  split_ifs at h with hinf hzero hsub
  · injection h with _ hm' he'
    rw [hoffset, hsub] at he'
    have he'' : e = -1074 := he'.symm
    exact ⟨⟨hm, by omega, by omega, Or.inr he''⟩, by omega⟩
  · injection h with _ hm' he'
    rw [toNat_one_append] at hm'
    have hlow := fun h0 ↦ hsub (BitVec.eq_of_toNat_eq h0)
    have hhigh := fun h0 ↦ hinf (BitVec.eq_of_toNat_eq h0)
    change ¬(@unpackExponent Format.binary64 x.toBits.toBitVec).toNat = 0 at hlow
    change ¬(@unpackExponent Format.binary64 x.toBits.toBitVec).toNat = 2047 at hhigh
    rw [hoffset] at he'
    exact ⟨⟨hm, by omega, by omega, Or.inl (by omega)⟩, by omega⟩

end Engraving

import Mathlib
import Broadphase.Proofs.Scalar.Rounding

/-!
What the bits of a binary32 number say. Decoding gives a significand and an
exponent in canonical form, and packing a canonical number loses nothing unless
its exponent is past the format, which makes it infinite. The order of the format
is the order of the decoded values.
-/

namespace Broadphase

namespace Scalar

open Float.Model Float.Model.UnpackedFloat

/-- A finite number has a significand of 24 bits, or of fewer bits at the least
exponent. -/
def Canonical : UnpackedFloat → Prop
  | .finite _ m e _ => m < 2 ^ 24 ∧ -149 ≤ e ∧ (2 ^ 23 ≤ m ∨ e = -149)
  | _ => True

def InRange : UnpackedFloat → Prop
  | .finite _ _ e _ => e ≤ 104
  | _ => True

private theorem toNat_one_append (v : BitVec 23) : (1#1 ++ v).toNat = 2 ^ 23 + v.toNat := by
  rw [BitVec.toNat_append, ← Nat.shiftLeft_add_eq_or_of_lt v.isLt]
  rfl

private theorem exponent_lt_of_ne {v : BitVec 8} (h : v ≠ -1#8) : v.toNat < 255 := by
  have hlt := v.isLt
  have hne : v.toNat ≠ 255 := fun heq => h (BitVec.eq_of_toNat_eq heq)
  omega

theorem unpack_canonical (b : BitVec Format.binary32.numBits) :
    Canonical (unpack Format.binary32 b) ∧ InRange (unpack Format.binary32 b) := by
  have hbias : Format.binary32.exponentBias = 127 := by decide
  unfold UnpackedFloat.unpack
  dsimp only
  split_ifs with hspecial hzero hleast hempty
  · exact ⟨trivial, trivial⟩
  · exact ⟨trivial, trivial⟩
  · exact ⟨trivial, trivial⟩
  · have hm : (unpackMantissa b).toNat < 2 ^ 23 := (unpackMantissa b).isLt
    have he : (unpackExponent b).toNat = 0 := congrArg BitVec.toNat hleast
    simp only [Canonical, InRange, hbias, he]
    omega
  · have hm : (unpackMantissa b).toNat < 2 ^ 23 := (unpackMantissa b).isLt
    have hupper : (unpackExponent b).toNat < 255 := exponent_lt_of_ne hspecial
    have hlower : (unpackExponent b).toNat ≠ 0 :=
      fun heq => hleast (BitVec.eq_of_toNat_eq heq)
    simp only [Canonical, InRange, hbias, toNat_one_append]
    omega

private theorem unpackSign_packComponents {spec : Format} (s : Sign)
    (e : BitVec spec.exponentBits) (m : BitVec spec.mantissaBitsWithoutImplicit) :
    Sign.ofBitVec (unpackSign (packComponents spec s e m)) = s := by
  have hbits : unpackSign (packComponents spec s e m) = s.toBitVec := by
    apply BitVec.eq_of_getLsbD_eq
    intro i hi
    obtain rfl : i = 0 := by omega
    simp [unpackSign, packComponents, BitVec.getLsbD_append, BitVec.getElem_append]
  rw [hbits]
  cases s <;> rfl

theorem unpack_packedInfinity (s : Sign) :
    unpack Format.binary32 (packedInfinity Format.binary32 s) = .infinity s := by
  cases s <;> rfl

theorem unpack_packedZero (s : Sign) :
    unpack Format.binary32 (packedZero Format.binary32 s) = .zero s := by
  cases s <;> rfl

/-- A canonical number with an exponent of the format comes back from its bits. -/
theorem unpack_pack_finite (s : Sign) (m : ℕ) (e : ℤ) (hm : 0 < m)
    (hcanonical : Canonical (.finite s m e hm)) (hrange : e ≤ 104) :
    unpack Format.binary32 (pack Format.binary32 (.finite s m e hm)) = .finite s m e hm := by
  obtain ⟨hupper, hlower, hshape⟩ := hcanonical
  have hbias : Format.binary32.exponentBias = 127 := by decide
  have hbits : Format.binary32.mantissaBits = 24 := by decide
  obtain ⟨k, hk⟩ := Int.eq_ofNat_of_zero_le (show 0 ≤ e + 149 by omega)
  have hbiased : (e + (127 : ℕ) + (23 : ℕ)).toNat = k + 1 := by omega
  unfold UnpackedFloat.pack
  simp only [hbias, hbits, hbiased]
  rw [if_neg (by norm_num; omega)]
  by_cases hnormal : 2 ^ 23 ≤ m
  · have hlog : m.log2 + 1 = 24 := by
      have hge := (Nat.le_log2 hm.ne').mpr hnormal
      have hlt := (Nat.log2_lt hm.ne').mpr hupper
      omega
    have hexponent : (BitVec.ofNat 8 (k + 1)).toNat = k + 1 := by
      rw [BitVec.toNat_ofNat, Nat.mod_eq_of_lt (by omega)]
    have hspecial : BitVec.ofNat 8 (k + 1) ≠ -1#8 := by
      intro h
      have heq : k + 1 = 255 := hexponent.symm.trans (congrArg BitVec.toNat h)
      omega
    have hleast : BitVec.ofNat 8 (k + 1) ≠ 0#8 := by
      intro h
      have heq : k + 1 = 0 := hexponent.symm.trans (congrArg BitVec.toNat h)
      omega
    have hmantissa : (1#1 ++ BitVec.ofNat 23 m).toNat = m := by
      rw [toNat_one_append, BitVec.toNat_ofNat]
      omega
    rw [if_pos hlog]
    unfold UnpackedFloat.unpack
    simp only [unpackMantissa_packComponents, unpackExponent_packComponents,
      unpackSign_packComponents, if_neg hspecial, if_neg hleast, hexponent, hbias]
    congr 1
    omega
  · have hleast : e = -149 := hshape.resolve_left hnormal
    have hlog : ¬ m.log2 + 1 = 24 := by
      have hlt := (Nat.log2_lt hm.ne').mpr (not_le.mp hnormal)
      omega
    have hmantissa : (BitVec.ofNat 23 m).toNat = m := by
      rw [BitVec.toNat_ofNat, Nat.mod_eq_of_lt (by omega)]
    have hempty : BitVec.ofNat 23 m ≠ 0#23 := by
      intro h
      have heq : m = 0 := hmantissa.symm.trans (congrArg BitVec.toNat h)
      omega
    rw [if_neg hlog]
    unfold UnpackedFloat.unpack
    simp only [unpackMantissa_packComponents, unpackExponent_packComponents,
      unpackSign_packComponents, hbias]
    rw [if_neg (by decide), if_pos trivial, dif_neg hempty]
    simp only [hmantissa, hleast]
    rfl

/-- A canonical number whose exponent is past the format becomes infinite. -/
theorem unpack_pack_overflow (s : Sign) (m : ℕ) (e : ℤ) (hm : 0 < m) (hrange : 104 < e) :
    unpack Format.binary32 (pack Format.binary32 (.finite s m e hm)) = .infinity s := by
  have hbias : Format.binary32.exponentBias = 127 := by decide
  unfold UnpackedFloat.pack
  simp only [hbias]
  rw [if_pos (by norm_num; omega)]
  exact unpack_packedInfinity s

end Scalar

end Broadphase

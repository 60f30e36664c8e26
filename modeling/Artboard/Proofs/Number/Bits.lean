import Artboard.Proofs.Number.Order
import Mathlib

/-!
# Doubles and their exact forms

The exact form of a double tells its bits, so it tells the double (`exact_injective`). What
compares equal is the same then, unless both are zeros (`eq_of_beq`), and whatever is computed from
a positive double is computed from all that compare equal to it.
-/

namespace Artboard.Number

open Float.Model (UnpackedFloat Format)
open Float.Model.UnpackedFloat

variable {b c : BitVec Format.binary64.numBits} {x y : Float}

/-- The bits of a double are those of its sign, its exponent and its mantissa. -/
theorem packComponents_unpack (b : BitVec Format.binary64.numBits) :
    packComponents .binary64 (.ofBitVec (unpackSign b)) (unpackExponent b) (unpackMantissa b) =
      b := by
  have hsign (s : BitVec 1) : (Sign.ofBitVec s).toBitVec = s := by
    revert s
    decide
  have hb : b.toNat < 2 ^ 64 := b.isLt
  refine BitVec.eq_of_toNat_eq ?_
  simp only [packComponents, hsign, unpackSign, unpackExponent, unpackMantissa,
    BitVec.toNat_append, BitVec.toNat_cast, BitVec.extractLsb_toNat, Nat.shiftRight_eq_div_pow]
  rw [← Nat.shiftLeft_add_eq_or_of_lt (by omega), ← Nat.shiftLeft_add_eq_or_of_lt (by omega)]
  simp only [Nat.shiftLeft_eq]
  omega

theorem eq_of_parts_eq (hsign : Sign.ofBitVec (unpackSign b) = .ofBitVec (unpackSign c))
    (hexponent : unpackExponent b = unpackExponent c)
    (hmantissa : unpackMantissa b = unpackMantissa c) : b = c := by
  rw [← packComponents_unpack b, hsign, hexponent, hmantissa, packComponents_unpack]

/-- Only one double is not a number, and the first bit of a mantissa says whether it was left out,
so no two doubles have one form. -/
theorem eq_of_unpack_eq (hb : Format.binary64.Valid b) (hc : Format.binary64.Valid c)
    (h : unpack .binary64 b = unpack .binary64 c) : b = c := by
  have hlead (m : BitVec 52) : (1#1 ++ m).toNat = 2 ^ 52 + m.toNat := by
    rw [BitVec.toNat_append, ← Nat.shiftLeft_add_eq_or_of_lt m.isLt]
    rfl
  have hmantissa_lt (d : BitVec Format.binary64.numBits) :
      (@unpackMantissa .binary64 d).toNat < 2 ^ 52 := (unpackMantissa d).isLt
  rw [unpack, unpack] at h
  dsimp only at h
  split_ifs at h <;> simp only [infinity.injEq, zero.injEq, finite.injEq, hlead] at h
  · -- two infinities
    rename_i hb hb' hc hc'
    exact eq_of_parts_eq h (hb.trans hc.symm) (hb'.trans hc'.symm)
  · -- not numbers, both of them
    rename_i hexponent hmantissa hexponent' hmantissa'
    exact (hb.eq_packedNaN hexponent hmantissa).trans
      (hc.eq_packedNaN hexponent' hmantissa').symm
  · -- two zeros
    rename_i hb hb' _ hc hc'
    exact eq_of_parts_eq h (hb.trans hc.symm) (hb'.trans hc'.symm)
  · -- below the normal numbers, both of them
    rename_i hb _ _ hc _
    exact eq_of_parts_eq h.1 (hb.trans hc.symm) (BitVec.eq_of_toNat_eq h.2.1)
  · have := hmantissa_lt b
    omega
  · have := hmantissa_lt c
    omega
  · -- two normal numbers
    refine eq_of_parts_eq h.1 (BitVec.eq_of_toNat_eq ?_) (BitVec.eq_of_toNat_eq ?_)
    · omega
    · omega

/-- **The exact form of a double tells the double.** -/
theorem exact_injective : Function.Injective exact := by
  intro x y h
  have hbits : x.toModel.toBits.toBitVec = y.toModel.toBits.toBitVec :=
    eq_of_unpack_eq x.toModel.valid y.toModel.valid h
  obtain ⟨⟨bits, _⟩⟩ := x
  obtain ⟨⟨bits', _⟩⟩ := y
  obtain rfl : bits = bits' := UInt64.toBitVec_inj.1 hbits
  rfl

/-- What compares equal to a positive number is that number. -/
theorem eq_of_beq (h : (x == y) = true) (hx : 0 < x) : x = y := by
  rcases eq_or_zero_of_compare_eq (beq_iff.1 h) with heq | ⟨s, t, hzero, -⟩
  · exact exact_injective heq
  · rw [lt_iff, hzero] at hx
    cases hx

end Artboard.Number

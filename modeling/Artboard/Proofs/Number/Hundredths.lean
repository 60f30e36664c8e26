import Artboard.Number.Decimal
import Artboard.Proofs.Number.Finite

/-!
# Numbers rounded to hundredths

A number rounded to hundredths is a zero or far enough from zero to have a hundredth of its own
(`scaledEven_pos`): whole numbers other than zero are at least one, and so a hundredth of one is
above `2 ^ (-7)`. Doubles of this size have mantissas of 53 bits, so their exponents tell how far
they are from zero (`AtLeast`), and rounding keeps that (`atLeast_roundWithAccuracy`).
-/

namespace Artboard.Number

open Float.Model (UnpackedFloat Format totalExponent)
open Float.Model.UnpackedFloat

/-- What is finite and no zero has a mantissa of 53 bits and an exponent of at least `bound`. -/
def AtLeast (bound : Int) : UnpackedFloat → Prop
  | .finite _ m e _ => m.log2 = 52 ∧ bound ≤ e
  | _ => True

variable {bound : Int} {m k : Nat} {e : Int} {s : Sign} {f : UnpackedFloat}
  {b : BitVec Format.binary64.numBits} {x y : Float}

/-! ## Rounding -/

/-- The first 53 bits of a number. -/
theorem log2_div_two_pow (h : 52 ≤ m.log2) : (m / 2 ^ (m.log2 - 52)).log2 = 52 := by
  have hm : m ≠ 0 := by
    rintro rfl
    exact absurd h (by decide)
  obtain ⟨k, hk⟩ := Nat.exists_eq_add_of_le h
  have hlow : 2 ^ 52 ≤ m / 2 ^ k := by
    rw [Nat.le_div_iff_mul_le (by positivity), ← Nat.pow_add, ← hk]
    exact Nat.log2_self_le hm
  have hhigh : m / 2 ^ k < 2 ^ 53 := div_two_pow_lt hk.le
  rw [hk, Nat.add_sub_cancel_left]
  exact (Nat.log2_eq_iff (by omega)).2 ⟨hlow, hhigh⟩

theorem le_roundedMantissa (em : ExtendedMantissa) : em.mantissa ≤ em.roundedMantissa := by
  obtain ⟨m, roundBit, stickyBit⟩ := em
  cases roundBit <;> cases stickyBit <;>
    simp [ExtendedMantissa.roundedMantissa, ExtendedMantissa.accuracy,
      Accuracy.roundToNearestEven]

/-- A number of 53 bits or more is cut off after 53 bits. -/
theorem shiftToTargetExponent_normal (accuracy : Accuracy) (hm : 52 ≤ m.log2)
    (he : -1074 ≤ m.log2 + e - 52) :
    (shiftToTargetExponent .binary64 m e accuracy).1.mantissa = m / 2 ^ (m.log2 - 52) ∧
      (shiftToTargetExponent .binary64 m e accuracy).2 = m.log2 + e - 52 := by
  have hstart : (ExtendedMantissa.ofMantissaAndAccuracy m accuracy).mantissa = m := by
    unfold ExtendedMantissa.ofMantissaAndAccuracy
    split <;> rfl
  have hshift : (max (m.log2 + e - 52) (-1074) - e).toNat = m.log2 - 52 := by omega
  rw [shiftToTargetExponent_eq]
  refine ⟨?_, ?_⟩
  · rw [mantissa_shiftRight, hstart, hshift]
  · dsimp only
    omega

/-- Rounding keeps a number of 53 bits or more away from zero. -/
theorem atLeast_roundWithAccuracy (accuracy : Accuracy) (hm : 52 ≤ m.log2)
    (hbound : bound ≤ m.log2 + e - 52) (hmin : -1074 ≤ bound) :
    AtLeast bound (roundWithAccuracy .binary64 s m e accuracy) := by
  obtain ⟨first, hfirst⟩ : ∃ first, first = shiftToTargetExponent .binary64 m e accuracy :=
    ⟨_, rfl⟩
  obtain ⟨r, hr⟩ : ∃ r, r = first.1.roundedMantissa := ⟨_, rfl⟩
  obtain ⟨last, hlast⟩ : ∃ last, last = shiftToTargetExponent .binary64 r first.2 .exact :=
    ⟨_, rfl⟩
  rw [roundWithAccuracy_eq s m e accuracy hfirst (hr ▸ hlast)]
  obtain ⟨hmantissa, hexponent⟩ := shiftToTargetExponent_normal accuracy hm (hmin.trans hbound)
  rw [← hfirst] at hmantissa hexponent
  have hrounded : 52 ≤ r.log2 := by
    have hcut := log2_div_two_pow hm
    rw [← hmantissa] at hcut
    have hpos : first.1.mantissa ≠ 0 := by
      intro hzero
      rw [hzero] at hcut
      exact absurd hcut (by decide)
    have hle := le_roundedMantissa first.1
    rw [Nat.le_log2 (by omega), hr]
    exact ((Nat.le_log2 hpos).1 hcut.ge).trans hle
  obtain ⟨hmantissa', hexponent'⟩ :=
    shiftToTargetExponent_normal (e := first.2) .exact hrounded (by omega)
  rw [← hlast] at hmantissa' hexponent'
  split
  · trivial
  · exact ⟨hmantissa' ▸ log2_div_two_pow hrounded, by omega⟩

/-! ## Packing -/

theorem AtLeast.mono {bound' : Int} (h : AtLeast bound f) (hle : bound' ≤ bound) :
    AtLeast bound' f := by
  cases f with
  | finite => exact ⟨h.1, hle.trans h.2⟩
  | _ => trivial

theorem AtLeast.neg (h : AtLeast bound f) : AtLeast bound f.neg := by cases f <;> exact h

theorem AtLeast.of_isFinite_eq_false (h : f.isFinite = false) : AtLeast bound f := by
  cases f with
  | finite => cases h
  | _ => trivial

/-- A normal number has the exponent that its bits give, and the first bit that was left out. -/
theorem atLeast_unpack {exponent : BitVec 11} (hexponent : unpackExponent b = exponent)
    (h : exponent ≠ 0#11) : AtLeast (exponent.toNat - 1075) (unpack .binary64 b) := by
  have hlog (m : BitVec 52) : (1#1 ++ m).toNat.log2 = 52 := by
    have hvalue : (1#1 ++ m).toNat = 2 ^ 52 + m.toNat := by
      rw [BitVec.toNat_append, ← Nat.shiftLeft_add_eq_or_of_lt m.isLt]
      rfl
    rw [Nat.log2_eq_iff (by omega), hvalue]
    omega
  rw [unpack]
  dsimp only
  rw [hexponent, if_neg h]
  split_ifs
  · trivial
  · trivial
  · refine ⟨hlog _, ?_⟩
    simp only [Format.exponentBias]
    omega

theorem atLeast_unpack_pack (h : AtLeast bound f) (hmin : -1074 ≤ bound) :
    AtLeast bound (unpack .binary64 (pack .binary64 f)) := by
  cases f with
  | notANumber => exact .of_isFinite_eq_false (isFinite_pack_eq_false rfl)
  | infinity s => exact .of_isFinite_eq_false (isFinite_pack_eq_false rfl)
  | zero s =>
    have hzero : unpack .binary64 (pack .binary64 (.zero s)) = .zero s := by cases s <;> rfl
    rw [hzero]
    trivial
  | finite s m e hm =>
    obtain ⟨hlog, he⟩ := h
    obtain ⟨biased, hbiased⟩ : ∃ biased, biased = (e + 1023 + 52).toNat := ⟨_, rfl⟩
    rw [pack_finite s hm hbiased]
    split_ifs with hlarge hnormal
    · exact .of_isFinite_eq_false (isFinite_pack_eq_false (f := .infinity s) rfl)
    · have hexponent : (BitVec.ofNat 11 biased).toNat = biased := by
        rw [BitVec.toNat_ofNat]
        omega
      refine (atLeast_unpack unpackExponent_packComponents ?_).mono ?_
      · intro hzero
        rw [hzero, BitVec.toNat_ofNat] at hexponent
        omega
      · omega
    · exact absurd (congrArg (· + 1) hlog) hnormal

/-- Doubles with exponents above the least one are normal numbers. -/
theorem log2_mantissa {hm : 0 < m} (h : exact x = .finite s m e hm) (he : -1074 < e) :
    m.log2 = 52 := by
  by_cases hexponent : @unpackExponent .binary64 x.toModel.toBits.toBitVec = 0#11
  · have hsmall : AtMost (-1074) (exact x) := (atMost_unpack hexponent (by decide)).mono (by decide)
    rw [h] at hsmall
    exact absurd he (not_lt.2 hsmall)
  · have hnormal : AtLeast _ (exact x) := atLeast_unpack rfl hexponent
    rw [h] at hnormal
    exact hnormal.1

/-! ## Whole numbers -/

/-- A positive number of 53 bits at most, shifted up to 53 bits. -/
theorem log2_shiftLeft (hpos : 0 < m) (h : m < 2 ^ 53) (hk : k = 52 - m.log2) :
    (m <<< k).log2 = 52 := by
  have hlow := Nat.log2_self_le hpos.ne'
  have hhigh := @Nat.lt_log2_self m
  have hlog : m.log2 ≤ 52 := log2_le_of_lt h
  have hsum : m.log2 + k = 52 := by omega
  have hsum' : m.log2 + 1 + k = 53 := by omega
  rw [Nat.shiftLeft_eq, Nat.log2_eq_iff (by positivity)]
  constructor
  · calc 2 ^ 52 = 2 ^ m.log2 * 2 ^ k := by rw [← Nat.pow_add, hsum]
      _ ≤ m * 2 ^ k := Nat.mul_le_mul_right _ hlow
  · calc m * 2 ^ k < 2 ^ (m.log2 + 1) * 2 ^ k :=
          Nat.mul_lt_mul_of_pos_right hhigh (by positivity)
      _ = 2 ^ (52 + 1) := by rw [← Nat.pow_add, hsum']

/-- Whole numbers of 53 bits before they are packed. -/
theorem atLeast_round (hpos : 0 < m) (h : m < 2 ^ 53) :
    AtLeast (-52) (round .binary64 s m 0) := by
  obtain ⟨k, hk⟩ : ∃ k, k = 52 - m.log2 := ⟨_, rfl⟩
  have hlog := log2_shiftLeft hpos h hk
  rw [round_eq s h hk]
  exact atLeast_roundWithAccuracy .exact hlog.ge (by omega) (by decide)

theorem atLeast_toFloat {n : UInt64} (h : n.toNat < 2 ^ 53) : AtLeast (-52) (exact n.toFloat) := by
  have hnormal : AtLeast (-52) (UnpackedFloat.normalize .binary64 n.toNat 0 .positive) := by
    rw [normalize_natCast]
    split_ifs with hzero
    · trivial
    · exact atLeast_round (Nat.pos_of_ne_zero hzero) h
  exact atLeast_unpack_pack hnormal (by decide)

/-- The product with one. -/
theorem atLeast_mul_one (h : AtLeast (-52) (exact x)) : AtLeast (-52)
    (UnpackedFloat.mul .binary64 (exact x) (.finite .positive (2 ^ 52) (-52) (by decide))) := by
  cases hx : exact x with
  | finite s m e hm =>
    obtain ⟨hlog, he⟩ : m.log2 = 52 ∧ -52 ≤ e := by rwa [hx] at h
    have hproduct : (m * 2 ^ 52).log2 = 104 := by
      have hbits := (Nat.log2_eq_iff hm.ne').1 hlog
      rw [Nat.log2_eq_iff (by positivity)]
      omega
    rw [UnpackedFloat.mul]
    exact atLeast_roundWithAccuracy .exact (by omega) (by omega) (by decide)
  | _ => trivial

theorem atLeast_ofNat {n : Nat} (h : n < 2 ^ 53) : AtLeast (-52) (exact (Float.ofNat n)) := by
  have hword : n.toUInt64.toNat < 2 ^ 53 := (toNat_toUInt64 h).trans_lt h
  rw [exact_ofNat h]
  exact atLeast_unpack_pack (atLeast_mul_one (atLeast_toFloat hword)) (by decide)

theorem atLeast_withSign (h : AtLeast bound (exact x)) (hmin : -1074 ≤ bound) :
    AtLeast bound (exact (withSign s x)) := by
  cases s with
  | negative => exact atLeast_unpack_pack h.neg hmin
  | positive => exact h

/-- A whole number is a zero or at least one. -/
theorem atLeast_roundAway (x : Float) : AtLeast (-52) (exact (roundAway x)) := by
  cases hx : exact x with
  | finite s m e hm =>
    simp only [roundAway, hx]
    split_ifs with he
    · rw [hx]
      exact ⟨log2_mantissa hx (by omega), by omega⟩
    · have hm' : m < 2 ^ 53 := mantissa_lt hx
      refine atLeast_withSign (atLeast_ofNat ?_) (by decide)
      have hunit : 2 ≤ Nat.pow 2 (-e).toNat :=
        Nat.le_self_pow (by omega) 2
      rw [Nat.div_lt_iff_lt_mul (by omega)]
      omega
  | _ =>
    simp only [roundAway, hx]
    trivial

/-! ## Hundredths -/

/-- A hundredth has an exponent that is smaller by seven at most. -/
theorem atLeast_div_hundred (h : AtLeast (-52) (exact x)) : AtLeast (-59) (exact (x / 100)) := by
  have hhundred : exact 100 = .finite .positive (100 * 2 ^ 46) (-46) (by decide) := rfl
  have hquotient : AtLeast (-59) (UnpackedFloat.div .binary64 (exact x)
      (.finite .positive (100 * 2 ^ 46) (-46) (by decide))) := by
    cases hx : exact x with
    | finite s m e hm =>
      obtain ⟨hlog, he⟩ : m.log2 = 52 ∧ -52 ≤ e := by rwa [hx] at h
      have hcore : divCore .binary64 m e (100 * 2 ^ 46) (-46) =
          ((m <<< 53) / (100 * 2 ^ 46), e - 7,
            accuracyOfFraction ((m <<< 53) % (100 * 2 ^ 46)) (100 * 2 ^ 46)) := by
        have htarget : min (e - -46) (Format.binary64.targetExponent
            (totalExponent m e - totalExponent (100 * 2 ^ 46) (-46))) = e - 7 := by
          have hlog' : (100 * 2 ^ 46).log2 = 52 := by decide
          simp only [Format.targetExponent, totalExponent, Format.mantissaBits, Format.minExponent,
            hlog, hlog']
          norm_num
          omega
        have hshift : (e - -46 - (e - 7)).toNat = 53 := by omega
        rw [divCore, htarget, hshift]
      have hbits : 52 ≤ ((m <<< 53) / (100 * 2 ^ 46)).log2 := by
        have hlow := ((Nat.log2_eq_iff hm.ne').1 hlog).1
        rw [Nat.shiftLeft_eq, Nat.le_log2]
        · rw [Nat.le_div_iff_mul_le (by decide)]
          omega
        · omega
      rw [UnpackedFloat.div, hcore]
      exact atLeast_roundWithAccuracy _ hbits (by omega) (by decide)
    | infinity | notANumber | zero => trivial
  rw [← hhundred] at hquotient
  exact atLeast_unpack_pack hquotient (by decide)

theorem atLeast_roundHundredths (x : Float) : AtLeast (-59) (exact (roundHundredths x)) :=
  atLeast_div_hundred (atLeast_roundAway _)

/-- So there is at least one hundredth in such a number. -/
theorem scaledEven_pos (hlog : m.log2 = 52) (he : -59 ≤ e) : 0 < scaledEven m e 2 := by
  have hm : m ≠ 0 := by
    rintro rfl
    exact absurd hlog (by decide)
  have hlow : 2 ^ 52 ≤ m := ((Nat.log2_eq_iff hm).1 hlog).1
  have hhundred : Nat.pow 10 2 = 100 := rfl
  rw [scaledEven, hhundred]
  split_ifs with hnonneg
  · have hunit : 0 < Nat.pow 2 e.toNat := Nat.pow_pos (by decide)
    positivity
  · obtain ⟨unit, hunit⟩ : ∃ unit, unit = Nat.pow 2 (-e).toNat := ⟨_, rfl⟩
    have hsmall : unit ≤ 2 ^ 59 := hunit ▸ Nat.pow_le_pow_right (by decide) (by omega)
    rw [← hunit, quotientEven]
    -- Either there is a whole hundredth, or what there is of one is more than a half.
    by_cases hwhole : unit ≤ m * 100
    · have hpos : 0 < m * 100 / unit :=
        Nat.div_pos hwhole (hunit ▸ Nat.pow_pos (by decide))
      split_ifs <;> omega
    · rw [Nat.div_eq_of_lt (by omega), Nat.mod_eq_of_lt (by omega)]
      split_ifs <;> omega

end Artboard.Number

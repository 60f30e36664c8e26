import Artboard.Number.Exact
import Mathlib

/-!
# Finite doubles

A number whose exponent is at most 971 stays finite when it is packed into a double
(`atMost_unpack_pack`). Rounding to 53 bits raises the exponent only a little above what the format
asks for (`atMost_roundWithAccuracy`). So the negation of a finite double is finite
(`isFinite_neg`), and so is the double nearest to a whole number of 64 bits (`isFinite_ofInt`).
What is not finite stays so in a difference (`isFinite_of_sub`).
-/

namespace Artboard.Number

open Float.Model (UnpackedFloat Format totalExponent)
open Float.Model.UnpackedFloat

/-! ## Rounded numbers -/

/-- The number is zero, or finite with an exponent of at most `bound`. -/
def AtMost (bound : Int) : UnpackedFloat → Prop
  | .zero _ => True
  | .finite _ _ e _ => e ≤ bound
  | _ => False

variable {bound : Int} {m k : Nat} {e t : Int}

theorem mantissa_shiftRight (em : ExtendedMantissa) (k : Nat) :
    (em >>> k).mantissa = em.mantissa / 2 ^ k := by
  induction k generalizing em with
  | zero => simp [HShiftRight.hShiftRight, Nat.repeat]
  | succ k ih =>
    change (em >>> k).mantissa / 2 = _
    rw [ih, Nat.div_div_eq_div_mul, Nat.pow_succ]

theorem roundedMantissa_le (em : ExtendedMantissa) : em.roundedMantissa ≤ em.mantissa + 1 := by
  obtain ⟨m, roundBit, stickyBit⟩ := em
  cases roundBit <;> cases stickyBit <;>
    simp [ExtendedMantissa.roundedMantissa, ExtendedMantissa.accuracy,
      Accuracy.roundToNearestEven]
  omega

/-- The exponent that the format has for a number. -/
theorem targetExponent_eq (m : Nat) (e : Int) :
    Format.binary64.targetExponent (totalExponent m e) = max (m.log2 + e - 52) (-1074) := by
  simp only [Format.targetExponent, totalExponent, Format.mantissaBits, Format.minExponent]
  norm_num
  omega

theorem log2_le_of_lt (h : m < 2 ^ (k + 1)) : m.log2 ≤ k := by
  by_cases hm : m = 0
  · simp [hm]
  · exact Nat.le_of_lt_succ ((Nat.log2_lt hm).2 h)

/-- Where bits are dropped, 53 are left. -/
theorem div_two_pow_lt (h : m.log2 ≤ 52 + k) : m / 2 ^ k < 2 ^ 53 := by
  rw [Nat.div_lt_iff_lt_mul (by positivity), ← Nat.pow_add]
  refine lt_of_lt_of_le Nat.lt_log2_self (Nat.pow_le_pow_right (by decide) ?_)
  omega

theorem shiftToTargetExponent_eq (m : Nat) (e : Int) (accuracy : Accuracy) :
    shiftToTargetExponent .binary64 m e accuracy =
      (ExtendedMantissa.ofMantissaAndAccuracy m accuracy >>>
        (max (m.log2 + e - 52) (-1074) - e).toNat, max e (max (m.log2 + e - 52) (-1074))) := by
  rw [shiftToTargetExponent, shiftToExponent, targetExponent_eq]
  refine Prod.ext rfl ?_
  dsimp only
  omega

/-- Rounding shifts to the target exponent twice, since the rounded mantissa may have a bit more. -/
theorem roundWithAccuracy_eq (s : Sign) (m : Nat) (e : Int) (accuracy : Accuracy)
    {first last : ExtendedMantissa × Int}
    (hfirst : first = shiftToTargetExponent .binary64 m e accuracy)
    (hlast : last = shiftToTargetExponent .binary64 first.1.roundedMantissa first.2 .exact) :
    roundWithAccuracy .binary64 s m e accuracy =
      if h : last.1.mantissa = 0 then .zero s
      else .finite s last.1.mantissa last.2 (Nat.pos_of_ne_zero h) := by
  rw [hlast, hfirst]
  rfl

/-- Rounding adds at most one to the exponent that the format has for a number. -/
theorem atMost_roundWithAccuracy (s : Sign) (m : Nat) (e : Int) :
    AtMost (max e (max (m.log2 + e - 52) (-1074) + 1))
      (roundWithAccuracy .binary64 s m e .exact) := by
  obtain ⟨t, ht⟩ : ∃ t : Int, t = max (m.log2 + e - 52) (-1074) := ⟨_, rfl⟩
  obtain ⟨first, hfirst⟩ : ∃ first, first = shiftToTargetExponent .binary64 m e .exact := ⟨_, rfl⟩
  obtain ⟨r, hr⟩ : ∃ r, r = first.1.roundedMantissa := ⟨_, rfl⟩
  obtain ⟨last, hlast⟩ : ∃ last, last = shiftToTargetExponent .binary64 r first.2 .exact :=
    ⟨_, rfl⟩
  rw [roundWithAccuracy_eq s m e .exact hfirst (hr ▸ hlast), ← ht]
  rw [shiftToTargetExponent_eq, ← ht] at hfirst
  -- Rounding carries into a new bit at most, so the second shift is by one place at most.
  have hexponent : last.2 ≤ max e (t + 1) := by
    rw [hlast, shiftToTargetExponent_eq, hfirst]
    dsimp only
    by_cases he : t ≤ e
    · have hnone : (t - e).toNat = 0 := by omega
      have hsame : r = m := by
        rw [hr, hfirst, hnone]
        rfl
      rw [hsame]
      omega
    · have hdropped : m / 2 ^ (t - e).toNat < 2 ^ 53 := div_two_pow_lt (by omega)
      have hbound := roundedMantissa_le first.1
      rw [← hr, hfirst, mantissa_shiftRight] at hbound
      have hlog : r.log2 ≤ 53 :=
        log2_le_of_lt (lt_of_le_of_lt (hbound.trans hdropped) (by decide))
      omega
  split
  · trivial
  · exact hexponent

/-! ## Packed numbers -/

variable {f : UnpackedFloat} {b : BitVec Format.binary64.numBits} {x : Float} {s : Sign}

theorem AtMost.isFinite (h : AtMost bound f) : f.isFinite = true := by
  cases f <;> first | rfl | exact h.elim

theorem AtMost.mono {bound' : Int} (h : AtMost bound f) (hle : bound ≤ bound') :
    AtMost bound' f := by
  cases f with
  | finite s m e hm => exact Int.le_trans h hle
  | _ => exact h

theorem AtMost.neg (h : AtMost bound f) : AtMost bound f.neg := by cases f <;> exact h

theorem atMost_unpack {exponent : BitVec 11} (hexponent : unpackExponent b = exponent)
    (h : exponent.toNat < 2047) :
    AtMost (max (exponent.toNat - 1075) (-1074)) (unpack .binary64 b) := by
  have hne : unpackExponent b ≠ -1#_ := by
    rw [hexponent]
    rintro rfl
    exact absurd h (by decide)
  rw [unpack]
  dsimp only
  rw [if_neg hne, hexponent]
  split_ifs with hzero
  · trivial
  · show _ ≤ _
    simp only [hzero, Format.exponentBias]
    decide
  · show _ ≤ _
    simp only [Format.exponentBias]
    omega

theorem pack_finite (s : Sign) {m : Nat} (hm : 0 < m) {biased : Nat}
    (hbiased : biased = (e + 1023 + 52).toNat) :
    pack .binary64 (.finite s m e hm) =
      if 2 ^ 11 ≤ biased + 1 then packedInfinity .binary64 s
      else if m.log2 + 1 = Format.binary64.mantissaBits then
        packComponents .binary64 s (BitVec.ofNat 11 biased) (BitVec.ofNat 52 m)
      else packComponents .binary64 s 0 (BitVec.ofNat 52 m) := by
  rw [hbiased]
  rfl

theorem atMost_unpack_pack (h : AtMost bound f) (hbound : bound ≤ 971) :
    AtMost (max bound (-1074)) (unpack .binary64 (pack .binary64 f)) := by
  cases f with
  | zero s =>
    refine (atMost_unpack unpackExponent_packComponents ?_).mono ?_
    · decide
    · simp
  | finite s m e hm =>
    have he : e ≤ bound := h
    obtain ⟨biased, hbiased⟩ : ∃ biased, biased = (e + 1023 + 52).toNat := ⟨_, rfl⟩
    have hsmall : biased < 2047 := by omega
    have hexponent : (BitVec.ofNat 11 biased).toNat = biased := by
      rw [BitVec.toNat_ofNat]
      omega
    rw [pack_finite s hm hbiased, if_neg (by omega)]
    split_ifs
    · refine (atMost_unpack unpackExponent_packComponents ?_).mono ?_
      · omega
      · omega
    · refine (atMost_unpack unpackExponent_packComponents ?_).mono ?_
      · decide
      · simp
  | _ => exact h.elim

theorem mantissa_lt {m : Nat} {e : Int} {hm : 0 < m}
    (h : unpack .binary64 b = .finite s m e hm) : m < 2 ^ 53 := by
  rw [unpack] at h
  dsimp only at h
  split_ifs at h
  · cases h
    exact (unpackMantissa b).isLt.trans (by decide)
  · cases h
    exact (1#1 ++ unpackMantissa b).isLt

theorem atMost_exact (h : x.isFinite = true) : AtMost 971 (exact x) := by
  have hexponent : @unpackExponent .binary64 x.toModel.toBits.toBitVec ≠ -1#_ := by
    intro hexponent
    have hfinite : (exact x).isFinite = true := h
    rw [exact, Float.Model.unpack, unpack] at hfinite
    dsimp only at hfinite
    rw [if_pos hexponent] at hfinite
    split_ifs at hfinite <;> cases hfinite
  have hsmall : (@unpackExponent .binary64 x.toModel.toBits.toBitVec).toNat < 2047 := by
    have hlt : (@unpackExponent .binary64 x.toModel.toBits.toBitVec).toNat < 2 ^ 11 :=
      (@unpackExponent .binary64 x.toModel.toBits.toBitVec).isLt
    have hne : (@unpackExponent .binary64 x.toModel.toBits.toBitVec).toNat ≠ 2047 := fun heq =>
      hexponent (BitVec.eq_of_toNat_eq heq)
    omega
  refine (atMost_unpack rfl hsmall).mono ?_
  omega

/-! ## Doubles -/

theorem isFinite_neg (h : x.isFinite = true) : (-x).isFinite = true :=
  (atMost_unpack_pack (atMost_exact h).neg (by decide)).isFinite

/-- A whole number of 53 bits at most is shifted up to 53 bits. -/
theorem round_eq (s : Sign) {m : Nat} (h : m < 2 ^ 53) {k : Nat} (hk : k = 52 - m.log2) :
    round .binary64 s m 0 = roundWithAccuracy .binary64 s (m <<< k) (0 - k) .exact := by
  have hlog : m.log2 ≤ 52 := log2_le_of_lt h
  have htarget : (0 - max ((m.log2 : Int) + 0 - 52) (-1074)).toNat = k := by omega
  rw [← htarget, ← targetExponent_eq]
  rfl

/-- Whole numbers of 53 bits before they are packed. -/
theorem atMost_round {m : Nat} (h : m < 2 ^ 53) : AtMost 53 (round .binary64 s m 0) := by
  obtain ⟨k, hk⟩ : ∃ k, k = 52 - m.log2 := ⟨_, rfl⟩
  have hlog : (m <<< k).log2 ≤ 104 := by
    refine log2_le_of_lt ?_
    calc m <<< k = m * 2 ^ k := Nat.shiftLeft_eq m k
      _ ≤ m * 2 ^ 52 := Nat.mul_le_mul_left m (Nat.pow_le_pow_right (by decide) (by omega))
      _ < 2 ^ 53 * 2 ^ 52 := Nat.mul_lt_mul_of_pos_right h (by decide)
  rw [round_eq s h hk]
  refine (atMost_roundWithAccuracy s (m <<< k) (0 - k)).mono ?_
  omega

theorem normalize_natCast (n : Nat) :
    UnpackedFloat.normalize .binary64 n 0 .positive =
      if n = 0 then .zero .positive else round .binary64 .positive n 0 := by
  rw [UnpackedFloat.normalize]
  split
  case h_1 hnegative => exact absurd (compare_lt_iff_lt.1 hnegative) (by omega)
  case h_2 hzero =>
    rw [if_pos (by simpa using hzero)]
  case h_3 hpositive =>
    have hpos : 0 < (n : Int) := compare_gt_iff_gt.1 hpositive
    rw [if_neg (by omega), Int.toNat_natCast]

theorem atMost_toFloat {n : UInt64} (h : n.toNat < 2 ^ 53) : AtMost 53 (exact n.toFloat) := by
  have hnormal : AtMost 53 (UnpackedFloat.normalize .binary64 n.toNat 0 .positive) := by
    rw [normalize_natCast]
    split_ifs
    · trivial
    · exact atMost_round h
  exact atMost_unpack_pack hnormal (by decide)

/-- The product with one. -/
theorem atMost_mul_one (h : AtMost 53 (exact x)) : AtMost 971
    (UnpackedFloat.mul .binary64 (exact x) (.finite .positive (2 ^ 52) (-52) (by decide))) := by
  cases hx : exact x with
  | zero s => trivial
  | finite s m e hm =>
    have he : e ≤ 53 := by rwa [hx] at h
    have hlog : (m * 2 ^ 52).log2 ≤ 104 :=
      log2_le_of_lt (Nat.mul_lt_mul_of_pos_right (mantissa_lt hx) (by decide))
    rw [UnpackedFloat.mul]
    refine (atMost_roundWithAccuracy _ _ _).mono ?_
    omega
  | _ =>
    rw [hx] at h
    exact h.elim

theorem toNat_toUInt64 {n : Nat} (h : n < 2 ^ 53) : n.toUInt64.toNat = n := by
  rw [Nat.toUInt64, UInt64.toNat_ofNat']
  omega

/-- A whole number of 53 bits at most is that of a word, times one. -/
theorem exact_ofNat {n : Nat} (h : n < 2 ^ 53) :
    exact (Float.ofNat n) = unpack .binary64 (pack .binary64 (UnpackedFloat.mul .binary64
      (exact n.toUInt64.toFloat) (.finite .positive (2 ^ 52) (-52) (by decide)))) := by
  have hscientific : Float.ofNat n = Float.ofScientific n false 0 := rfl
  have hone : exact Float.exactlyRepresentablePowersOfTen[0] =
      .finite .positive (2 ^ 52) (-52) (by decide) := rfl
  rw [hscientific, Float.ofScientific, dif_pos ⟨h, by decide⟩, if_neg Bool.false_ne_true, ← hone]
  rfl

theorem isFinite_ofNat {n : Nat} (h : n ≤ 2 ^ 64) : (Float.ofNat n).isFinite = true := by
  by_cases hfast : n < 2 ^ 53
  · show (exact (Float.ofNat n)).isFinite = true
    have hword : n.toUInt64.toNat < 2 ^ 53 := (toNat_toUInt64 hfast).trans_lt hfast
    rw [exact_ofNat hfast]
    exact (atMost_unpack_pack (atMost_mul_one (atMost_toFloat hword)) (by decide)).isFinite
  · have hscientific : Float.ofNat n = Float.ofScientific n false 0 := rfl
    rw [hscientific, Float.ofScientific, dif_neg (fun hn => hfast hn.1)]
    obtain ⟨m, hm⟩ : ∃ m, m = n <<< 53 * 1 := ⟨_, rfl⟩
    have hmul : UnpackedFloat.ofScientific .binary64 n 0 =
        roundWithAccuracy .binary64 .positive m (-53) .exact := by
      have hsmall : ¬(0 : Int) < -(2 ^ 11 + (n.log2 : Int)) := by omega
      rw [UnpackedFloat.ofScientific, dif_neg (by omega), if_neg (by decide), if_neg hsmall,
        if_pos (by decide), hm]
      rfl
    have hlog : m.log2 ≤ 118 := by
      rw [hm, Nat.mul_one, Nat.shiftLeft_eq]
      exact log2_le_of_lt (lt_of_le_of_lt (Nat.mul_le_mul_right _ h) (by decide))
    have hrounded : AtMost 971 (UnpackedFloat.ofScientific .binary64 n 0) := by
      rw [hmul]
      exact (atMost_roundWithAccuracy _ m _).mono (by omega)
    exact (atMost_unpack_pack hrounded (by decide)).isFinite

theorem isFinite_ofInt {n : Int} (h : n.natAbs ≤ 2 ^ 64) : (Float.ofInt n).isFinite = true := by
  cases n with
  | ofNat n => exact isFinite_ofNat h
  | negSucc n => exact isFinite_neg (isFinite_ofNat h)

/-! ## Differences -/

theorem isFinite_pack_eq_false (h : f.isFinite = false) :
    (Float.Model.pack f).unpack.isFinite = false := by
  cases f with
  | notANumber => decide
  | infinity s => cases s <;> decide
  | zero | finite => cases h

/-- A difference is finite only if both numbers are. -/
theorem isFinite_of_sub {y : Float} (h : (x - y).isFinite = true) :
    x.isFinite = true ∧ y.isFinite = true := by
  change ((Float.Model.pack (UnpackedFloat.sub .binary64 (exact x) (exact y))).unpack).isFinite =
    true at h
  show (exact x).isFinite = true ∧ (exact y).isFinite = true
  by_contra hnot
  have hsub : (UnpackedFloat.sub .binary64 (exact x) (exact y)).isFinite = false := by
    cases hx : exact x with
    | notANumber => rfl
    | infinity s =>
      cases hy : exact y with
      | infinity t => cases s <;> cases t <;> rfl
      | notANumber | zero | finite => rfl
    | zero s | finite s =>
      cases hy : exact y with
      | notANumber | infinity t => rfl
      | zero | finite => exact absurd (by rw [hx, hy]; exact ⟨rfl, rfl⟩) hnot
  rw [isFinite_pack_eq_false hsub] at h
  cases h

end Artboard.Number

import Artboard.Proofs.Number.Hundredths
import Artboard.Proofs.Number.Order
import Mathlib

/-!
# Canonical decimals

The text of a number is a canonical decimal (`short_canonical`): a sign at most, digits without a
superfluous zero in front, and behind a point one or two digits that do not end in a zero. There is
no point without digits behind it and no negative zero. The text denotes the number that two
decimals of the rounded number denote, as `denoted?` reads both of them.

Zeros are removed at the end of a text that has a point in it, so no zero before the point is
reached, and those behind it do not change the number (`Decimal.value_dropZeros`).
-/

namespace Artboard.Number

open Float.Model.UnpackedFloat (Sign)

variable {s t : Sign} {n r : Nat} {x y : Float}

/-! ## Digits -/

/-- Only zero is written with a zero in front. -/
theorem head?_digits_ne (h : n ≠ 0) : (digits n).head? ≠ some '0' := by
  rw [digits]
  induction n using Nat.base_induction 10 (by decide) with
  | single n hn =>
    rw [Nat.toDigits_of_lt_base hn]
    simpa using h
  | digit n k hk hn ih =>
    rw [← Nat.toDigits_append_toDigits (by decide) hn hk,
      List.head?_append_of_ne_nil _ Nat.toDigits_ne_nil]
    exact ih hn.ne'

theorem paddedDigits_two (h : r < 100) :
    paddedDigits 2 r = [Nat.digitChar (r / 10), Nat.digitChar (r % 10)] := by
  by_cases hr : r < 10
  · have hdigits : digits r = [Nat.digitChar r] := Nat.toDigits_of_lt_base hr
    simp [paddedDigits, hdigits, Nat.div_eq_of_lt hr, Nat.mod_eq_of_lt hr]
  · have hdigits : digits r = [Nat.digitChar (r / 10), Nat.digitChar (r % 10)] := by
      rw [digits, Nat.toDigits_of_base_le (by decide) (by omega),
        Nat.toDigits_of_lt_base (by omega)]
      rfl
    simp [paddedDigits, hdigits]

/-- The number with the sign `s`. -/
def signed (s : Sign) (q : ℚ) : ℚ :=
  match s with
  | .negative => -q
  | .positive => q

/-- Only the sign of a zero is lost. -/
theorem eq_of_signed_eq {m n : Nat} (h : signed s (m / 100) = signed t (n / 100)) :
    (m = 0 ∧ n = 0) ∨ (s = t ∧ m = n) := by
  have hsame (h : (m : ℚ) / 100 = n / 100) : m = n := by
    field_simp at h
    exact_mod_cast h
  have hopposite (h : (m : ℚ) / 100 = -(n / 100)) : m = 0 ∧ n = 0 := by
    field_simp at h
    have hsum : (m : ℚ) + n = 0 := by linarith
    norm_cast at hsum
    omega
  cases s <;> cases t <;> simp only [signed] at h
  · exact .inr ⟨rfl, hsame (neg_inj.1 h)⟩
  · exact .inl (hopposite (neg_eq_iff_eq_neg.1 h))
  · exact .inl (hopposite h)
  · exact .inr ⟨rfl, hsame h⟩

/-! ## Decimals -/

/-- A decimal by its parts: the sign, the digits before the point and those behind it. -/
structure Decimal where
  sign : Sign
  whole : List Char
  fraction : List Char

namespace Decimal

variable {d : Decimal}

/-- The decimal as it is written, with a point only if there are digits behind it. -/
def chars (d : Decimal) : List Char :=
  signText d.sign ++ (d.whole ++ if d.fraction = [] then [] else '.' :: d.fraction)

/-- The number that the digits stand for. -/
def value (d : Decimal) : ℚ :=
  signed d.sign (Nat.ofDigitChars 10 (d.whole ++ d.fraction) 0 / 10 ^ d.fraction.length)

/-- There is nothing but digits, and there are some before the point. -/
structure IsNumeral (d : Decimal) : Prop where
  whole_ne_nil : d.whole ≠ []
  isDigit : ∀ c ∈ d.whole ++ d.fraction, c.isDigit = true

instance : Decidable d.IsNumeral :=
  decidable_of_iff (d.whole ≠ [] ∧ ∀ c ∈ d.whole ++ d.fraction, c.isDigit = true)
    ⟨fun h => ⟨h.1, h.2⟩, fun h => ⟨h.1, h.2⟩⟩

/-- The decimal has no superfluous zeros, at most two digits behind the point, and no sign if it is
a zero. -/
structure IsCanonical (d : Decimal) : Prop extends d.IsNumeral where
  leading : d.whole.head? = some '0' → d.whole = ['0']
  length_le : d.fraction.length ≤ 2
  trailing : d.fraction.getLast? ≠ some '0'
  zero_positive : d.whole = ['0'] → d.fraction = [] → d.sign = .positive

/-! ## Reading -/

/-- The parts of a text behind its sign. -/
def ofUnsigned (sign : Sign) (cs : List Char) : Decimal :=
  ⟨sign, cs.takeWhile (· != '.'), (cs.dropWhile (· != '.')).drop 1⟩

/-- The parts of a text. -/
def ofChars : List Char → Decimal
  | '-' :: cs => ofUnsigned .negative cs
  | cs => ofUnsigned .positive cs

/-- What is no digit does not stand among the digits. -/
theorem IsNumeral.ne_of_mem {c mark : Char} (h : d.IsNumeral) (hc : c ∈ d.whole ++ d.fraction)
    (hmark : mark.isDigit = false) : c ≠ mark := by
  rintro rfl
  rw [h.isDigit c hc] at hmark
  cases hmark

/-- A written decimal is read as its parts. -/
theorem ofChars_chars (h : d.IsNumeral) : ofChars d.chars = d := by
  obtain ⟨sign, whole, fraction⟩ := d
  have hpoint : ∀ c ∈ whole, (c != '.') = true := fun c hc =>
    bne_iff_ne.2 (h.ne_of_mem (List.mem_append_left _ hc) rfl)
  have hunsigned : ofUnsigned sign (whole ++ if fraction = [] then [] else '.' :: fraction) =
      ⟨sign, whole, fraction⟩ := by
    rw [ofUnsigned, List.takeWhile_append_of_pos hpoint, List.dropWhile_append_of_pos hpoint]
    split_ifs with hempty <;> simp [hempty]
  cases sign with
  | negative => exact hunsigned
  | positive =>
    refine Eq.trans ?_ hunsigned
    show ofChars (whole ++ if fraction = [] then [] else '.' :: fraction) = _
    unfold ofChars
    split
    case h_1 cs hminus =>
      -- A minus sign in front would be a digit of the whole part.
      have hmem : '-' ∈ whole := by
        obtain ⟨c, rest, rfl⟩ := List.exists_cons_of_ne_nil h.whole_ne_nil
        rw [List.cons_append] at hminus
        exact (List.cons.inj hminus).1 ▸ List.mem_cons_self
      exact absurd rfl (h.ne_of_mem (List.mem_append_left _ hmem) rfl)
    case h_2 => rfl

/-! ## Trailing zeros -/

/-- The decimal without zeros at its end. -/
def dropZeros (d : Decimal) : Decimal := { d with fraction := d.fraction.rdropWhile (· == '0') }

/-- Zeros behind the point do not change the number. -/
theorem value_dropZeros (d : Decimal) : d.dropZeros.value = d.value := by
  obtain ⟨zeros, hzeros⟩ : ∃ zeros, zeros = d.fraction.rtakeWhile (· == '0') := ⟨_, rfl⟩
  obtain ⟨kept, hkept⟩ : ∃ kept, kept = d.fraction.rdropWhile (· == '0') := ⟨_, rfl⟩
  have hfraction : d.fraction = kept ++ List.replicate zeros.length '0' := by
    have hall : zeros = List.replicate zeros.length '0' := by
      refine List.eq_replicate_of_mem fun c hc => ?_
      rw [hzeros] at hc
      have hzero := List.mem_rtakeWhile_imp hc
      exact beq_iff_eq.1 hzero
    rw [← hall, hkept, hzeros, List.rdropWhile_append_rtakeWhile]
  have hnumber : Nat.ofDigitChars 10 (d.whole ++ d.fraction) 0 =
      10 ^ zeros.length * Nat.ofDigitChars 10 (d.whole ++ kept) 0 := by
    rw [hfraction, ← List.append_assoc, Nat.ofDigitChars_append,
      Nat.ofDigitChars_replicate_zero]
  have hlength : d.fraction.length = kept.length + zeros.length := by
    rw [hfraction, List.length_append, List.length_replicate]
  rw [value, value, dropZeros, hnumber, hlength, ← hkept]
  congr 1
  push_cast
  rw [Nat.add_comm, pow_add, mul_div_mul_left _ _ (by positivity)]

/-- What is removed from a text with a point in it are the zeros behind the point, and the point if
there is nothing else. -/
theorem dropTrailingZeros_chars (h : d.IsNumeral) (hfraction : d.fraction ≠ []) :
    dropTrailingZeros d.chars = d.dropZeros.chars := by
  obtain ⟨kept, hkept⟩ : ∃ kept, kept = d.fraction.rdropWhile (· == '0') := ⟨_, rfl⟩
  have hchars : d.chars = (signText d.sign ++ d.whole) ++ '.' :: d.fraction := by
    rw [chars, if_neg hfraction, List.append_assoc]
  have hdrop : d.chars.reverse.dropWhile (· == '0') =
      kept.reverse ++ '.' :: (signText d.sign ++ d.whole).reverse := by
    have hreverse : kept.reverse = d.fraction.reverse.dropWhile (· == '0') := by
      rw [hkept, List.rdropWhile, List.reverse_reverse]
    rw [hchars, List.reverse_append, List.reverse_cons, List.append_assoc, List.dropWhile_append,
      ← hreverse, List.singleton_append]
    split_ifs with hempty
    · rw [List.isEmpty_iff.1 hempty]
      rfl
    · rfl
  have hsubset : kept ⊆ d.fraction := hkept ▸ (List.rdropWhile_prefix _ _).subset
  rw [dropTrailingZeros, hdrop, Decimal.dropZeros, ← hkept, chars]
  obtain rfl | ⟨front, c, rfl⟩ := kept.eq_nil_or_concat'
  · simp
  · have hmem : c ∈ d.fraction := hsubset (List.mem_append_right _ (List.mem_singleton_self c))
    have hc : c ≠ '.' := h.ne_of_mem (List.mem_append_right _ hmem) rfl
    simp [hc]

theorem IsNumeral.dropZeros (h : d.IsNumeral) : d.dropZeros.IsNumeral where
  whole_ne_nil := h.whole_ne_nil
  isDigit c hc := by
    refine h.isDigit c ?_
    rw [List.mem_append] at hc ⊢
    exact hc.imp_right fun hc => (List.rdropWhile_prefix _ _).subset hc

end Decimal

/-- The number that a text denotes: digits with a point among them or without, behind a minus sign
or not. -/
def denoted? (text : String) : Option ℚ :=
  let d := Decimal.ofChars text.toList
  if d.IsNumeral then some d.value else none

theorem denoted?_eq {text : String} {d : Decimal} (h : d.IsNumeral)
    (htext : text.toList = d.chars) : denoted? text = some d.value := by
  rw [denoted?, htext, Decimal.ofChars_chars h]
  exact if_pos h

/-! ## Hundredths -/

namespace Decimal

/-- So many hundredths with two digits behind the point. -/
def hundredths (s : Sign) (n : Nat) : Decimal := ⟨s, digits (n / 100), paddedDigits 2 (n % 100)⟩

/-- So many hundredths without superfluous zeros. -/
def trimmed (s : Sign) (n : Nat) : Decimal :=
  if n = 0 then ⟨.positive, ['0'], []⟩ else (hundredths s n).dropZeros

theorem paddedDigits_hundredths (n : Nat) :
    paddedDigits 2 (n % 100) = [Nat.digitChar (n % 100 / 10), Nat.digitChar (n % 100 % 10)] :=
  paddedDigits_two (Nat.mod_lt n (by decide))

theorem length_hundredths (n : Nat) : (paddedDigits 2 (n % 100)).length = 2 := by
  rw [paddedDigits_hundredths]
  rfl

theorem isNumeral_hundredths (s : Sign) (n : Nat) : (hundredths s n).IsNumeral where
  whole_ne_nil := Nat.toDigits_ne_nil
  isDigit := by
    rw [hundredths, paddedDigits_hundredths, List.forall_mem_append]
    refine ⟨fun c hc => Nat.isDigit_of_mem_toDigits (by decide) (by decide) hc, ?_⟩
    simp only [List.forall_mem_cons, Nat.isDigit_digitChar, decide_eq_true_eq]
    exact ⟨by omega, by omega, List.forall_mem_nil _⟩

theorem fraction_hundredths_ne_nil (s : Sign) (n : Nat) : (hundredths s n).fraction ≠ [] := by
  rw [hundredths, paddedDigits_hundredths]
  exact List.cons_ne_nil _ _

theorem chars_hundredths (s : Sign) (n : Nat) :
    (hundredths s n).chars = signText s ++ fixedDigits 2 n := by
  rw [chars, if_neg (fraction_hundredths_ne_nil s n), fixedDigits, if_neg (by decide)]
  rfl

theorem value_hundredths (s : Sign) (n : Nat) : (hundredths s n).value = signed s (n / 100) := by
  have hnumber : Nat.ofDigitChars 10 (digits (n / 100) ++ paddedDigits 2 (n % 100)) 0 = n := by
    rw [digits, Nat.ofDigitChars_append, Nat.ofDigitChars_ten_toDigits, paddedDigits_hundredths,
      Nat.ofDigitChars_cons_digitChar_of_lt_ten (by omega),
      Nat.ofDigitChars_cons_digitChar_of_lt_ten (by omega), Nat.ofDigitChars_nil]
    omega
  rw [value, hundredths, hnumber, length_hundredths]
  norm_num

theorem value_trimmed (s : Sign) (n : Nat) : (trimmed s n).value = signed s (n / 100) := by
  rw [trimmed]
  split_ifs with hn
  · have hnumber : Nat.ofDigitChars 10 (['0'] ++ []) 0 = 0 := rfl
    rw [value, hnumber, hn]
    cases s <;> simp [signed]
  · rw [value_dropZeros, value_hundredths]

theorem isCanonical_trimmed (s : Sign) (n : Nat) : (trimmed s n).IsCanonical := by
  rw [trimmed]
  split_ifs with hn
  · exact {
      whole_ne_nil := List.cons_ne_nil _ _
      isDigit := List.forall_mem_singleton.2 rfl
      leading := fun _ => rfl
      length_le := Nat.zero_le 2
      trailing := nofun
      zero_positive := fun _ _ => rfl }
  · have hwhole (h : (digits (n / 100)).head? = some '0') : n / 100 = 0 := by
      by_contra hne
      exact head?_digits_ne hne h
    exact {
      toIsNumeral := (isNumeral_hundredths s n).dropZeros
      leading := fun h => by
        show digits (n / 100) = ['0']
        rw [hwhole h]
        rfl
      length_le := by
        have hprefix := List.rdropWhile_prefix (· == '0') (paddedDigits 2 (n % 100))
        exact length_hundredths n ▸ hprefix.length_le
      trailing := by
        intro h
        have hne : (hundredths s n).dropZeros.fraction ≠ [] := by
          intro hnil
          rw [hnil] at h
          cases h
        rw [List.getLast?_eq_some_getLast hne, Option.some_inj] at h
        exact List.rdropWhile_last_not _ _ hne (beq_iff_eq.2 h)
      zero_positive := fun h hfraction => by
        have hlow : n / 100 = 0 := hwhole (by rw [show digits (n / 100) = ['0'] from h]; rfl)
        have hall := List.rdropWhile_eq_nil_iff.1 hfraction
        simp only [hundredths, paddedDigits_hundredths, List.forall_mem_cons, beq_iff_eq,
          Nat.digitChar_eq_zero] at hall
        omega }

/-- Hundredths of the same value are written in the same way. -/
theorem trimmed_congr {s t : Sign} {m n : Nat}
    (h : (hundredths s m).value = (hundredths t n).value) : trimmed s m = trimmed t n := by
  rw [value_hundredths, value_hundredths] at h
  obtain ⟨rfl, rfl⟩ | ⟨rfl, rfl⟩ := eq_of_signed_eq h
  · rfl
  · rfl

end Decimal

/-- What is written for a number are hundredths, in two ways. -/
theorem exists_hundredths (h : (roundHundredths x).isFinite = true) :
    ∃ s n, fixedChars 2 (roundHundredths x) = (Decimal.hundredths s n).chars ∧
      shortChars x = (Decimal.trimmed s n).chars := by
  have hzero : exact 0 = .zero .positive := rfl
  have hfinite : (exact (roundHundredths x)).isFinite = true := h
  have hleast := atLeast_roundHundredths x
  cases hx : exact (roundHundredths x) with
  | notANumber | infinity s =>
    rw [hx] at hfinite
    cases hfinite
  | zero s =>
    have heq : (roundHundredths x == 0) = true := by
      rw [beq_iff, hx, hzero]
      rfl
    refine ⟨s, 0, ?_, ?_⟩
    · rw [Decimal.chars_hundredths, fixedChars, hx]
    · rw [shortChars]
      simp only [heq]
      rfl
  | finite s m e hm =>
    rw [hx] at hleast
    have hpos : 0 < scaledEven m e 2 := scaledEven_pos hleast.1 hleast.2
    have hne : (roundHundredths x == 0) = false := by
      rw [Bool.eq_false_iff]
      intro heq
      rw [beq_iff, hx, hzero] at heq
      cases s <;> cases heq
    have hfixed : fixedChars 2 (roundHundredths x) =
        (Decimal.hundredths s (scaledEven m e 2)).chars := by
      rw [Decimal.chars_hundredths, fixedChars, hx]
    refine ⟨s, scaledEven m e 2, hfixed, ?_⟩
    rw [Decimal.trimmed, if_neg hpos.ne', shortChars]
    simp only [hne, hfixed]
    exact Decimal.dropTrailingZeros_chars (Decimal.isNumeral_hundredths _ _)
      (Decimal.fraction_hundredths_ne_nil _ _)

/-- **The text of a number is a canonical decimal,** and denotes what two decimals of the rounded
number denote. So the texts of two numbers are the same iff their two decimals denote the same. -/
theorem short_canonical (hx : (roundHundredths x).isFinite = true)
    (hy : (roundHundredths y).isFinite = true) :
    (∃ d : Decimal, d.IsCanonical ∧ (short x).toList = d.chars) ∧
      (∃ q, denoted? (short x) = some q ∧ denoted? (fixed 2 (roundHundredths x)) = some q) ∧
      (short x = short y ↔
        denoted? (fixed 2 (roundHundredths x)) = denoted? (fixed 2 (roundHundredths y))) := by
  have htext (x : Float) : (short x).toList = shortChars x := String.toList_ofList
  have htwo (x : Float) : (fixed 2 (roundHundredths x)).toList = fixedChars 2 (roundHundredths x) :=
    String.toList_ofList
  obtain ⟨s, m, hfixed, hshort⟩ := exists_hundredths hx
  obtain ⟨t, n, hfixed', hshort'⟩ := exists_hundredths hy
  have hdenoted := denoted?_eq (Decimal.isNumeral_hundredths s m) ((htwo x).trans hfixed)
  have hdenoted' := denoted?_eq (Decimal.isNumeral_hundredths t n) ((htwo y).trans hfixed')
  have hread := denoted?_eq (Decimal.isCanonical_trimmed s m).toIsNumeral ((htext x).trans hshort)
  have hread' := denoted?_eq (Decimal.isCanonical_trimmed t n).toIsNumeral ((htext y).trans hshort')
  rw [Decimal.value_trimmed, ← Decimal.value_hundredths] at hread hread'
  refine ⟨⟨_, Decimal.isCanonical_trimmed s m, (htext x).trans hshort⟩, ⟨_, hread, hdenoted⟩, ?_⟩
  rw [hdenoted, hdenoted', Option.some_inj]
  constructor
  · intro heq
    rw [heq, hread', Option.some_inj] at hread
    exact hread.symm
  · intro hvalue
    rw [short, short, hshort, hshort', Decimal.trimmed_congr hvalue]

/-- The zeros of a hundred stay, and a small negative number is written as zero. -/
theorem short_canonical_hundred :
    (roundHundredths 100).isFinite = true ∧ (roundHundredths (-0.001)).isFinite = true ∧
      ((∃ d : Decimal, d.IsCanonical ∧ (short 100).toList = d.chars) ∧
        (∃ q, denoted? (short 100) = some q ∧ denoted? (fixed 2 (roundHundredths 100)) = some q) ∧
        (short 100 = short (-0.001) ↔
          denoted? (fixed 2 (roundHundredths 100)) =
            denoted? (fixed 2 (roundHundredths (-0.001))))) ∧
      short 100 = "100" ∧ fixed 2 (roundHundredths 100) = "100.00" ∧
      short (-0.001) = "0" ∧ fixed 2 (roundHundredths (-0.001)) = "-0.00" := by
  have hx : (roundHundredths 100).isFinite = true := by decide +kernel
  have hy : (roundHundredths (-0.001)).isFinite = true := by decide +kernel
  exact ⟨hx, hy, short_canonical hx hy, by decide +kernel, by decide +kernel, by decide +kernel,
    by decide +kernel⟩

end Artboard.Number

import Artboard.Color.Basic
import Artboard.Digest.Content
import Mathlib.Data.UInt
import Mathlib.Tactic.ByContra
import Mathlib.Tactic.SplitIfs

/-!
# Bytes that differ at one position

Texts of bytes that differ at exactly one position have different digests (`digest_differs_once`),
however long they are. A round of the digest is undone by the inverse of the prime modulo `2 ^ 32`
and a second exclusive or, so no round brings two words together (`round_bijective`). At the
position where the bytes differ the words come apart (`round_injective`), and they stay apart from
there to the end (`foldl_round_injective`).
-/

namespace Artboard

/-! ## Rounds -/

namespace Fnv

open Text (Bytes)

/-- The inverse of the prime modulo `2 ^ 32`. -/
def inverse : UInt32 := 0x359c449b

theorem prime_mul_inverse : prime * inverse = 1 := by decide

/-- The word before a round. -/
def unround (hash : UInt32) (b : UInt8) : UInt32 := (hash * inverse) ^^^ b.toUInt32

theorem unround_round (hash : UInt32) (b : UInt8) : unround (round hash b) b = hash := by
  rw [unround, round, mul_assoc, prime_mul_inverse, mul_one, UInt32.xor_assoc, UInt32.xor_self,
    UInt32.xor_zero]

theorem round_unround (hash : UInt32) (b : UInt8) : round (unround hash b) b = hash := by
  rw [round, unround, UInt32.xor_assoc, UInt32.xor_self, UInt32.xor_zero, mul_assoc,
    mul_comm inverse, prime_mul_inverse, mul_one]

/-- With the same byte a round is a bijection of the words. -/
theorem round_bijective (b : UInt8) : Function.Bijective fun hash => round hash b :=
  Function.bijective_iff_has_inverse.2
    ⟨fun hash => unround hash b, fun hash => unround_round hash b,
      fun hash => round_unround hash b⟩

/-- From the same word different bytes give different words. -/
theorem round_injective (hash : UInt32) : Function.Injective (round hash) := by
  intro a b h
  have hxor : hash ^^^ a.toUInt32 = hash ^^^ b.toUInt32 := by
    have hmul := congrArg (· * inverse) h
    simpa only [round, mul_assoc, prime_mul_inverse, mul_one] using hmul
  exact UInt8.toUInt32_inj.1 ((UInt32.xor_right_inj hash).1 hxor)

/-- Words that differ still differ after any bytes. -/
theorem foldl_round_injective (bytes : Bytes) :
    Function.Injective fun hash => bytes.foldl round hash := by
  induction bytes with
  | nil => exact Function.injective_id
  | cons b bytes ih => exact ih.comp (round_bijective b).injective

theorem digest_ne {a b : UInt8} (h : a ≠ b) (before after : Bytes) :
    digest (before ++ a :: after) ≠ digest (before ++ b :: after) := by
  intro heq
  simp only [digest, List.foldl_append, List.foldl_cons] at heq
  exact h (round_injective _ (foldl_round_injective after heq))

end Fnv

/-! ## Keys -/

/-- The digits of a number are read back as that number. -/
theorem Rgba.hexNumber?_toDigits (n : Nat) : hexNumber? (Nat.toDigits 16 n) = some n := by
  have hdigit {d : Nat} (h : d < 16) : Text.hexValue? d.digitChar = some d := by
    have hall : ∀ d : Fin 16, Text.hexValue? (Nat.digitChar d) = some d.val := by decide
    exact hall ⟨d, h⟩
  induction n using Nat.base_induction 16 (by decide) with
  | single n hn =>
    rw [Nat.toDigits_of_lt_base hn]
    simp [hexNumber?, hdigit hn]
  | digit n k hk hn ih =>
    rw [hexNumber?] at ih
    rw [← Nat.toDigits_append_toDigits (by decide) hn hk, Nat.toDigits_of_lt_base hk, hexNumber?,
      List.foldlM_append, ih]
    simp [hdigit hk, Nat.mul_comm]

open Text (Bytes)

/-- The bytes have the same length, and are not the same at exactly one position. -/
def DifferOnce (as bs : Bytes) : Prop := as.length = bs.length ∧ ∃! i : Nat, as[i]? ≠ bs[i]?

/-- Such bytes have a part in front and a part behind in common. -/
theorem DifferOnce.exists_parts {as bs : Bytes} (h : DifferOnce as bs) :
    ∃ before a b after, a ≠ b ∧ as = before ++ a :: after ∧ bs = before ++ b :: after := by
  obtain ⟨hlength, i, hne, hunique⟩ := h
  have hsame {j : Nat} (hj : j ≠ i) : as[j]? = bs[j]? := by
    by_contra hdiffer
    exact hj (hunique j hdiffer)
  have hi : i < as.length := by
    by_contra! hbeyond
    rw [List.getElem?_eq_none hbeyond, List.getElem?_eq_none (hlength ▸ hbeyond)] at hne
    exact hne rfl
  have hi' : i < bs.length := hlength ▸ hi
  have hbefore : as.take i = bs.take i := by
    refine List.ext_getElem? fun j => ?_
    rw [List.getElem?_take, List.getElem?_take]
    split_ifs with hj
    · exact hsame hj.ne
    · rfl
  have hafter : as.drop (i + 1) = bs.drop (i + 1) := by
    refine List.ext_getElem? fun j => ?_
    rw [List.getElem?_drop, List.getElem?_drop]
    exact hsame (by omega)
  refine ⟨as.take i, as[i], bs[i], as.drop (i + 1), ?_, ?_, ?_⟩
  · rwa [List.getElem?_eq_getElem hi, List.getElem?_eq_getElem hi', ne_eq, Option.some_inj] at hne
  · rw [List.getElem_cons_drop, List.take_append_drop]
  · rw [hbefore, hafter, List.getElem_cons_drop, List.take_append_drop]

/-- Keys tell the digests that they are made of. -/
theorem ContentHash.digest_eq_of_key_eq {as bs : Bytes}
    (h : (ContentHash.fnv1a as).key = (ContentHash.fnv1a bs).key) :
    Fnv.digest as = Fnv.digest bs := by
  have hdigits : Nat.toDigits 16 (Fnv.digest as).toNat = Nat.toDigits 16 (Fnv.digest bs).toNat :=
    String.ofList_injective ((String.append_right_inj _).1 h)
  have hnumber := congrArg Rgba.hexNumber? hdigits
  rw [Rgba.hexNumber?_toDigits, Rgba.hexNumber?_toDigits, Option.some_inj] at hnumber
  exact UInt32.toNat_inj.1 hnumber

/-- **Bytes that differ at one position have different digests, and so different keys.** Each round
is a bijection of the words for a fixed byte, and tells the bytes apart for a fixed word. -/
theorem Fnv.digest_differs_once {as bs : Bytes} (h : DifferOnce as bs) :
    (∀ b, Function.Bijective fun hash => round hash b) ∧
      (∀ hash, Function.Injective (round hash)) ∧
      digest as ≠ digest bs ∧
      (ContentHash.fnv1a as).key ≠ (ContentHash.fnv1a bs).key := by
  obtain ⟨before, a, b, after, hne, rfl, rfl⟩ := h.exists_parts
  have hdigest := digest_ne hne before after
  exact ⟨round_bijective, round_injective, hdigest,
    fun hkey => hdigest (ContentHash.digest_eq_of_key_eq hkey)⟩

/-- Three bytes of which the one in the middle is different. -/
theorem Fnv.digest_differs_once_middle :
    let as : Bytes := [0x61, 0x62, 0x63]
    let bs : Bytes := [0x61, 0xff, 0x63]
    DifferOnce as bs ∧
      ((∀ b, Function.Bijective fun hash => round hash b) ∧
        (∀ hash, Function.Injective (round hash)) ∧
        digest as ≠ digest bs ∧
        (ContentHash.fnv1a as).key ≠ (ContentHash.fnv1a bs).key) ∧
      (ContentHash.fnv1a as).key = "h_1a47e90b" ∧ (ContentHash.fnv1a bs).key = "h_1b91e97e" := by
  intro as bs
  have hdiffer : DifferOnce as bs := by
    refine ⟨rfl, 1, by decide, fun i hi => ?_⟩
    rcases i with _ | _ | _ | i
    · exact absurd rfl hi
    · rfl
    · exact absurd rfl hi
    · exact absurd rfl hi
  exact ⟨hdiffer, digest_differs_once hdiffer, by decide +kernel, by decide +kernel⟩

end Artboard

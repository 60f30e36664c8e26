import Artboard.Proofs.Style.Tokens
import Mathlib.Tactic.FinCases

/-!
# Written colours

A colour is written with three or six hexadecimal digits (`Channels.IsWritten`), behind blanks and
any number of marks. Exactly these texts are read as colours, but for one more form: a plus sign in
the place of the first of six digits is read as a zero (`Rgba.ofHex?_eq_some_iff`). A colour that is
written by the library itself is read back.

The length of a text is counted in bytes and its digits in characters. That makes no difference,
since all digits are characters of one byte.
-/

namespace Artboard

/-! ## Digits -/

namespace Text

variable {c : Char} {cs ds : List Char} {vs : List Nat} {n v : Nat}

/-- Some hexadecimal digits and their values. -/
def Digits (cs : List Char) (vs : List Nat) : Prop :=
  List.Forall₂ (fun c v => hexValue? c = some v) cs vs

theorem hexValue?_lt (h : hexValue? c = some v) : v < 16 := by
  unfold hexValue? at h
  dsimp only at h
  split_ifs at h with hdigit hsmall hcapital <;>
    simp only [Bool.and_eq_true, decide_eq_true_eq] at * <;> cases h <;> omega

theorem utf8Size_of_hexValue? (h : hexValue? c = some v) : c.utf8Size = 1 := by
  have hsmall : c.toNat ≤ 0x7F := by
    unfold hexValue? at h
    dsimp only at h
    split_ifs at h <;> simp only [Bool.and_eq_true, decide_eq_true_eq] at * <;> omega
  exact Char.utf8Size_eq_one_iff.2 hsmall

namespace Digits

/-- Digits are characters of one byte. -/
theorem utf8ByteSize (h : Digits cs vs) : (String.ofList cs).utf8ByteSize = vs.length := by
  induction h with
  | nil => rfl
  | cons hdigit _ ih =>
    rw [String.ofList_cons, String.utf8ByteSize_append, String.utf8ByteSize_singleton,
      utf8Size_of_hexValue? hdigit, ih, List.length_cons, Nat.add_comm]

theorem lt (h : Digits cs vs) : ∀ v ∈ vs, v < 16 := by
  induction h with
  | nil => exact List.forall_mem_nil _
  | cons hdigit _ ih => exact List.forall_mem_cons.2 ⟨hexValue?_lt hdigit, ih⟩

/-- Digits do not begin with a character that is no digit. -/
theorem head?_ne (h : Digits cs vs) (hc : hexValue? c = none) : cs.head? ≠ some c := by
  intro hhead
  cases h with
  | nil => cases hhead
  | cons hdigit _ =>
    obtain rfl := Option.some_inj.1 hhead
    rw [hc] at hdigit
    cases hdigit

theorem double (h : Digits cs vs) :
    Digits (cs.flatMap fun c => [c, c]) (vs.flatMap fun v => [v, v]) := by
  induction h with
  | nil => exact .nil
  | cons hdigit _ ih => exact .cons hdigit (.cons hdigit ih)

theorem of_double (h : Digits (cs.flatMap fun c => [c, c]) vs) : ∃ ws, Digits cs ws := by
  induction cs generalizing vs with
  | nil => exact ⟨[], .nil⟩
  | cons c cs ih =>
    rcases h with _ | ⟨hdigit, _ | ⟨-, hrest⟩⟩
    obtain ⟨ws, hws⟩ := ih hrest
    exact ⟨_ :: ws, .cons hdigit hws⟩

/-- Two digits for each byte. -/
theorem of_bytes {ns : List Nat} (h : ∀ n ∈ ns, n < 256) :
    Digits (ns.flatMap fun n => [hexDigit (n / 16), hexDigit (n % 16)])
      (ns.flatMap fun n => [n / 16, n % 16]) := by
  induction ns with
  | nil => exact .nil
  | cons n ns ih =>
    obtain ⟨hn, hrest⟩ := List.forall_mem_cons.1 h
    exact .cons (hexValue?_hexDigit (by omega)) (.cons (hexValue?_hexDigit (by omega)) (ih hrest))

end Digits

end Text

open Text (Digits hexValue?)

namespace Rgba

variable {c : Char} {cs ds : List Char} {vs : List Nat} {n v : Nat} {channels : Channels}

/-! ## Numbers -/

/-- The number that is written with the digits of some values behind those of a number. -/
def numberFrom (n : Nat) (vs : List Nat) : Nat := vs.foldl (fun n v => 16 * n + v) n

/-- A number is read off digits, and off nothing else. -/
theorem hexNumber?_eq_some_iff :
    hexNumber? cs = some n ↔ ∃ vs, Digits cs vs ∧ numberFrom 0 vs = n := by
  have hfrom (start : Nat) :
      cs.foldlM (fun n c => (hexValue? c).map (16 * n + ·)) start = some n ↔
        ∃ vs, Digits cs vs ∧ numberFrom start vs = n := by
    induction cs generalizing start with
    | nil =>
      constructor
      · exact fun h => ⟨[], .nil, Option.some_inj.1 h⟩
      · rintro ⟨vs, hvs, rfl⟩
        rw [List.forall₂_nil_left_iff.1 hvs]
        rfl
    | cons c cs ih =>
      rw [List.foldlM_cons]
      constructor
      · intro h
        obtain ⟨next, hnext, hrest⟩ := Option.bind_eq_some_iff.1 h
        obtain ⟨v, hv, rfl⟩ := Option.map_eq_some_iff.1 hnext
        obtain ⟨vs, hvs, heq⟩ := (ih _).1 hrest
        exact ⟨v :: vs, .cons hv hvs, heq⟩
      · rintro ⟨vs, hvs, heq⟩
        cases hvs with
        | cons hv hvs =>
          refine Option.bind_eq_some_iff.2 ⟨_, Option.map_eq_some_iff.2 ⟨_, hv, rfl⟩, ?_⟩
          exact (ih _).2 ⟨_, hvs, heq⟩
  exact hfrom 0

/-- A plus sign is read as a zero, unless it stands alone. -/
theorem signedHexNumber?_plus (hne : cs ≠ []) :
    signedHexNumber? ('+' :: cs) = hexNumber? ('0' :: cs) := by
  rw [signedHexNumber?, if_neg (by simpa using hne)]
  rfl

theorem signedHexNumber?_of_head (hhead : cs.head? ≠ some '+') :
    signedHexNumber? cs = hexNumber? cs := by
  unfold signedHexNumber?
  split
  case h_1 => exact absurd rfl hhead
  case h_2 => rfl

/-! ## Channels -/

/-- A byte of a packed colour comes back as a channel. All bytes are tried, some at a time. -/
theorem channelByte_ofNat_div (hn : n < 256) : channelByte (Float.ofNat n / 255) = n := by
  have hall (k : Fin 8) : ((List.range 32).all fun i =>
      channelByte (Float.ofNat (32 * k + i) / 255) == 32 * k + i) = true := by
    fin_cases k <;> decide +kernel
  have hn' := List.all_eq_true.1 (hall ⟨n / 32, by omega⟩) (n % 32)
    (List.mem_range.2 (Nat.mod_lt _ (by decide)))
  rw [Nat.div_add_mod, beq_iff_eq] at hn'
  exact hn'

theorem bytes_ofPacked (n : Nat) :
    (ofPacked n).bytes = ⟨n / 65536 % 256, n / 256 % 256, n % 256⟩ := by
  have hchannel (shift : Nat) : channelByte (packedChannel n shift) = n / Nat.pow 2 shift % 256 :=
    channelByte_ofNat_div (Nat.mod_lt _ (by decide))
  simp [bytes, ofPacked, hchannel]

theorem bytes_of_digits {r r' g g' b b' : Nat} (h : Digits cs [r, r', g, g', b, b']) :
    (hexNumber? cs).map (fun n => (ofPacked n).bytes) =
      some ⟨16 * r + r', 16 * g + g', 16 * b + b'⟩ := by
  have hlt := h.lt
  simp only [List.forall_mem_cons] at hlt
  rw [hexNumber?_eq_some_iff.2 ⟨_, h, rfl⟩, Option.map_some, bytes_ofPacked]
  simp only [numberFrom, List.foldl_cons, List.foldl_nil, Option.some_inj, Channels.mk.injEq]
  omega

/-! ## Written colours -/

/-- What is left of a written colour without the blanks around it and the marks in front. -/
def hexBody (s : String) : List Char := (Text.trim s.toList).dropWhile (· == '#')

theorem ofHex?_eq (s : String) :
    (ofHex? s).map bytes =
      match (String.ofList (hexBody s)).utf8ByteSize with
      | 3 => (signedHexNumber? ((hexBody s).flatMap fun c => [c, c])).map fun n =>
        (ofPacked n).bytes
      | 6 => (signedHexNumber? (hexBody s)).map fun n => (ofPacked n).bytes
      | _ => none := by
  rw [ofHex?, ofHexChars?, ← hexBody]
  generalize (String.ofList (hexBody s)).utf8ByteSize = size
  split
  case h_1 => exact Option.map_map ..
  case h_2 => exact Option.map_map ..
  case h_3 => simp

variable {s : String} {r r' g g' b b' : Nat}

theorem ofHex?_of_three (h : Digits (hexBody s) [r, g, b]) :
    (ofHex? s).map bytes = some ⟨16 * r + r, 16 * g + g, 16 * b + b⟩ := by
  have hsize : (String.ofList (hexBody s)).utf8ByteSize = 3 := h.utf8ByteSize
  simp only [ofHex?_eq, hsize]
  rw [signedHexNumber?_of_head (h.double.head?_ne (by decide))]
  exact bytes_of_digits h.double

theorem ofHex?_of_six (h : Digits (hexBody s) [r, r', g, g', b, b']) :
    (ofHex? s).map bytes = some ⟨16 * r + r', 16 * g + g', 16 * b + b'⟩ := by
  have hsize : (String.ofList (hexBody s)).utf8ByteSize = 6 := h.utf8ByteSize
  simp only [ofHex?_eq, hsize]
  rw [signedHexNumber?_of_head (h.head?_ne (by decide))]
  exact bytes_of_digits h

theorem utf8ByteSize_plus (cs : List Char) :
    (String.ofList ('+' :: cs)).utf8ByteSize = (String.ofList cs).utf8ByteSize + 1 := by
  rw [String.ofList_cons, String.utf8ByteSize_append, String.utf8ByteSize_singleton, Nat.add_comm]
  rfl

theorem ofHex?_of_plus (hbody : hexBody s = '+' :: ds)
    (h : Digits ('0' :: ds) [r, r', g, g', b, b']) :
    (ofHex? s).map bytes = some ⟨16 * r + r', 16 * g + g', 16 * b + b'⟩ := by
  obtain ⟨-, hrest⟩ := List.forall₂_cons.1 h
  have hsize : (String.ofList ('+' :: ds)).utf8ByteSize = 6 := by
    rw [utf8ByteSize_plus, Digits.utf8ByteSize hrest]
    rfl
  have hne : ds ≠ [] := by
    rintro rfl
    cases hrest
  simp only [ofHex?_eq, hbody, hsize]
  rw [signedHexNumber?_plus hne]
  exact bytes_of_digits h

/-- What is read with a sign is digits, or digits behind a plus sign. -/
theorem exists_digits_of_signed (h : signedHexNumber? cs = some n) :
    ∃ vs, Digits cs vs ∨ ∃ ds, cs = '+' :: ds ∧ Digits ds vs := by
  unfold signedHexNumber? at h
  split at h
  case h_1 ds =>
    split_ifs at h
    obtain ⟨vs, hvs, -⟩ := hexNumber?_eq_some_iff.1 h
    exact ⟨vs, .inr ⟨ds, rfl, hvs⟩⟩
  case h_2 =>
    obtain ⟨vs, hvs, -⟩ := hexNumber?_eq_some_iff.1 h
    exact ⟨vs, .inl hvs⟩

/-- Doubled characters are read only where they are digits: a plus sign would be doubled as well. -/
theorem exists_digits_of_doubled (h : signedHexNumber? (cs.flatMap fun c => [c, c]) = some n) :
    ∃ vs, Digits cs vs := by
  obtain ⟨vs, hvs | ⟨ds, hplus, hvs⟩⟩ := exists_digits_of_signed h
  · exact hvs.of_double
  · cases cs with
    | nil => exact ⟨[], .nil⟩
    | cons c cs =>
      obtain ⟨rfl, rfl⟩ := List.cons.inj hplus
      exact absurd rfl (hvs.head?_ne (by decide))

/-- What is read as a colour has three or six digits, or five behind a plus sign. -/
theorem exists_digits (h : (ofHex? s).map bytes = some channels) :
    (∃ vs, Digits (hexBody s) vs ∧ (vs.length = 3 ∨ vs.length = 6)) ∨
      ∃ ds vs, hexBody s = '+' :: ds ∧ Digits ds vs ∧ vs.length = 5 := by
  rw [ofHex?_eq] at h
  split at h
  case h_1 hsize =>
    obtain ⟨n, hn, -⟩ := Option.map_eq_some_iff.1 h
    obtain ⟨vs, hvs⟩ := exists_digits_of_doubled hn
    exact .inl ⟨vs, hvs, .inl (hvs.utf8ByteSize.symm.trans hsize)⟩
  case h_2 hsize =>
    obtain ⟨n, hn, -⟩ := Option.map_eq_some_iff.1 h
    obtain ⟨vs, hvs | ⟨ds, hplus, hvs⟩⟩ := exists_digits_of_signed hn
    · exact .inl ⟨vs, hvs, .inr (hvs.utf8ByteSize.symm.trans hsize)⟩
    · rw [hplus, utf8ByteSize_plus, hvs.utf8ByteSize] at hsize
      exact .inr ⟨ds, vs, hplus, hvs, Nat.succ.inj hsize⟩
  case h_3 => cases h

end Rgba

namespace Channels

/-- Some characters are the digits of a colour. -/
inductive IsWritten : Channels → List Char → Prop
  | short {cs : List Char} {r g b : Nat} (h : Digits cs [r, g, b]) :
    IsWritten ⟨16 * r + r, 16 * g + g, 16 * b + b⟩ cs
  | long {cs : List Char} {r r' g g' b b' : Nat} (h : Digits cs [r, r', g, g', b, b']) :
    IsWritten ⟨16 * r + r', 16 * g + g', 16 * b + b'⟩ cs

/-- What the library writes for a colour are the digits of its bytes. -/
theorem isWritten_hex (c : Rgba) : IsWritten c.bytes (Rgba.hexBody c.hex) := by
  have hdigits := Digits.of_bytes c.bytes_lt
  have hbody : Rgba.hexBody c.hex = c.bytes.toList.flatMap fun n =>
      [Text.hexDigit (n / 16), Text.hexDigit (n % 16)] := by
    rw [Rgba.hexBody, Text.trim_blank_free c.blankFree_hex, Rgba.hex, Channels.hex,
      String.toList_ofList, hexChars, List.dropWhile_cons_of_pos (by decide)]
    refine List.dropWhile_cons_of_neg fun hmark => ?_
    exact hdigits.head?_ne (c := '#') (by decide) (congrArg some (beq_iff_eq.1 hmark))
  have hbytes (n : Nat) : n = 16 * (n / 16) + n % 16 := (Nat.div_add_mod n 16).symm
  rw [hbody]
  have h := IsWritten.long hdigits
  rwa [← hbytes, ← hbytes, ← hbytes] at h

end Channels

namespace Rgba

variable {s : String} {ds : List Char} {vs : List Nat} {channels : Channels}

theorem ofHex?_of_isWritten (h : channels.IsWritten (hexBody s)) :
    (ofHex? s).map bytes = some channels := by
  generalize hbody : hexBody s = cs at h
  cases h with
  | short h => exact ofHex?_of_three (hbody ▸ h)
  | long h => exact ofHex?_of_six (hbody ▸ h)

theorem exists_isWritten (h : Digits ds vs) (hlength : vs.length = 3 ∨ vs.length = 6) :
    ∃ channels : Channels, channels.IsWritten ds := by
  rcases hlength with hlength | hlength
  · obtain ⟨r, g, b, rfl⟩ := List.length_eq_three.1 hlength
    exact ⟨_, .short h⟩
  · match vs, hlength with
    | [r, r', g, g', b, b'], _ => exact ⟨_, .long h⟩

/-- **A text is read as a colour iff it is three or six digits**, blanks around it and marks in
front not counting, or five digits behind a plus sign, which then stands for a zero. The bytes are
those of the digits. A colour that is written is read back. -/
theorem ofHex?_eq_some_iff (s : String) (channels : Channels) (c : Rgba) :
    ((ofHex? s).map bytes = some channels ↔
      channels.IsWritten (hexBody s) ∨
        ∃ ds, hexBody s = '+' :: ds ∧ ds.length = 5 ∧ channels.IsWritten ('0' :: ds)) ∧
    (ofHex? c.hex).map bytes = some c.bytes := by
  refine ⟨⟨fun h => ?_, ?_⟩, ofHex?_of_isWritten (Channels.isWritten_hex c)⟩
  · rcases exists_digits h with ⟨vs, hvs, hlength⟩ | ⟨ds, vs, hbody, hvs, hlength⟩
    · obtain ⟨written, hwritten⟩ := exists_isWritten hvs hlength
      obtain rfl := Option.some_inj.1 (h.symm.trans (ofHex?_of_isWritten hwritten))
      exact .inl hwritten
    · match vs, hlength with
      | [r, g, g', b, b'], _ =>
        have hzero : Digits ('0' :: ds) [0, r, g, g', b, b'] := .cons (by decide) hvs
        obtain rfl := Option.some_inj.1 (h.symm.trans (ofHex?_of_plus hbody hzero))
        exact .inr ⟨ds, hbody, hvs.length_eq, .long hzero⟩
  · rintro (h | ⟨ds, hbody, hlength, h⟩)
    · exact ofHex?_of_isWritten h
    · cases h with
      | short h =>
        have htwo : ds.length = 2 := Nat.succ.inj h.length_eq
        omega
      | long h => exact ofHex?_of_plus hbody h

/-- Five digits behind a plus sign are no written colour, and are read as one. -/
theorem ofHex?_plus_sign :
    (ofHex? "+12345").map bytes = some ⟨0x01, 0x23, 0x45⟩ ∧
      ¬∃ channels : Channels, channels.IsWritten (hexBody "+12345") := by
  have hbody : hexBody "+12345" = '+' :: "12345".toList := by decide
  constructor
  · exact ofHex?_of_plus hbody
      (.cons rfl (.cons rfl (.cons rfl (.cons rfl (.cons rfl (.cons rfl .nil))))))
  · rintro ⟨channels, h⟩
    rw [hbody] at h
    cases h with
    | short h | long h => exact h.head?_ne (c := '+') (by decide) rfl

end Rgba

end Artboard

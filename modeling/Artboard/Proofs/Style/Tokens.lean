import Artboard.Proofs.Number.Numerals
import Artboard.Proofs.Style.Backgrounds

/-!
# Tokens of class lists

A class list is written as one text with blanks between the classes, so each class has to be a single
token: not empty, and without a blank. No utility has an empty class (`Utility.text_ne_empty`). Its
class has no blank if the data in it have none (`Utility.blankFree_text`), where data are addresses,
the keys and names of font families, and the classes of variables; numbers, scales and the palette
never bring one in. Font families may hold plain spaces, which are written as underscores.

Words without blanks, written with blanks in between, are split off again at blanks
(`Text.pieces_words`), so such a class list is read back as it is.
-/

namespace Artboard

/-! ## Text without blanks -/

namespace Text

def BlankFree (s : String) : Prop := ∀ c ∈ s.toList, isBlank c = false

instance (s : String) : Decidable (BlankFree s) :=
  decidable_of_iff (s.toList.all fun c => !isBlank c) (by simp [BlankFree])

/-- Plain spaces are the only blanks. -/
def OnlySpaces (s : String) : Prop := ∀ c ∈ s.toList, isBlank c = true → c = ' '

instance (s : String) : Decidable (OnlySpaces s) :=
  decidable_of_iff (s.toList.all fun c => !isBlank c || c == ' ')
    (by simp [OnlySpaces, Classical.or_iff_not_imp_left])

theorem blankFree_append {s t : String} : BlankFree (s ++ t) ↔ BlankFree s ∧ BlankFree t := by
  rw [BlankFree, String.toList_append, List.forall_mem_append]
  rfl

theorem BlankFree.append {s t : String} (hs : BlankFree s) (ht : BlankFree t) :
    BlankFree (s ++ t) :=
  blankFree_append.2 ⟨hs, ht⟩

/-- Text between brackets or other marks. -/
theorem BlankFree.between {s start stop : String} (hs : BlankFree s)
    (hstart : BlankFree start := by decide) (hstop : BlankFree stop := by decide) :
    BlankFree (start ++ s ++ stop) :=
  (hstart.append hs).append hstop

theorem isBlank_of_isDigit {c : Char} (h : c.isDigit = true) : isBlank c = false := by
  have hrange : 48 ≤ c.toNat ∧ c.toNat ≤ 57 := by
    simp only [Char.isDigit, Bool.and_eq_true, decide_eq_true_eq] at h
    exact h
  unfold isBlank
  simp
  omega

theorem mem_intercalate {sep : List Char} {parts : List (List Char)} {c : Char}
    (h : c ∈ sep.intercalate parts) : c ∈ sep ∨ ∃ part ∈ parts, c ∈ part := by
  induction parts with
  | nil => cases h
  | cons part rest ih =>
    cases rest with
    | nil => exact .inr ⟨part, List.mem_cons_self, by rwa [List.intercalate_singleton] at h⟩
    | cons next rest =>
      rw [List.intercalate_cons_cons, List.append_assoc, List.mem_append, List.mem_append] at h
      rcases h with h | h | h
      · exact .inr ⟨part, List.mem_cons_self, h⟩
      · exact .inl h
      · rcases ih h with h | ⟨part, hpart, h⟩
        · exact .inl h
        · exact .inr ⟨part, List.mem_cons_of_mem _ hpart, h⟩

/-- What is split off between blanks is found again between the pieces. -/
theorem pieces_intercalate {p : Char → Bool} {sep : Char} (hsep : p sep = true)
    {parts : List (List Char)} (hne : parts ≠ []) (h : ∀ part ∈ parts, ∀ c ∈ part, p c = false) :
    pieces p ([sep].intercalate parts) = parts := by
  induction parts with
  | nil => exact absurd rfl hne
  | cons part rest ih =>
    obtain ⟨hpart, hrest⟩ := List.forall_mem_cons.1 h
    cases rest with
    | nil => rw [List.intercalate_singleton, pieces_of_free hpart]
    | cons next rest =>
      rw [List.intercalate_cons_cons, List.append_assoc, List.singleton_append,
        pieces_append_cons hsep, pieces_of_free hpart, ih (List.cons_ne_nil _ _) hrest]
      rfl

/-- **Words without blanks that are written with blanks in between are split off again.** -/
theorem pieces_words {words : List String} (hne : words ≠ []) (h : ∀ word ∈ words, BlankFree word) :
    pieces isBlank (" ".intercalate words).toList = words.map String.toList := by
  rw [String.toList_intercalate]
  refine pieces_intercalate (by decide) (by simpa using hne) ?_
  rw [List.forall_mem_map]
  exact h

/-- The only blanks are those in between. -/
theorem onlySpaces_words {words : List String} (h : ∀ word ∈ words, BlankFree word) :
    OnlySpaces (" ".intercalate words) := by
  intro c hc hblank
  rw [String.toList_intercalate] at hc
  rcases mem_intercalate hc with hsep | ⟨part, hpart, hmem⟩
  · exact List.mem_singleton.1 hsep
  · obtain ⟨word, hword, rfl⟩ := List.mem_map.1 hpart
    rw [h word hword c hmem] at hblank
    cases hblank

end Text

open Text (BlankFree)

/-! ## Numbers -/

namespace Number

theorem Numerals.blankFree {s : String} (h : Numerals s.toList) : BlankFree s := by
  have hfree := h.forall (p := fun c => !Text.isBlank c)
    (fun c hdigit => by rw [Text.isBlank_of_isDigit hdigit]; rfl) (by decide)
  exact fun c hc => by simpa using hfree c hc

theorem blankFree_short (x : Float) : BlankFree (short x) := (numerals_short x).blankFree

theorem blankFree_pixels (x : Float) : BlankFree (pixels x) :=
  (blankFree_short x).append (by decide)

theorem blankFree_nat (n : Nat) : BlankFree (toString n) := by
  refine Numerals.blankFree ?_
  have hdigits : (toString n).toList = digits n := String.toList_ofList
  rw [hdigits]
  exact numerals_digits n

end Number

theorem blankFree_placeholderUrl (width height : Float) :
    BlankFree (placeholderUrl width height) := by
  have hside (x : Float) : BlankFree (placeholderSide x) := (Number.numerals_fixed _ _).blankFree
  have hhost : BlankFree (placeholderHost ++ "/") := by decide
  exact ((hhost.append (hside _)).append (by decide)).append (hside _)

/-! ## Scales -/

namespace Scale

open Number (blankFree_pixels blankFree_short)

/-- A label of a scale has no blank if no label of the scale has one. -/
theorem blankFree_of_snap {raw percent : Float} {scale : List (Float × String)}
    (hscale : ∀ entry ∈ scale, BlankFree entry.2) {label : String}
    (h : snap raw scale percent = some label) : BlankFree label := by
  obtain ⟨value, hmem⟩ := exists_of_snap h
  exact hscale _ hmem

theorem blankFree_spacing (settings : Settings) (x : Float) : BlankFree (spacing settings x) := by
  have hwritten : BlankFree ("[" ++ Number.pixels x ++ "]") := (blankFree_pixels x).between
  unfold spacing
  dsimp only
  split_ifs
  · decide
  · cases hsnap : snap x spacings settings.rounding.threshold with
    | none => exact hwritten
    | some label => exact blankFree_of_snap (by decide) hsnap
  · exact hwritten

theorem blankFree_spacingClass (settings : Settings) {measured : String}
    (hmeasured : BlankFree measured) (x : Float) :
    BlankFree (spacingClass settings measured x) :=
  (hmeasured.append (by decide)).append (blankFree_spacing settings x)

theorem blankFree_radiusClass (settings : Settings) (x : Float) :
    BlankFree (radiusClass settings x) := by
  have hwritten : BlankFree ("rounded-[" ++ Number.pixels x ++ "]") := (blankFree_pixels x).between
  unfold radiusClass
  dsimp only
  split_ifs
  · cases hsnap : snap x radii settings.rounding.threshold with
    | none => exact hwritten
    | some label => exact blankFree_of_snap (by decide) hsnap
  · exact hwritten

theorem blankFree_fontSizeClass (settings : Settings) (x : Float) :
    BlankFree (fontSizeClass settings x) := by
  have hwritten : BlankFree ("text-[" ++ Number.pixels x ++ "]") := (blankFree_pixels x).between
  have hlabels : ∀ entry ∈ stretchedFontSizes settings, BlankFree entry.2 := by
    have hkeys : ∀ entry ∈ fontSizes, BlankFree entry.2 := by decide
    rw [stretchedFontSizes, List.forall_mem_map]
    exact hkeys
  unfold fontSizeClass
  dsimp only
  split_ifs
  · split
    case h_1 key hsnap => exact BlankFree.append (by decide) (blankFree_of_snap hlabels hsnap)
    case h_2 => exact hwritten
  · exact hwritten

theorem blankFree_opacityClass (settings : Settings) (x : Float) :
    BlankFree (opacityClass settings x) := by
  unfold opacityClass
  dsimp only
  split
  case h_1 key hsnap =>
    exact BlankFree.append (by decide) (blankFree_of_snap (by decide) hsnap)
  case h_2 => exact (blankFree_short x).between

end Scale

/-! ## Colours -/

theorem Palette.blankFree_name : ∀ entry ∈ Palette.entries, BlankFree entry.name := by
  have hfamilies : ∀ f ∈ families, BlankFree f.1 := by decide
  simp only [entries, List.forall_mem_cons, List.mem_flatMap]
  refine ⟨by decide, by decide, ?_⟩
  rintro entry ⟨⟨name, packed⟩, hfamily, hentry⟩
  obtain ⟨i, hi, rfl⟩ := List.mem_iff_getElem.1 hentry
  simp only [family, List.getElem_zipWith]
  exact ((hfamilies _ hfamily).append (by decide)).append (Number.blankFree_nat _)

theorem Text.isBlank_hexDigit {n : Nat} (h : n < 16) : isBlank (hexDigit n) = false := by
  interval_cases n <;> decide

theorem Rgba.blankFree_hex (c : Rgba) : BlankFree c.hex := by
  rw [BlankFree, hex, Channels.hex, String.toList_ofList, Channels.hexChars, List.forall_mem_cons,
    List.forall_mem_flatMap]
  refine ⟨by decide, fun n hn => ?_⟩
  have hn : n < 256 := c.bytes_lt n hn
  rw [List.forall_mem_cons, List.forall_mem_singleton]
  exact ⟨Text.isBlank_hexDigit (by omega), Text.isBlank_hexDigit (by omega)⟩

/-- The class of the variable of a colour has no blank. -/
def SolidFill.Unbroken (fill : SolidFill) : Prop := ∀ token ∈ fill.token, BlankFree token

theorem SolidFill.blankFree_text (settings : Settings) {fill : SolidFill} (h : fill.Unbroken) :
    BlankFree (fill.text settings) := by
  have hshown {base : String} (hbase : BlankFree base) :
      BlankFree (if fill.color.isOpaque then base else s!"{base}/{fill.color.alphaPercent}") := by
    split_ifs
    · exact hbase
    · exact (hbase.append (t := "/") (by decide)).append (Number.blankFree_nat _)
  unfold text
  dsimp only
  by_cases htransparent : fill.color.alpha ≤ 0
  · rw [if_pos htransparent]
    decide
  rw [if_neg htransparent]
  cases htoken : fill.token with
  | some token => exact hshown (h token htoken)
  | none =>
    refine hshown ?_
    dsimp only
    split_ifs
    · exact Palette.blankFree_name _ fill.color.named_mem
    · exact fill.color.blankFree_hex.between

theorem blankFree_gradientDirection (angle : Float) : BlankFree (gradientDirection angle) := by
  have hwords : ∀ word ∈ ["r", "br", "b", "bl", "l", "tl", "t", "tr"], BlankFree word := by decide
  unfold gradientDirection
  dsimp only
  rw [List.getD_eq_getElem?_getD]
  cases hword : ["r", "br", "b", "bl", "l", "tl", "t", "tr"][
      ((Number.turn angle + 22.5) / 45).toUInt64.toNat % 8]? with
  | none => decide
  | some word => exact hwords word (List.mem_of_getElem? hword)

/-! ## Texts -/

theorem blankFree_borderText (side : BorderSide) (x : Float) : BlankFree (borderText side x) := by
  have hside : BlankFree side.text := by cases side <;> decide
  unfold borderText
  split_ifs
  · exact hside
  · exact (hside.append (by decide)).append (Number.blankFree_nat _)
  · exact ((hside.append (by decide)).append (Number.blankFree_pixels x)).append (by decide)

theorem blankFree_fontWeightText (weight : Nat) : BlankFree (fontWeightText weight) := by
  unfold fontWeightText
  split
  case h_9 => exact (Number.blankFree_nat _).between
  all_goals decide

/-- Plain spaces of a family become underscores. -/
theorem blankFree_fontFamilyText {family : String}
    (h : Text.OnlySpaces family) : BlankFree (fontFamilyText family) := by
  refine Text.BlankFree.between (fun c hc => ?_)
  rw [String.toList_ofList] at hc
  obtain ⟨d, hd, rfl⟩ := List.mem_map.1 hc
  split_ifs with hspace
  · decide
  · exact Bool.eq_false_iff.2 fun hblank => hspace (h d hd hblank)

/-! ## Utilities -/

namespace Utility

/-- The data in a utility do not break its class into tokens. -/
def Unbroken : Utility → Prop
  | .color _ fill => fill.Unbroken
  | .backgroundImage url => BlankFree url
  | .fontKey key => BlankFree key
  | .fontFamily family => Text.OnlySpaces family
  | .tracking value | .leading value => BlankFree value
  | _ => True

/-- **The class of a utility has no blank** if the data in it have none. -/
theorem blankFree_text (settings : Settings) {u : Utility} (h : u.Unbroken) :
    BlankFree (u.text settings) := by
  cases u with
  | keyword word =>
    show BlankFree word.text
    cases word <;> decide
  | offset edge coordinate =>
    exact Scale.blankFree_spacingClass settings (by cases edge <;> decide) _
  | length extent x => exact Scale.blankFree_spacingClass settings (by cases extent <;> decide) x
  | radius x => exact Scale.blankFree_radiusClass settings x
  | cornerRadius corner x =>
    have hcorner : BlankFree ("rounded-" ++ corner.text ++ "-[") := by cases corner <;> decide
    exact (Number.blankFree_pixels x).between hcorner
  | opacity x => exact Scale.blankFree_opacityClass settings x
  | rotation degrees => exact (Number.blankFree_short degrees).between
  | color role fill =>
    have hrole : BlankFree (role.word ++ "-") := by cases role <;> decide
    exact hrole.append (SolidFill.blankFree_text settings h)
  | gradient angle => exact Text.BlankFree.append (by decide) (blankFree_gradientDirection angle)
  | backgroundImage url => exact h.between
  | border side x => exact blankFree_borderText side x
  | fontSize x => exact Scale.blankFree_fontSizeClass settings x
  | fontWeight weight => exact blankFree_fontWeightText weight
  | fontKey key => exact Text.BlankFree.append (by decide) h
  | fontFamily family => exact blankFree_fontFamilyText h
  | tracking value => exact Text.BlankFree.between h
  | leading value => exact Text.BlankFree.between h

/-- No utility has an empty class. -/
theorem text_ne_empty (settings : Settings) (u : Utility) : u.text settings ≠ "" := by
  intro hempty
  cases hbackground : u.isBackground with
  | true =>
    have hprefix := prefix_of_isBackground settings hbackground
    rw [hempty] at hprefix
    exact absurd hprefix (by decide)
  | false =>
    by_cases hword : ∃ word, u = .keyword word
    · obtain ⟨word, rfl⟩ := hword
      have hword : word.text = "" := hempty
      cases word <;> exact absurd hword (by decide)
    · obtain ⟨b, hmem, hb⟩ :=
        exists_beginning settings (fun word hu => hword ⟨word, hu⟩) hbackground
      have hbeginnings : ∀ b ∈ beginnings, ¬b.toList <+: "".toList := by decide
      rw [hempty] at hb
      exact hbeginnings b hmem hb

end Utility

/-! ## Class lists -/

namespace Style

variable {settings : Settings} {s : Style}

theorem mem_classes {c : String} :
    c ∈ s.classes settings ↔ ∃ u ∈ s.utilities, c = settings.classPrefix ++ u.text settings := by
  rw [classes, ClassList.mem_ofTexts]
  simp only [List.mem_map, exists_exists_and_eq_and]
  exact exists_congr fun u => and_congr_right fun _ => and_iff_right (u.text_ne_empty settings)

theorem classes_eq_nil_iff : s.classes settings = [] ↔ s.utilities = [] := by
  simp only [List.eq_nil_iff_forall_not_mem, mem_classes]
  constructor
  · exact fun h u hu => h _ ⟨u, hu, rfl⟩
  · rintro h c ⟨u, hu, -⟩
    exact h u hu

/-- A style is empty iff nothing is written of it. -/
theorem isEmpty_iff_resolve (settings : Settings) :
    s.isEmpty = true ↔
      (s.resolve settings).classes = [] ∧ (s.resolve settings).declarations = [] := by
  rw [isEmpty, Bool.and_eq_true, List.isEmpty_iff, List.isEmpty_iff]
  exact and_congr_left fun _ => classes_eq_nil_iff.symm

theorem blankFree_of_mem_classes (hfree : BlankFree settings.classPrefix)
    (h : ∀ u ∈ s.utilities, u.Unbroken) {c : String} (hc : c ∈ s.classes settings) :
    BlankFree c := by
  obtain ⟨u, hu, rfl⟩ := mem_classes.1 hc
  exact hfree.append (u.blankFree_text settings (h u hu))

end Style

end Artboard

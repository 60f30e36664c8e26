import Artboard.Conversion.Normalize
import Artboard.Proofs.Color.Nearest
import Artboard.Proofs.Style.Positions

/-!
# Background images of elements

An element shows a background image if one of its classes is written `bg-[url(…)]` behind the class
prefix, or if a declaration says so. This module reads such addresses off classes and declarations
(`Markup.Classes.imageUrls`), and says where they come from.

A class of this form is that of a background image. It may also be that of a colour, if the name of
its variable is written `[url(…)]` (`Utility.eq_of_text`); but then there is no slash in the
address, for slashes are no part of the classes of variables (`slash_not_mem_variableToken`).
-/

namespace Artboard

/-! ## Reading addresses -/

namespace Text

/-- What stands between a beginning and an end. -/
def between? (start stop s : String) : Option String :=
  ((s.toList.dropPrefix? start.toList).bind (·.dropSuffix? stop.toList)).map String.ofList

theorem between?_eq_some_iff {start stop s t : String} :
    between? start stop s = some t ↔ s = start ++ t ++ stop := by
  simp only [between?, Option.map_eq_some_iff, Option.bind_eq_some_iff,
    List.dropPrefix?_eq_some_iff, List.dropSuffix?_eq_some_iff, beq_iff_eq]
  constructor
  · rintro ⟨cs, ⟨_, ⟨_, hs, rfl⟩, _, rfl, rfl⟩, rfl⟩
    rw [← String.toList_inj, hs, String.toList_append, String.toList_append, String.toList_ofList,
      List.append_assoc]
  · rintro rfl
    exact ⟨t.toList, ⟨t.toList ++ stop.toList, ⟨_, by simp, rfl⟩, _, rfl, rfl⟩,
      String.ofList_toList⟩

end Text

open Text (between?)

/-- The class of a background image. -/
def imageClass (url : String) : String := "bg-[url(" ++ url ++ ")]"

/-- The declaration of a background image. -/
def imageDeclaration (url : String) : String × String :=
  ("background-image", "url(" ++ url ++ ")")

namespace Markup.Classes

/-- The addresses of the background images that classes and declarations give. -/
def imageUrls (classPrefix : String) (c : Classes) : List String :=
  c.classes.filterMap (between? (classPrefix ++ "bg-[url(") ")]") ++
    c.declarations.filterMap fun (property, value) =>
      if property = "background-image" then between? "url(" ")" value else none

theorem mem_imageUrls_iff {classPrefix url : String} {c : Classes} :
    url ∈ c.imageUrls classPrefix ↔
      classPrefix ++ imageClass url ∈ c.classes ∨ imageDeclaration url ∈ c.declarations := by
  have hclass (text : String) : between? (classPrefix ++ "bg-[url(") ")]" text = some url ↔
      classPrefix ++ imageClass url = text := by
    rw [Text.between?_eq_some_iff, eq_comm, imageClass, String.append_assoc, String.append_assoc,
      String.append_assoc]
  have hdeclaration (d : String × String) :
      (if d.1 = "background-image" then between? "url(" ")" d.2 else none) = some url ↔
        imageDeclaration url = d := by
    rw [Option.ite_none_right_eq_some, Text.between?_eq_some_iff, imageDeclaration, Prod.ext_iff]
    exact and_congr eq_comm eq_comm
  simp only [imageUrls, List.mem_append, List.mem_filterMap, hclass, hdeclaration,
    exists_eq_right']

end Markup.Classes

namespace ClassList

theorem nodup_ofTexts (classPrefix : String) (texts : List String) :
    (ofTexts classPrefix texts).Nodup := by
  have hfoldl (classes : List String) (h : classes.Nodup) :
      (texts.foldl (add classPrefix) classes).Nodup := by
    induction texts generalizing classes with
    | nil => exact h
    | cons text rest ih =>
      refine ih _ ?_
      unfold add
      dsimp only
      split_ifs with hempty hmem
      · exact h
      · exact h
      · rw [List.contains_iff_mem] at hmem
        exact h.append (List.nodup_singleton _) (by simpa using hmem)
  exact hfoldl [] List.nodup_nil

end ClassList

/-! ## Colours that spell images -/

theorem Palette.name_not_bracketed :
    ∀ entry ∈ Palette.entries, entry.name.toList.head? ≠ some '[' := by
  have hfamilies : ∀ f ∈ families, f.1.toList.head?.any (· != '[') = true := by decide
  simp only [entries, List.forall_mem_cons, List.mem_flatMap]
  refine ⟨by decide, by decide, ?_⟩
  rintro entry ⟨⟨name, packed⟩, hfamily, hentry⟩ hbracket
  have hhead := hfamilies _ hfamily
  obtain ⟨i, hi, rfl⟩ := List.mem_iff_getElem.1 hentry
  simp only [family, List.getElem_zipWith, String.append_assoc, toString, String.toList_append,
    List.head?_append] at hbracket
  cases hname : name.toList.head? with
  | none =>
    rw [hname] at hhead
    cases hhead
  | some c =>
    rw [hname] at hhead hbracket
    obtain rfl := Option.some.inj hbracket
    cases hhead

namespace SolidFill

variable {settings : Settings} {fill : SolidFill} {url : String}

/-- The class of the colour reads as a background image, for the name of its variable does. -/
def Spells (fill : SolidFill) (url : String) : Prop := fill.token = some ("[url(" ++ url ++ ")]")

/-- A palette name has no bracket, a hexadecimal colour begins with `[#`, and a percentage ends with
a digit. -/
theorem spells_of_text (h : fill.text settings = "[url(" ++ url ++ ")]") : fill.Spells url := by
  have hstart (s : String) (hs : s = "[url(" ++ url ++ ")]") :
      ∃ rest, s.toList = '[' :: 'u' :: rest := by
    rw [hs, String.append_assoc, String.toList_append]
    exact ⟨_, rfl⟩
  have hpercent (base : String) (n : Nat) : base ++ "/" ++ toString n ≠ "[url(" ++ url ++ ")]" := by
    intro heq
    have hdigits : (toString n).toList = Nat.toDigits 10 n := String.toList_ofList
    have hlast : (Nat.toDigits 10 n).getLast? = some ']' := by
      rw [← hdigits, ← List.getLast?_append_of_ne_nil (base ++ "/").toList
        (hdigits ▸ Nat.toDigits_ne_nil), ← String.toList_append, heq, String.toList_append,
        List.getLast?_append_of_ne_nil _ (by decide)]
      rfl
    have hdigit := Nat.isDigit_of_mem_toDigits (by decide) (by decide)
      (List.mem_of_getLast? hlast)
    exact absurd hdigit (by decide)
  unfold text at h
  dsimp only at h
  by_cases htransparent : fill.color.alpha ≤ 0
  · rw [if_pos htransparent] at h
    obtain ⟨rest, hrest⟩ := hstart _ h
    cases hrest
  rw [if_neg htransparent] at h
  by_cases hopaque : fill.color.isOpaque = true
  · rw [if_pos hopaque] at h
    cases htoken : fill.token with
    | some token =>
      rw [htoken] at h
      rw [Spells, htoken]
      exact congrArg some h
    | none =>
      rw [htoken] at h
      obtain ⟨rest, hrest⟩ := hstart _ h
      dsimp only at hrest
      split_ifs at hrest
      · exact absurd (congrArg List.head? hrest)
          (Palette.name_not_bracketed _ fill.color.named_mem)
      · have hhex : fill.color.hex.toList = fill.color.bytes.hexChars := String.toList_ofList
        rw [String.toList_append, String.toList_append] at hrest
        change '[' :: (fill.color.hex.toList ++ _) = _ at hrest
        rw [hhex, Channels.hexChars] at hrest
        cases hrest
  · rw [if_neg hopaque] at h
    exact absurd h (hpercent _ _)

end SolidFill

/-! ### Names of variables -/

namespace Text

/-- No capital has the slash as its small letter: all small letters come behind it. -/
theorem eq_slash_of_small {c : Char} (h : small c = '/') : c = '/' := by
  have htable : ∀ run ∈ capitalRuns, 47 < (run.1 : Int) + run.2.2.2 := by decide +kernel
  have hslash (n : Nat) (hn : Char.ofNat n = '/') : n = 47 := by
    have hvalue : (Char.ofNat n).toNat = 47 := hn ▸ rfl
    by_cases hvalid : n.isValidChar
    · rwa [Char.ofNat, dif_pos hvalid] at hvalue
    · rw [Char.ofNat, dif_neg hvalid] at hvalue
      exact absurd hvalue (by decide)
  unfold small at h
  dsimp only at h
  split at h
  case h_1 first last step distance hfind =>
    have hrange := List.find?_some hfind
    simp only [Bool.and_eq_true, decide_eq_true_eq] at hrange
    have hsum := hslash _ h
    have hrun := htable _ (List.mem_of_find?_eq_some hfind)
    dsimp only at hrun
    omega
  case h_2 => exact h

/-- Small letters are those of characters of the text, but for two capitals with rules of their
own. -/
theorem exists_of_mem_lowercaseAfter {before cs : List Char} {c : Char}
    (h : c ∈ lowercaseAfter before cs) :
    c ∈ ['ς', 'σ', 'i', '\u0307'] ∨ ∃ d ∈ cs, c = small d := by
  induction cs generalizing before with
  | nil => cases h
  | cons d rest ih =>
    rw [lowercaseAfter, List.mem_append] at h
    rcases h with h | h
    · unfold smallLetters at h
      split_ifs at h
      · exact .inl (by simp_all)
      · exact .inl (by simp_all)
      · exact .inl (by simp_all)
      · exact .inr ⟨d, List.mem_cons_self, List.mem_singleton.1 h⟩
    · rcases ih h with h | ⟨e, he, heq⟩
      · exact .inl h
      · exact .inr ⟨e, List.mem_cons_of_mem _ he, heq⟩

theorem mem_joinWith {c : Char} {sep : List Char} {parts : List (List Char)}
    (h : c ∈ joinWith sep parts) : c ∈ sep ∨ c ∈ parts.flatten := by
  induction parts with
  | nil => cases h
  | cons part rest ih =>
    cases rest with
    | nil => exact .inr (by simpa [joinWith] using h)
    | cons next rest =>
      simp only [joinWith, List.mem_append] at h
      rw [List.flatten_cons, List.mem_append]
      rcases h with (h | h) | h
      · exact .inr (.inl h)
      · exact .inl h
      · exact (ih h).imp_right .inr

end Text

/-- The class of a variable consists of the small letters of characters that are neither blanks nor
slashes: names are split at these. -/
theorem exists_of_mem_variableToken {name : String} {c : Char}
    (h : c ∈ (variableToken name).toList) :
    c ∈ ['ς', 'σ', 'i', '\u0307'] ∨ ∃ d, Text.isBlank d = false ∧ d ≠ '/' ∧ c = Text.small d := by
  rw [variableToken, String.toList_ofList] at h
  rcases Text.exists_of_mem_lowercaseAfter h with h | ⟨d, hd, heq⟩
  · exact .inl h
  refine .inr ?_
  rcases Text.mem_joinWith hd with hsep | hd
  · obtain rfl := List.mem_singleton.1 hsep
    exact ⟨'-', by decide, by decide, heq⟩
  · obtain ⟨piece, hpiece, hd⟩ := List.mem_flatten.1 hd
    have hmem : d ∈ (Text.pieces (fun c => Text.isBlank c || c == '/') name.toList).flatten :=
      List.mem_flatten_of_mem (List.mem_of_mem_filter hpiece) hd
    rw [Text.flatten_pieces, List.mem_filter, Bool.not_eq_true', Bool.or_eq_false_iff,
      beq_eq_false_iff_ne] at hmem
    exact ⟨d, hmem.2.1, hmem.2.2, heq⟩

theorem slash_not_mem_variableToken (name : String) : '/' ∉ (variableToken name).toList := by
  intro h
  rcases exists_of_mem_variableToken h with h | ⟨d, -, hslash, heq⟩
  · exact absurd h (by decide)
  · exact hslash (Text.eq_slash_of_small heq.symm)

/-! ## Utilities that give images -/

/-- A class is written as a background image only for an image, or for a colour whose variable is
named so. -/
theorem Utility.eq_of_text {settings : Settings} {u : Utility} {url : String}
    (h : u.text settings = imageClass url) :
    u = .backgroundImage url ∨
      ∃ fill : SolidFill, fill.Spells url ∧ u = .color .background fill := by
  have hclass : (imageClass url).toList = "bg-[url(".toList ++ (url ++ ")]").toList := by
    rw [imageClass, String.append_assoc, String.toList_append]
  by_cases hword : ∃ word, u = .keyword word
  · obtain ⟨word, rfl⟩ := hword
    have hprefix : "bg-[url(".toList <+: word.text.toList :=
      ⟨_, hclass.symm.trans (congrArg String.toList h.symm)⟩
    cases word <;> exact absurd hprefix (by decide)
  · cases hbackground : u.isBackground with
    | true =>
      cases u with
      | color role fill =>
        cases role with
        | background =>
          refine .inr ⟨fill, SolidFill.spells_of_text (?_ : fill.text settings = _), rfl⟩
          have hsplit : "bg-[url(" = "bg-" ++ "[url(" := rfl
          have htext : "bg-" ++ fill.text settings = "bg-" ++ ("[url(" ++ url ++ ")]") := by
            rw [← String.append_assoc, ← String.append_assoc, ← hsplit]
            exact h
          exact String.append_right_inj _ |>.1 htext
        | gradientFrom | gradientVia | gradientTo | border | text => cases hbackground
      | backgroundImage url' =>
        refine .inl (congrArg _ ?_)
        have htext : "bg-[url(" ++ url' ++ ")]" = "bg-[url(" ++ url ++ ")]" := h
        rwa [String.append_left_inj, String.append_right_inj] at htext
      | _ => cases hbackground
    | false =>
      obtain ⟨b, hmem, hb⟩ :=
        exists_beginning settings (fun word hu => hword ⟨word, hu⟩) hbackground
      have hbegin : ∀ b ∈ beginnings,
          ¬b.toList <+: "bg-[url(".toList ∧ ¬"bg-[url(".toList <+: b.toList := by decide
      rw [h, hclass] at hb
      rcases List.prefix_or_prefix_of_prefix hb (List.prefix_append _ _) with hb | hb
      · exact absurd hb (hbegin b hmem).1
      · exact absurd hb (hbegin b hmem).2

namespace Style

variable {settings : Settings} {s : Style} {url : String}

/-- The addresses of the background images of an element. -/
def imageUrls (settings : Settings) (s : Style) : List String :=
  (s.resolve settings).imageUrls settings.classPrefix

theorem mem_imageUrls_iff : url ∈ s.imageUrls settings ↔
    (∃ u ∈ s.utilities, u.text settings = imageClass url) ∨
      imageDeclaration url ∈ s.declarations := by
  have hne : imageClass url ≠ "" := by
    intro h
    have hlist := congrArg String.toList h
    rw [imageClass, String.append_assoc, String.toList_append] at hlist
    cases hlist
  rw [imageUrls, Markup.Classes.mem_imageUrls_iff]
  refine or_congr_left ?_
  show _ ∈ s.classes settings ↔ _
  simp only [classes, ClassList.mem_ofTexts, String.append_right_inj, List.mem_map]
  constructor
  · rintro ⟨_, ⟨u, hu, rfl⟩, -, htext⟩
    exact ⟨u, hu, htext.symm⟩
  · rintro ⟨u, hu, htext⟩
    exact ⟨_, ⟨u, hu, rfl⟩, htext ▸ hne, htext.symm⟩

/-- No image is given twice by classes. -/
theorem nodup_imageUrls (h : s.declarations = []) : (s.imageUrls settings).Nodup := by
  have hclasses : (s.classes settings).Nodup := ClassList.nodup_ofTexts _ _
  have hinjective (c c' url : String)
      (hc : url ∈ between? (settings.classPrefix ++ "bg-[url(") ")]" c)
      (hc' : url ∈ between? (settings.classPrefix ++ "bg-[url(") ")]" c') : c = c' :=
    (Text.between?_eq_some_iff.1 hc).trans (Text.between?_eq_some_iff.1 hc').symm
  simpa [imageUrls, Markup.Classes.imageUrls, resolve, h] using hclasses.filterMap hinjective

/-! ### Utilities that only tint -/

/-- Nothing among the utilities fills the background but colours of some fills. -/
def Tints (fills : List Fill) (us : List Utility) : Prop :=
  ∀ u ∈ us, u.isBackground = true →
    ∃ fill, Fill.solid fill ∈ fills ∧ u = .color .background fill

section Tints

variable {fills : List Fill} {us vs : List Utility} {item : Item} {children : List Node}
  {parent : ParentContext}

theorem Tints.append (hu : Tints fills us) (hv : Tints fills vs) : Tints fills (us ++ vs) :=
  List.forall_mem_append.2 ⟨hu, hv⟩

/-- Only the marks count. -/
theorem tints_iff_marked : Tints fills us ↔ Tints fills (marked us) := by
  refine forall_congr' fun u => ?_
  rw [marked, List.mem_filter]
  constructor
  · exact fun h hu => h hu.1
  · exact fun h hu hbackground => h ⟨hu, by rw [hbackground, Bool.or_true]⟩ hbackground

theorem tints_of_marked (h : marked us = []) : Tints fills us :=
  tints_iff_marked.2 (h ▸ nofun)

theorem tints_position : Tints fills (position item parent) := by
  unfold position
  split_ifs
  · simp [Tints, Utility.isBackground]
  · exact nofun

theorem tints_background : Tints fills (background fills) := by
  rw [tints_iff_marked, marked_background]
  cases hlast : fills.getLast? with
  | none => exact nofun
  | some fill =>
    cases fill with
    | solid fill =>
      rintro u hu -
      exact ⟨fill, List.mem_of_getLast? hlast, List.mem_singleton.1 hu⟩
    | image | gradient => exact nofun

theorem tints_paint : Tints item.fills (paint item) :=
  (tints_background.append (tints_of_marked marked_corners)).append (tints_of_marked marked_stroke)

theorem tints_childLayout : Tints fills (childLayout item children) := by
  rw [tints_iff_marked, marked_childLayout, frame]
  split_ifs
  · simp [Tints, Utility.isBackground]
  · exact nofun

/-- Where utilities only tint, an image is spelled by the variable of a colour. -/
theorem Tints.spells (h : Tints fills us) (hurl : url ∈ imageUrls settings (.ofUtilities us)) :
    ∃ fill, Fill.solid fill ∈ fills ∧ fill.Spells url := by
  rcases mem_imageUrls_iff.1 hurl with ⟨u, hu, htext⟩ | hdeclared
  · rcases Utility.eq_of_text htext with rfl | ⟨fill, hspells, rfl⟩
    · obtain ⟨fill, -, heq⟩ := h _ hu rfl
      cases heq
    · obtain ⟨fill', hfill, heq⟩ := h _ hu rfl
      cases heq
      exact ⟨fill, hfill, hspells⟩
  · cases hdeclared

end Tints

end Style

end Artboard

import Artboard.Proofs.Number.Bits
import Artboard.Proofs.Style.Tokens

/-!
# Padding of the sides

A padding is written with as few classes as possible, and means the same as one class for each side
(`classes_padding`). A class of padding is a word, a dash and a value, and the word says which sides
the value is for (`Side.namedBy`); other classes set no padding. Read in this way, the classes of a
padding give each side of positive length its spacing, once, and the other sides nothing.

Sides are put together if their lengths compare equal. A positive length compares equal to no other
one, so all sides of a class have the length that it is written with. Lengths that are not positive
are not written at all, so it does not matter that the two zeros compare equal.
-/

namespace Artboard

/-! ## Reading classes -/

/-- A side of a box. -/
inductive Side where
  | top
  | right
  | bottom
  | left
deriving Repr, DecidableEq

namespace Side

/-- The sides that a class of padding is about, by the word in front of its value. -/
def namedBy : List Char → List Side
  | ['p'] => [.top, .right, .bottom, .left]
  | ['p', 'x'] => [.right, .left]
  | ['p', 'y'] => [.top, .bottom]
  | ['p', 't'] => [.top]
  | ['p', 'r'] => [.right]
  | ['p', 'b'] => [.bottom]
  | ['p', 'l'] => [.left]
  | _ => []

/-- The padding that a class gives a side: what follows the first dash, if the word in front of that
names the side. -/
def padding? (classPrefix : String) (side : Side) (c : String) : Option String :=
  (c.toList.dropPrefix? classPrefix.toList).bind fun text =>
    match text.dropWhile (· != '-') with
    | [] => none
    | _ :: value =>
      if side ∈ namedBy (text.takeWhile (· != '-')) then some (String.ofList value) else none

/-- The paddings that the classes give a side. -/
def paddings (classPrefix : String) (side : Side) (classes : List String) : List String :=
  classes.filterMap (side.padding? classPrefix)

theorem dropPrefix?_append (classPrefix text : String) :
    (classPrefix ++ text).toList.dropPrefix? classPrefix.toList = some text.toList := by
  rw [List.dropPrefix?_eq_some_iff]
  exact ⟨classPrefix.toList, String.toList_append, by simp⟩

theorem padding?_class (classPrefix : String) (side : Side) {word value : String}
    (hword : ∀ c ∈ word.toList, (c != '-') = true) :
    side.padding? classPrefix (classPrefix ++ (word ++ "-" ++ value)) =
      if side ∈ namedBy word.toList then some value else none := by
  have htext : (word ++ "-" ++ value).toList = word.toList ++ '-' :: value.toList := by simp
  rw [padding?, dropPrefix?_append, Option.bind_some, htext,
    List.takeWhile_append_of_pos hword, List.dropWhile_append_of_pos hword]
  simp

/-- All words of padding begin with one letter. -/
theorem padding?_of_head (classPrefix : String) (side : Side) {text : String}
    (hhead : text.toList.head? ≠ some 'p') :
    side.padding? classPrefix (classPrefix ++ text) = none := by
  have hnamed : namedBy (text.toList.takeWhile (· != '-')) = [] := by
    cases htext : text.toList with
    | nil => rfl
    | cons c rest =>
      rw [htext] at hhead
      rw [List.takeWhile_cons]
      unfold namedBy
      split_ifs <;> split <;> simp_all
  rw [padding?, dropPrefix?_append, Option.bind_some, hnamed]
  split <;> simp

end Side

/-! ## Classes of padding -/

/-- The length of a padding at a side. -/
def Padding.at (p : Padding) : Side → Float
  | .top => p.top
  | .right => p.right
  | .bottom => p.bottom
  | .left => p.left

/-- Whether a length is one of padding. -/
def Extent.isPadding : Extent → Bool
  | .width | .height | .gap => false
  | _ => true

theorem Extent.dash_not_mem (extent : Extent) :
    ∀ c ∈ extent.text.toList, (c != '-') = true := by
  have hall : extent.text.toList.all (· != '-') = true := by cases extent <;> decide
  exact List.all_eq_true.1 hall

theorem Utility.text_length (settings : Settings) (extent : Extent) (x : Float) :
    (Utility.length extent x).text settings =
      extent.text ++ "-" ++ Scale.spacing settings x := rfl

/-- Whether a utility sets a padding. -/
def Utility.isPadding : Utility → Bool
  | .length extent _ => extent.isPadding
  | _ => false

/-- The classes of padding are those that begin with the letter of their words. -/
theorem Utility.head?_text_eq_iff (settings : Settings) {u : Utility} :
    (u.text settings).toList.head? = some 'p' ↔ u.isPadding = true := by
  have hbegin : u.beginning.toList.head?.map (· == 'p') = some u.isPadding := by
    cases u with
    | keyword word => cases word <;> simp only [beginning, isPadding] <;> decide
    | offset edge coordinate => cases edge <;> simp only [beginning, isPadding] <;> decide
    | length extent x => cases extent <;> simp only [beginning, isPadding] <;> decide
    | color role fill => cases role <;> simp only [beginning, isPadding] <;> decide
    | border side x => cases side <;> simp only [beginning, isPadding] <;> decide
    | radius | cornerRadius | opacity | rotation | gradient | backgroundImage | fontSize
    | fontWeight | fontKey | fontFamily | tracking | leading =>
      simp only [beginning, isPadding]
      decide
  obtain ⟨first, hfirst, hpadding⟩ := Option.map_eq_some_iff.1 hbegin
  obtain ⟨rest, hrest⟩ := u.prefix_beginning settings
  rw [← hrest, List.head?_append, hfirst, ← hpadding, beq_iff_eq]
  exact Option.some_inj

theorem Utility.text_ne_of_isPadding (settings : Settings) {u v : Utility}
    (hu : u.isPadding = true) (hv : v.isPadding = false) :
    u.text settings ≠ v.text settings := by
  intro heq
  have hhead := (head?_text_eq_iff settings).2 hu
  rw [heq, head?_text_eq_iff, hv] at hhead
  cases hhead

namespace ClassList

variable {classPrefix : String} {texts more : List String}

/-- Classes that are not there yet are put behind those that are. -/
theorem ofTexts_append (hmore : ∀ text ∈ more, text ≠ "" ∧ text ∉ texts) (hnodup : more.Nodup) :
    ofTexts classPrefix (texts ++ more) =
      ofTexts classPrefix texts ++ more.map (classPrefix ++ ·) := by
  induction more generalizing texts with
  | nil => simp
  | cons text more ih =>
    obtain ⟨⟨hne, hfresh⟩, hmore⟩ := List.forall_mem_cons.1 hmore
    obtain ⟨hother, hnodup⟩ := List.nodup_cons.1 hnodup
    have hnew : classPrefix ++ text ∉ ofTexts classPrefix texts := by
      rw [mem_ofTexts]
      rintro ⟨old, hold, -, heq⟩
      exact hfresh ((String.append_right_inj _).1 heq ▸ hold)
    have hone : ofTexts classPrefix (texts ++ [text]) =
        ofTexts classPrefix texts ++ [classPrefix ++ text] := by
      rw [ofTexts, List.foldl_append, ← ofTexts, List.foldl_cons, List.foldl_nil, add]
      simp [hne, hnew]
    have hrest : ∀ next ∈ more, next ≠ "" ∧ next ∉ texts ++ [text] := by
      refine fun next hnext => ⟨(hmore next hnext).1, ?_⟩
      rw [List.mem_append, List.mem_singleton]
      rintro (hold | rfl)
      · exact (hmore next hnext).2 hold
      · exact hother hnext
    rw [List.append_cons, ih hrest hnodup, hone]
    simp

end ClassList

namespace Style

variable {p : Padding}

/-- The words that a padding is written with, and the length of each. -/
def paddingParts (p : Padding) : List (Extent × Float) :=
  if p.top == p.bottom && p.left == p.right then
    if p.top == p.left then [(.padding, p.top)]
    else [(.paddingX, p.left), (.paddingY, p.top)]
  else
    [(.paddingTop, p.top), (.paddingRight, p.right), (.paddingBottom, p.bottom),
      (.paddingLeft, p.left)]

theorem padding_eq_map (p : Padding) :
    padding p = ((paddingParts p).filter fun part => 0 < part.2).map fun part =>
      .length part.1 part.2 := by
  unfold padding paddingParts positive
  split_ifs <;> simp [*]

/-- The words of a padding differ. -/
theorem nodup_paddingParts (p : Padding) : ((paddingParts p).map (·.1.text)).Nodup := by
  unfold paddingParts
  split_ifs <;> simp only [List.map_cons, List.map_nil] <;> decide

theorem isPadding_of_mem_padding {u : Utility} (h : u ∈ padding p) : u.isPadding = true := by
  have hparts : ∀ part ∈ paddingParts p, part.1.isPadding = true := by
    unfold paddingParts
    split_ifs <;> simp [Extent.isPadding]
  rw [padding_eq_map] at h
  obtain ⟨part, hpart, rfl⟩ := List.mem_map.1 h
  exact hparts part (List.mem_of_mem_filter hpart)

/-- Each class of a padding has a word of its own, so no class is there twice. -/
theorem nodup_padding (settings : Settings) (p : Padding) :
    ((padding p).map (Utility.text settings)).Nodup := by
  have hword (part : Extent × Float) :
      ((Utility.length part.1 part.2).text settings).toList.takeWhile (· != '-') =
        part.1.text.toList := by
    simp [Utility.text_length, List.takeWhile_append_of_pos part.1.dash_not_mem]
  refine List.Nodup.of_map (fun text => text.toList.takeWhile (· != '-')) ?_
  simp only [padding_eq_map, List.map_map, Function.comp_def, hword]
  have hwords := (nodup_paddingParts p).map (f := String.toList) fun _ _ => String.toList_inj.1
  rw [List.map_map] at hwords
  exact hwords.sublist (List.filter_sublist.map _)

/-- What a length comes to on the sides it is for: its spacing, if it is positive. -/
def given (settings : Settings) (x : Float) : List String :=
  if 0 < x then [Scale.spacing settings x] else []

/-- Lengths that compare equal come to the same. -/
theorem given_of_beq (settings : Settings) {x y : Float} (h : (x == y) = true) :
    given settings x = given settings y := by
  unfold given
  by_cases hx : 0 < x
  · rw [Number.eq_of_beq h hx]
  · by_cases hy : 0 < y
    · rw [Number.eq_of_beq (Number.beq_comm.trans h) hy]
    · rw [if_neg hx, if_neg hy]

/-- However the sides are put together, each of them is named once, with a length equal to its
own. -/
theorem flatMap_paddingParts (settings : Settings) (p : Padding) (side : Side) :
    ((paddingParts p).flatMap fun part =>
        if side ∈ Side.namedBy part.1.text.toList then given settings part.2 else []) =
      given settings (p.at side) := by
  unfold paddingParts
  by_cases hpairs : (p.top == p.bottom && p.left == p.right) = true
  · rw [if_pos hpairs]
    obtain ⟨htop, hleft⟩ := Bool.and_eq_true_iff.1 hpairs
    have hbottom := given_of_beq settings htop
    have hright := given_of_beq settings hleft
    by_cases hall : (p.top == p.left) = true
    · rw [if_pos hall]
      have hacross := given_of_beq settings hall
      cases side <;>
        simp [Side.namedBy, Extent.text, Padding.at, ← hbottom, ← hright, ← hacross]
    · rw [if_neg hall]
      cases side <;> simp [Side.namedBy, Extent.text, Padding.at, ← hbottom, ← hright]
  · rw [if_neg hpairs]
    cases side <;> simp [Side.namedBy, Extent.text, Padding.at]

theorem paddings_padding (settings : Settings) (p : Padding) (side : Side) :
    side.paddings settings.classPrefix
        ((padding p).map fun u => settings.classPrefix ++ u.text settings) =
      given settings (p.at side) := by
  have hpart (part : Extent × Float) : side.padding? settings.classPrefix
      (settings.classPrefix ++ (Utility.length part.1 part.2).text settings) =
      if side ∈ Side.namedBy part.1.text.toList then some (Scale.spacing settings part.2)
      else none := by
    rw [Utility.text_length]
    exact side.padding?_class _ part.1.dash_not_mem
  rw [← flatMap_paddingParts, Side.paddings, padding_eq_map, List.map_map, List.filterMap_map,
    List.filterMap_filter, List.filterMap_eq_flatMap_toList]
  refine List.flatMap_congr fun part _ => ?_
  rw [Function.comp_apply, Function.comp_apply, hpart, given]
  split_ifs <;> simp_all

/-- Classes of other utilities set no padding. -/
theorem paddings_others {others : List Utility} (h : ∀ u ∈ others, u.isPadding = false)
    (settings : Settings) (side : Side) :
    side.paddings settings.classPrefix ((ofUtilities others).classes settings) = [] := by
  rw [Side.paddings, List.filterMap_eq_nil_iff]
  intro c hc
  obtain ⟨u, hu, rfl⟩ := mem_classes.1 hc
  refine side.padding?_of_head _ fun hhead => ?_
  rw [Utility.head?_text_eq_iff, h u hu] at hhead
  cases hhead

/-- **Padding means the same as one class for each side**, whatever its lengths are, and whatever
utilities without padding come before it. The classes that it adds give each side of positive length
its spacing, once, and give the other sides nothing; nor do the classes that are there already. -/
theorem classes_padding (settings : Settings) {others : List Utility}
    (h : ∀ u ∈ others, u.isPadding = false) (p : Padding) :
    ∃ added, (ofUtilities (others ++ padding p)).classes settings =
        (ofUtilities others).classes settings ++ added ∧
      ∀ side : Side,
        side.paddings settings.classPrefix added =
          (if 0 < p.at side then [Scale.spacing settings (p.at side)] else []) ∧
        side.paddings settings.classPrefix ((ofUtilities others).classes settings) = [] := by
  refine ⟨(padding p).map fun u => settings.classPrefix ++ u.text settings, ?_, fun side =>
    ⟨?_, ?_⟩⟩
  · have hnew : ∀ text ∈ (padding p).map (Utility.text settings),
        text ≠ "" ∧ text ∉ others.map (Utility.text settings) := by
      rw [List.forall_mem_map]
      refine fun u hu => ⟨u.text_ne_empty settings, fun hmem => ?_⟩
      obtain ⟨other, hother, heq⟩ := List.mem_map.1 hmem
      exact Utility.text_ne_of_isPadding settings (isPadding_of_mem_padding hu) (h other hother)
        heq.symm
    simp only [classes, ofUtilities, List.map_append]
    rw [ClassList.ofTexts_append hnew (nodup_padding settings p), List.map_map]
    rfl
  · exact paddings_padding settings p side
  · exact paddings_others h settings side

/-- A row with a gap, whose padding is 8 pixels to the left and the right, and 4 above and below. -/
theorem classes_padding_of_row :
    let others : List Utility := [.keyword .flex, .length .gap 8]
    let p : Padding := { top := 4, right := 8, bottom := 4, left := 8 }
    (∀ u ∈ others, u.isPadding = false) ∧
      (∃ added, (ofUtilities (others ++ padding p)).classes {} =
          (ofUtilities others).classes {} ++ added ∧
        ∀ side : Side,
          side.paddings "" added =
            (if 0 < p.at side then [Scale.spacing {} (p.at side)] else []) ∧
          side.paddings "" ((ofUtilities others).classes {}) = []) ∧
      (ofUtilities (others ++ padding p)).classes {} = ["flex", "gap-2", "px-2", "py-1"] := by
  intro others p
  have hothers : ∀ u ∈ others, u.isPadding = false := by decide
  exact ⟨hothers, classes_padding {} hothers p, by decide +kernel⟩

end Style

end Artboard

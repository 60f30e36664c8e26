import Artboard.Color.Palette
import Mathlib.Data.List.MinMax
import Mathlib.Tactic.Linarith
import Mathlib.Tactic.SplitIfs

/-!
# The nearest entry of the palette

The name of a colour is that of the first nearest entry (`Rgba.named_first_nearest`): entries
declared before it are further away, and no entry is nearer. The search keeps the best entry so far
and lets a strictly nearer one take its place, so it finds what `List.argmin` finds
(`Rgba.argmin_entries`).

Distances are computed in words of 32 bits, and no step of that overflows (`Channels.distance?`):
differences of bytes are small, so their squares and the sum of three of these are.
-/

namespace Artboard

/-! ## Words of 32 bits -/

namespace Word

/-- The difference of two words with a sign, unless it overflows. -/
def sub? (x y : Int32) : Option Int32 :=
  if x.toBitVec.ssubOverflow y.toBitVec then none else some (x - y)

/-- The product of two words with a sign, unless it overflows. -/
def mul? (x y : Int32) : Option Int32 :=
  if x.toBitVec.smulOverflow y.toBitVec then none else some (x * y)

/-- The sum of two words without a sign, unless it overflows. -/
def add? (x y : UInt32) : Option UInt32 :=
  if x.toBitVec.uaddOverflow y.toBitVec then none else some (x + y)

theorem exists_sub?_eq {x y : Int32} (hlow : -2 ^ 31 ≤ x.toInt - y.toInt)
    (hhigh : x.toInt - y.toInt < 2 ^ 31) :
    ∃ z, sub? x y = some z ∧ z.toInt = x.toInt - y.toInt := by
  have hfits : ¬x.toBitVec.ssubOverflow y.toBitVec = true := by
    simp only [BitVec.ssubOverflow, Bool.or_eq_true, decide_eq_true_eq, not_or]
    exact ⟨not_le.2 hhigh, not_lt.2 hlow⟩
  exact ⟨x - y, if_neg hfits, BitVec.toInt_sub_of_not_ssubOverflow hfits⟩

theorem exists_mul?_eq {x y : Int32} (hlow : -2 ^ 31 ≤ x.toInt * y.toInt)
    (hhigh : x.toInt * y.toInt < 2 ^ 31) :
    ∃ z, mul? x y = some z ∧ z.toInt = x.toInt * y.toInt := by
  have hfits : ¬x.toBitVec.smulOverflow y.toBitVec = true := by
    simp only [BitVec.smulOverflow, Bool.or_eq_true, decide_eq_true_eq, not_or]
    exact ⟨not_le.2 hhigh, not_lt.2 hlow⟩
  exact ⟨x * y, if_neg hfits, BitVec.toInt_mul_of_not_smulOverflow hfits⟩

theorem exists_add?_eq {x y : UInt32} (h : x.toNat + y.toNat < 2 ^ 32) :
    ∃ z, add? x y = some z ∧ z.toNat = x.toNat + y.toNat := by
  have hfits : ¬x.toBitVec.uaddOverflow y.toBitVec = true := by
    simp only [BitVec.uaddOverflow, decide_eq_true_eq]
    exact not_le.2 h
  exact ⟨x + y, if_neg hfits, BitVec.toNat_add_of_not_uaddOverflow hfits⟩

/-- Words are summed up without an overflow if their sum as numbers is no overflow. -/
theorem foldlM_add?_eq {ws : List UInt32} {start : UInt32}
    (h : start.toNat + (ws.map UInt32.toNat).sum < 2 ^ 32) :
    (ws.foldlM add? start).map UInt32.toNat =
      some (start.toNat + (ws.map UInt32.toNat).sum) := by
  induction ws generalizing start with
  | nil => rfl
  | cons w ws ih =>
    rw [List.map_cons, List.sum_cons] at h
    obtain ⟨next, hnext, hnext'⟩ := exists_add?_eq (x := start) (y := w) (by omega)
    rw [List.foldlM_cons, hnext, Option.bind_eq_bind, Option.bind_some, ih (by omega), hnext',
      List.map_cons, List.sum_cons, Nat.add_assoc]

/-- A word that is not negative stays the same number without its sign. -/
theorem toNat_toUInt32 {x : Int32} {n : Nat} (h : x.toInt = n) : x.toUInt32.toNat = n := by
  have hnonneg : 0 ≤ x := by
    rw [Int32.le_iff_toInt_le, h]
    exact Int.natCast_nonneg n
  rw [Int32.toNat_toUInt32_of_le hnonneg]
  show x.toInt.toNat = n
  rw [h, Int.toNat_natCast]

end Word

/-! ## Distances -/

namespace Channels

open Word

/-- The square of the difference of two bytes, computed in words of 32 bits; nothing if a step
overflows. -/
def squaredGap? (x y : Nat) : Option UInt32 := do
  let gap ← sub? (Int32.ofNat x) (Int32.ofNat y)
  let square ← mul? gap gap
  return square.toUInt32

/-- The distance, computed in the same way. -/
def distance? (a b : Channels) : Option UInt32 := do
  let squares ← (a.toList.zip b.toList).mapM fun (x, y) => squaredGap? x y
  squares.foldlM add? 0

variable {x y : Nat} {a b : Channels}

theorem squaredGap_eq_zero_iff : squaredGap x y = 0 ↔ x = y := by
  rw [squaredGap, mul_self_eq_zero]
  omega

theorem distance_eq_zero_iff : a.distance b = 0 ↔ a = b := by
  obtain ⟨red, green, blue⟩ := a
  obtain ⟨red', green', blue'⟩ := b
  simp [distance, squaredGap_eq_zero_iff, and_assoc]

theorem squaredGap_le (hx : x < 256) (hy : y < 256) : squaredGap x y ≤ 255 * 255 := by
  have hgap : ((x : Int) - y).natAbs ≤ 255 := by omega
  exact Nat.mul_le_mul hgap hgap

theorem exists_squaredGap?_eq (hx : x < 256) (hy : y < 256) :
    ∃ w, squaredGap? x y = some w ∧ w.toNat = squaredGap x y := by
  have hx' : (Int32.ofNat x).toInt = x := Int32.toInt_ofNat_of_lt (by omega)
  have hy' : (Int32.ofNat y).toInt = y := Int32.toInt_ofNat_of_lt (by omega)
  obtain ⟨gap, hgap, hgap'⟩ :=
    exists_sub?_eq (x := Int32.ofNat x) (y := Int32.ofNat y) (by omega) (by omega)
  have hsquare : gap.toInt * gap.toInt = squaredGap x y := by
    rw [hgap', hx', hy', squaredGap, ← Int.natAbs_mul_self]
  have hsmall := squaredGap_le hx hy
  obtain ⟨square, hmul, hmul'⟩ := exists_mul?_eq (x := gap) (y := gap) (by omega) (by omega)
  refine ⟨square.toUInt32, ?_, toNat_toUInt32 (hmul'.trans hsquare)⟩
  simp [squaredGap?, hgap, hmul]

/-- **No step of a distance overflows,** and the result is the distance. -/
theorem distance?_eq (ha : ∀ n ∈ a.toList, n < 256) (hb : ∀ n ∈ b.toList, n < 256) :
    (a.distance? b).map UInt32.toNat = some (a.distance b) := by
  obtain ⟨red, green, blue⟩ := a
  obtain ⟨red', green', blue'⟩ := b
  simp only [toList, List.forall_mem_cons] at ha hb
  obtain ⟨r, hr, hr'⟩ := exists_squaredGap?_eq ha.1 hb.1
  obtain ⟨g, hg, hg'⟩ := exists_squaredGap?_eq ha.2.1 hb.2.1
  obtain ⟨w, hw, hw'⟩ := exists_squaredGap?_eq ha.2.2.1 hb.2.2.1
  have hsquares : distance? ⟨red, green, blue⟩ ⟨red', green', blue'⟩ = [r, g, w].foldlM add? 0 := by
    simp [distance?, toList, hr, hg, hw]
  have hr_le := squaredGap_le ha.1 hb.1
  have hg_le := squaredGap_le ha.2.1 hb.2.1
  have hb_le := squaredGap_le ha.2.2.1 hb.2.2.1
  have hsum : ([r, g, w].map UInt32.toNat).sum =
      distance ⟨red, green, blue⟩ ⟨red', green', blue'⟩ := by
    simp [distance, hr', hg', hw', Nat.add_assoc]
  have hsmall : distance ⟨red, green, blue⟩ ⟨red', green', blue'⟩ ≤ 3 * (255 * 255) := by
    simp only [distance]
    omega
  have hzero : (0 : UInt32).toNat = 0 := rfl
  rw [hsquares, foldlM_add?_eq (by omega), hsum, hzero, Nat.zero_add]

end Channels

/-! ## The first nearest entry -/

/-- The search that lets a smaller one take the place of the best so far. -/
theorem argmin_cons_eq_foldl {α : Type*} (f : α → Nat) (a : α) (l : List α) :
    (a :: l).argmin f =
      some (l.foldl (fun best next => if f next < f best then next else best) a) := by
  show l.foldl (List.argAux fun b c => f b < f c) (some a) = _
  refine List.foldl_hom some fun best next => ?_
  exact (apply_ite some _ _ _).symm

/-- The first entry of a list that has the least value: those before it have greater values, and
those behind it have no smaller ones. -/
theorem exists_parts_of_argmin {α : Type*} [DecidableEq α] {f : α → Nat} {l : List α} {m : α}
    (h : l.argmin f = some m) :
    ∃ before after, l = before ++ m :: after ∧ (∀ a ∈ before, f m < f a) ∧
      ∀ a ∈ after, f m ≤ f a := by
  obtain ⟨before, after, rfl, hnew⟩ := List.eq_append_cons_of_mem (List.argmin_mem h)
  refine ⟨before, after, rfl, fun a ha => ?_, fun a ha => ?_⟩
  · by_contra! hle
    have hindex := List.index_of_argmin h (List.mem_append_left _ ha) hle
    rw [List.idxOf_append_of_notMem hnew, List.idxOf_cons_self, List.idxOf_append_of_mem ha]
      at hindex
    have hlt := List.idxOf_lt_length_of_mem ha
    omega
  · exact List.le_of_mem_argmin (List.mem_append_right _ (List.mem_cons_of_mem _ ha)) h

namespace Palette

/-- The nearer of two entries, the first one on a tie. -/
def nearerEntry (c : Rgba) (best next : NamedColor) : NamedColor :=
  if c.distance next.color < c.distance best.color then next else best

/-- The search carries the channels of the best entry along. -/
theorem foldl_nearer (c : Rgba) (first : NamedColor) (rest : List NamedColor) :
    (rest.map fun entry => (entry, entry.color.bytes)).foldl (nearer c.bytes)
        (first, first.color.bytes) =
      (rest.foldl (nearerEntry c) first, (rest.foldl (nearerEntry c) first).color.bytes) := by
  rw [List.foldl_map]
  refine List.foldl_hom (fun entry : NamedColor => (entry, entry.color.bytes)) fun best next => ?_
  exact (apply_ite (fun entry : NamedColor => (entry, entry.color.bytes)) _ _ _).symm

/-- An entry of the palette such that entries declared before it are further away from a colour, and
entries declared after it are no nearer. -/
def IsFirstNearest (c : Rgba) (entry : NamedColor) : Prop :=
  ∃ before after, entries = before ++ entry :: after ∧
    (∀ other ∈ before, c.distance entry.color < c.distance other.color) ∧
    ∀ other ∈ after, c.distance entry.color ≤ c.distance other.color

namespace IsFirstNearest

variable {c : Rgba} {entry : NamedColor}

/-- No entry is nearer. -/
theorem le (h : IsFirstNearest c entry) :
    ∀ other ∈ entries, c.distance entry.color ≤ c.distance other.color := by
  obtain ⟨before, after, hentries, hbefore, hafter⟩ := h
  rw [hentries, List.forall_mem_append, List.forall_mem_cons]
  exact ⟨fun other hother => (hbefore other hother).le, le_rfl, hafter⟩

/-- The first entry nearest to the colour of an entry is the first one of its bytes: only the same
bytes are at no distance. -/
theorem find?_eq {own : NamedColor} (hown : own ∈ entries)
    (h : IsFirstNearest own.color entry) :
    entries.find? (fun other => other.color.bytes = own.color.bytes) = some entry := by
  have hzero (other : NamedColor) :
      own.color.distance other.color = 0 ↔ other.color.bytes = own.color.bytes :=
    Channels.distance_eq_zero_iff.trans eq_comm
  have hentry : own.color.distance entry.color = 0 :=
    Nat.le_zero.1 ((h.le own hown).trans ((hzero own).2 rfl).le)
  obtain ⟨before, after, hentries, hbefore, -⟩ := h
  rw [List.find?_eq_some_iff_append]
  refine ⟨decide_eq_true ((hzero entry).1 hentry), before, after, hentries, fun other hother => ?_⟩
  have hfurther := hbefore other hother
  simp only [Bool.not_eq_true', decide_eq_false_iff_not, ← hzero]
  omega

end IsFirstNearest

end Palette

namespace Rgba

/-- An equation between functions: applied to a colour, it would run the search in the palette. -/
theorem named_eq : named = fun c =>
    (Palette.measured.foldl (Palette.nearer c.bytes) (⟨"black", .black⟩, Rgba.black.bytes)).1 := rfl

/-- The search finds what `List.argmin` finds. The entry that it starts with comes once more, and
does not take its own place. -/
theorem argmin_entries (c : Rgba) :
    Palette.entries.argmin (fun entry => c.distance entry.color) = some c.named := by
  have hsearch (entries rest : List NamedColor) (first : NamedColor)
      (hentries : entries = first :: rest) :
      entries.argmin (fun entry => c.distance entry.color) =
        some ((entries.map fun entry => (entry, entry.color.bytes)).foldl (Palette.nearer c.bytes)
          (first, first.color.bytes)).1 := by
    have hfirst : Palette.nearerEntry c first first = first := if_neg (lt_irrefl _)
    rw [Palette.foldl_nearer, hentries, argmin_cons_eq_foldl, List.foldl_cons, hfirst]
    rfl
  rw [named_eq]
  exact hsearch _ _ ⟨"black", .black⟩ rfl

theorem bytes_lt (c : Rgba) : ∀ n ∈ c.bytes.toList, n < 256 := by
  have hchannel (x : Float) : channelByte x < 256 := UInt8.toNat_lt _
  simp only [bytes, Channels.toList, List.forall_mem_cons]
  exact ⟨hchannel _, hchannel _, hchannel _, List.forall_mem_nil _⟩

theorem named_mem (c : Rgba) : c.named ∈ Palette.entries := List.argmin_mem c.argmin_entries

theorem isFirstNearest_named (c : Rgba) : Palette.IsFirstNearest c c.named := by
  -- Stated first: matched against the goal, the values would be looked for inside the search.
  have hparts := exists_parts_of_argmin c.argmin_entries
  exact hparts

/-- **A colour is named after the first nearest entry** of the palette, and no step of its distances
overflows 32 bits. The colour of an entry is named after the first entry of the same bytes. -/
theorem named_first_nearest (c : Rgba) :
    Palette.IsFirstNearest c c.named ∧
      (∀ other : Rgba, (c.bytes.distance? other.bytes).map UInt32.toNat = some (c.distance other)) ∧
      ∀ entry ∈ Palette.entries,
        Palette.entries.find? (fun other => other.color.bytes = entry.color.bytes) =
          some entry.color.named :=
  ⟨c.isFirstNearest_named, fun other => Channels.distance?_eq c.bytes_lt other.bytes_lt,
    fun entry hentry => entry.color.isFirstNearest_named.find?_eq hentry⟩

/-- Two entries have the bytes `#fafafa`; the one declared first is `zinc-50`. -/
theorem named_first_nearest_tie :
    let gray := ofPacked 0xfafafa
    (⟨"neutral-50", gray⟩ : NamedColor) ∈ Palette.entries ∧ gray.named.name = "zinc-50" := by
  intro gray
  have hmem : (⟨"neutral-50", gray⟩ : NamedColor) ∈ Palette.entries :=
    List.mem_of_getElem? (i := 35) (by decide +kernel)
  have hfirst := (named_first_nearest gray).2.2 _ hmem
  have hfound : (Palette.entries.find? (fun other => other.color.bytes = gray.bytes)).map (·.name) =
      some "zinc-50" := by decide +kernel
  rw [hfirst, Option.map_some, Option.some_inj] at hfound
  exact ⟨hmem, hfound⟩

end Rgba

end Artboard

import Artboard.Json.Parse
import Artboard.Proofs.Number.Finite

/-!
# Numbers of a parsed text

All numbers of a JSON value that was read from a text are finite doubles, or whole numbers of 64
bits (`representable_of_parse?`). A step of the reading machine keeps this of all the lists and
objects that are open.
-/

namespace Artboard.Json

/-- All numbers in the value are finite doubles or whole numbers of 64 bits. -/
inductive Representable : Json → Prop
  | null : Representable .null
  | bool {b : Bool} : Representable (.bool b)
  | whole {n : Int} (h : n.natAbs ≤ 2 ^ 64) : Representable (.whole n)
  | real {x : Float} (h : x.isFinite = true) : Representable (.real x)
  | text {s : String} : Representable (.text s)
  | list {items : List Json} (h : ∀ j ∈ items, Representable j) : Representable (.list items)
  | object {members : List (String × Json)} (h : ∀ m ∈ members, Representable m.2) :
    Representable (.object members)
  | unreadable : Representable .unreadable

variable {j : Json} {negative : Bool} {n : Nat} {e : Int} {cs rest : List Char}

/-! ## Tokens -/

theorem representable_realNumber : (realNumber negative n e).Representable := by
  have hzero : (0 : Float).isFinite = true := by decide
  unfold realNumber
  split
  case h_2 => exact .unreadable
  case h_1 x hx =>
    have hfinite : x.isFinite = true := by
      unfold nearestDouble? at hx
      grind
    cases negative with
    | false => exact .real hfinite
    | true => exact .real (Number.isFinite_neg hfinite)

theorem representable_wholeNumber : (wholeNumber negative n).Representable := by
  unfold wholeNumber
  split_ifs with hnegative hn hn
  · have hbound : n ≤ 2 ^ 64 := hn.2.trans (by decide)
    exact .whole (by omega)
  · exact representable_realNumber
  · have hbound : n ≤ 2 ^ 64 := Nat.le_of_lt hn
    exact .whole (by omega)
  · exact representable_realNumber

theorem representable_of_scanNumber (h : scanNumber negative cs = some (j, rest)) :
    j.Representable := by
  unfold scanNumber at h
  dsimp only at h
  split_ifs at h
  simp only [Option.bind_eq_bind, Option.bind_eq_some_iff] at h
  obtain ⟨⟨fraction, rest'⟩, -, ⟨power, rest''⟩, -, h⟩ := h
  dsimp only at h
  split_ifs at h
  · cases h
    exact representable_wholeNumber
  · cases h
    exact representable_realNumber

theorem PartialString.representable_value (s : PartialString) : s.value.Representable := by
  unfold PartialString.value
  dsimp only
  split_ifs
  · exact .text
  · exact .unreadable

theorem representable_of_scanString {s : PartialString} (h : scanString s cs = some (j, rest)) :
    j.Representable := by
  fun_induction scanString s cs with
  | case1 => cases h
  | case2 s rest =>
    cases h
    exact s.representable_value
  | _ => grind

/-- A scalar that a token holds is representable. -/
def Token.Sound : Token → Prop
  | .scalar j => j.Representable
  | _ => True

theorem sound_of_scanToken {c : Char} {token : Token} (h : scanToken c cs = some (token, rest)) :
    token.Sound := by
  have hscalar (r : Option (Json × List Char)) (hr : ∀ j rest, r = some (j, rest) → j.Representable)
      (h : (r.map fun scanned => (Token.scalar scanned.1, scanned.2)) = some (token, rest)) :
      token.Sound := by
    obtain ⟨⟨j, _⟩, hj, ⟨⟩⟩ := Option.map_eq_some_iff.1 h
    exact hr _ _ hj
  have hword (w : String) {j : Json} (hj : j.Representable)
      (h : (afterWord? w.toList cs).map (fun rest => (Token.scalar j, rest)) =
        some (token, rest)) : token.Sound := by
    obtain ⟨_, -, ⟨⟩⟩ := Option.map_eq_some_iff.1 h
    exact hj
  unfold scanToken at h
  dsimp only at h
  split at h
  case h_7 => exact hscalar _ (fun _ _ => representable_of_scanString) h
  case h_8 => exact hword _ .null h
  case h_9 => exact hword _ .bool h
  case h_10 => exact hword _ .bool h
  case h_11 => exact hscalar _ (fun _ _ => representable_of_scanNumber) h
  case h_12 =>
    split_ifs at h
    exact hscalar _ (fun _ _ => representable_of_scanNumber) h
  all_goals
    cases h
    trivial

theorem sound_of_tokensWithin {fuel : Nat} {ts : List Token}
    (h : tokensWithin fuel cs = some ts) : ∀ t ∈ ts, t.Sound := by
  fun_induction tokensWithin fuel cs generalizing ts with
  | case1 => cases h; simp
  | case2 => cases h
  | case3 => cases h; simp
  | case4 fuel c cs _ ih => exact ih h
  | case5 fuel c cs _ token rest hscan ih =>
    obtain ⟨later, hlater, rfl⟩ := Option.map_eq_some_iff.1 h
    exact List.forall_mem_cons.2 ⟨sound_of_scanToken hscan, ih hlater⟩
  | case6 => cases h

/-! ## The machine -/

/-- The parts of an open list or object are representable. -/
def Frame.Sound : Frame → Prop
  | .list items => ∀ j ∈ items, j.Representable
  | .object members | .member members _ => ∀ m ∈ members, m.2.Representable

/-- What was read last is representable if it was the whole text. -/
def Awaiting.Sound : Awaiting → Prop
  | .finish j => j.Representable
  | _ => True

structure Machine.Sound (m : Machine) : Prop where
  frames : ∀ frame ∈ m.frames, frame.Sound
  awaiting : m.awaiting.Sound

variable {m m' : Machine} {frames : List Frame} {token : Token}

theorem sound_complete (hj : j.Representable) (hframes : ∀ frame ∈ frames, frame.Sound)
    (h : Machine.complete j frames = some m) : m.Sound := by
  cases frames with
  | nil =>
    cases h
    exact ⟨hframes, hj⟩
  | cons frame frames =>
    obtain ⟨hframe, hrest⟩ := List.forall_mem_cons.1 hframes
    cases frame with
    | list items =>
      cases h
      exact ⟨List.forall_mem_cons.2 ⟨List.forall_mem_cons.2 ⟨hj, hframe⟩, hrest⟩, trivial⟩
    | member members key =>
      cases h
      exact ⟨List.forall_mem_cons.2 ⟨List.forall_mem_cons.2 ⟨hj, hframe⟩, hrest⟩, trivial⟩
    | object members => cases h

theorem exists_of_mem_mapM {α β : Type} {f : α → Option β} {as : List α} {bs : List β} {b : β}
    (h : as.mapM f = some bs) (hb : b ∈ bs) : ∃ a ∈ as, f a = some b := by
  induction as generalizing bs with
  | nil =>
    cases h
    simp at hb
  | cons a as ih =>
    simp only [List.mapM_cons, Option.bind_eq_bind, Option.bind_eq_some_iff] at h
    obtain ⟨b', hb', rest, hrest, ⟨⟩⟩ := h
    obtain rfl | hb := List.mem_cons.1 hb
    · exact ⟨a, List.mem_cons_self, hb'⟩
    · obtain ⟨a', ha', hfa⟩ := ih hrest hb
      exact ⟨a', List.mem_cons_of_mem a ha', hfa⟩

theorem representable_ofMembers {members : Members} (h : ∀ m ∈ members, m.2.Representable) :
    (ofMembers members).Representable := by
  unfold ofMembers
  split
  case h_2 => exact .unreadable
  case h_1 named hnamed =>
    refine .object fun m hm => ?_
    obtain ⟨⟨key, j⟩, hmem, hkey⟩ := exists_of_mem_mapM hnamed hm
    obtain ⟨name, -, rfl⟩ := Option.map_eq_some_iff.1 hkey
    exact h (key, j) (List.mem_reverse.1 hmem)

theorem sound_close (hframes : ∀ frame ∈ frames, frame.Sound)
    (h : Machine.close token frames = some m) : m.Sound := by
  cases frames with
  | nil => cases h
  | cons frame frames =>
    obtain ⟨hframe, hrest⟩ := List.forall_mem_cons.1 hframes
    cases frame with
    | list items =>
      cases token with
      | closeList =>
        exact sound_complete (.list fun j hj => hframe j (List.mem_reverse.1 hj)) hrest h
      | _ => cases h
    | object members =>
      cases token with
      | closeObject => exact sound_complete (representable_ofMembers hframe) hrest h
      | _ => cases h
    | member members key => cases h

/-- **A step keeps the numbers representable.** -/
theorem Machine.Sound.step (hm : m.Sound) (ht : token.Sound) (h : m.step token = some m') :
    m'.Sound := by
  have hopen {frame : Frame} {awaiting : Awaiting} (hframe : frame.Sound)
      (hawaiting : awaiting.Sound) : (Machine.mk (frame :: m.frames) awaiting).Sound :=
    ⟨List.forall_mem_cons.2 ⟨hframe, hm.frames⟩, hawaiting⟩
  unfold Machine.step at h
  split at h
  · exact sound_complete ht hm.frames h
  · cases h
    exact hopen (by simp [Frame.Sound]) trivial
  · cases h
    exact hopen (by simp [Frame.Sound]) trivial
  · exact sound_close hm.frames h
  · cases h
    exact ⟨hm.frames, trivial⟩
  · cases h
    exact ⟨hm.frames, trivial⟩
  · exact sound_close hm.frames h
  · split at h
    · next members frames hframes =>
      cases h
      obtain ⟨hmembers, hrest⟩ := List.forall_mem_cons.1 (hframes ▸ hm.frames)
      exact ⟨List.forall_mem_cons.2 ⟨hmembers, hrest⟩, trivial⟩
    · cases h
  · split at h
    · cases h
      exact ⟨hm.frames, trivial⟩
    · cases h
      exact ⟨hm.frames, trivial⟩
    · cases h
  · exact sound_close hm.frames h
  · cases h

theorem Machine.Sound.foldlM {ts : List Token} (hm : m.Sound) (ht : ∀ t ∈ ts, t.Sound)
    (h : ts.foldlM Machine.step m = some m') : m'.Sound := by
  induction ts generalizing m with
  | nil =>
    cases h
    exact hm
  | cons token ts ih =>
    obtain ⟨hfirst, hrest⟩ := List.forall_mem_cons.1 ht
    rw [List.foldlM_cons] at h
    obtain ⟨next, hnext, h⟩ := Option.bind_eq_some_iff.1 h
    exact ih (hm.step hfirst hnext) hrest h

/-- **What is read from a text has only numbers that can be represented.** -/
theorem representable_of_parse? {text : String} (h : parse? text = some j) :
    j.Representable := by
  unfold parse? parseChars? at h
  simp only [Option.bind_eq_bind, Option.bind_eq_some_iff] at h
  obtain ⟨ts, hts, m, hm, h⟩ := h
  have hsound : m.Sound := by
    refine Machine.Sound.foldlM ⟨?_, ?_⟩ (sound_of_tokensWithin hts) hm
    · simp
    · trivial
  have hawaiting := hsound.awaiting
  split at h
  · next hfinish =>
    cases h
    rwa [hfinish] at hawaiting
  · cases h

end Artboard.Json

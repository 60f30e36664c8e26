import Artboard.Proofs.Conversion.Emission
import Artboard.Proofs.Conversion.Transparency
import Mathlib.Data.List.Nodup

/-!
# Services without a memory

Let the design tool's answers depend on the request alone, and let assets not go through a pipeline.
Then only bitmaps could make one conversion depend on another, and they do not, as long as each is
the answer to its own request (`World.Honest`). So what is drawn for some nodes is also drawn for
nodes alike, among whatever other nodes they stand (`EmitContext.emitAll_honest`).
-/

namespace Artboard

open Pass Text

/-- What is remembered of an export, unless the design tool panics. -/
def Reply.remembered : Reply Bytes → Except Panic (Option Bytes)
  | .done bytes => .ok (some bytes)
  | .failed => .ok none
  | .panicked message => .error ⟨message⟩

/-- Addresses tell the items apart, and every bitmap that is filed under the address of an item is
the answer to the request for it. -/
structure World.Honest (provide : ExportRequest → Reply Bytes) (items : List Item) (w : World) :
    Prop where
  apart : ∀ a ∈ items, ∀ b ∈ items, a.address = b.address → a = b
  known : ∀ item ∈ items, ∀ withChildren bytes,
    w.bitmaps.lookup (item.address, withChildren) = some bytes →
      (provide ⟨item.id, .png withChildren⟩).remembered = .ok bytes

namespace World.Honest

variable {provide : ExportRequest → Reply Bytes} {items : List Item} {w w' : World}

theorem init (hnodup : (items.map (·.address)).Nodup) (hbitmaps : w.bitmaps = []) :
    w.Honest provide items where
  apart a ha b hb := List.inj_on_of_nodup_map hnodup ha hb
  known item _ withChildren bytes hlookup := by
    rw [hbitmaps] at hlookup
    cases hlookup

theorem congr (h : w.Honest provide items) (hbitmaps : w'.bitmaps = w.bitmaps) :
    w'.Honest provide items :=
  ⟨h.apart, hbitmaps ▸ h.known⟩

theorem file (h : w.Honest provide items) {item : Item} (hitem : item ∈ items)
    {withChildren : Bool} {bytes : Option Bytes}
    (hreply : (provide ⟨item.id, .png withChildren⟩).remembered = .ok bytes)
    (hbitmaps : w'.bitmaps = ((item.address, withChildren), bytes) :: w.bitmaps) :
    w'.Honest provide items := by
  refine ⟨h.apart, fun other hother b known hlookup => ?_⟩
  rw [hbitmaps, List.lookup_cons] at hlookup
  by_cases hkey : ((other.address, b) == (item.address, withChildren)) = true
  · rw [hkey] at hlookup
    obtain ⟨haddress, rfl⟩ := Prod.mk.inj (beq_iff_eq.1 hkey)
    obtain rfl := h.apart other hother item hitem haddress
    obtain rfl : bytes = known := Option.some.inj hlookup
    exact hreply
  · rw [Bool.eq_false_iff.2 hkey] at hlookup
    exact h.known other hother b known hlookup

end World.Honest

namespace Pass

variable {provide : ExportRequest → Reply Bytes} {items items' : List Item}

/-- In an honest world a bitmap is what the design tool answers. -/
theorem runIn_bitmap_of_honest (names : String → Option String) {w : World}
    (h : w.Honest provide items) {item : Item} (hitem : item ∈ items) (withChildren : Bool) :
    let result := (bitmap (.ofRequests names provide) item withChildren).runIn w
    result.1 = (provide ⟨item.id, .png withChildren⟩).remembered ∧
      result.2.Honest provide items := by
  dsimp only
  rw [runIn_bitmap]
  cases hlookup : w.bitmaps.lookup (item.address, withChildren) with
  | some known => exact ⟨(h.known item hitem withChildren known hlookup).symm, h⟩
  | none =>
    rw [runIn_ask]
    simp only [Host.ofRequests]
    cases hreply : provide ⟨item.id, .png withChildren⟩ with
    | done bytes => exact ⟨rfl, h.file hitem (by rw [hreply]; rfl) rfl⟩
    | failed => exact ⟨rfl, h.file hitem (by rw [hreply]; rfl) rfl⟩
    | panicked message => exact ⟨rfl, h.congr rfl⟩

/-- Two honest worlds, each for items of its own. -/
def BothHonest (provide : ExportRequest → Reply Bytes) (items items' : List Item)
    (w w' : World) : Prop :=
  w.Honest provide items ∧ w'.Honest provide items'

theorem bitmap_honest (names : String → Option String) {item item' : Item} (hitem : item ∈ items)
    (hitem' : item' ∈ items') (hid : item'.id = item.id) (withChildren : Bool) :
    InStep (BothHonest provide items items') (BothHonest provide items items') Eq
      (bitmap (.ofRequests names provide) item withChildren)
      (bitmap (.ofRequests names provide) item' withChildren) := by
  rw [← lockstep_iff_inStep]
  rintro w w' ⟨hw, hw'⟩
  obtain ⟨hvalue, hworld⟩ := runIn_bitmap_of_honest names hw hitem withChildren
  obtain ⟨hvalue', hworld'⟩ := runIn_bitmap_of_honest names hw' hitem' withChildren
  refine ⟨?_, hworld, hworld'⟩
  rw [hvalue, hvalue', hid]
  cases (provide ⟨item.id, .png withChildren⟩).remembered with
  | ok bytes => exact .value rfl
  | error panic => exact .panic panic

end Pass

namespace EmitContext

variable {items items' : List Item} {nodes nodes' : List Node}

/-- Nodes alike are drawn in step in honest worlds, be there other nodes or not. -/
theorem emitAll_honest (settings : Settings) (names : String → Option String)
    (provide : ExportRequest → Reply Bytes) (answer : String → Option String) (images : ImageMode)
    (parent : ParentContext) (h : Node.AlikeAll (fun _ _ => True) nodes nodes')
    (hitems : ∀ item ∈ Node.itemsOfAll nodes, item ∈ items)
    (hitems' : ∀ item ∈ Node.itemsOfAll nodes', item ∈ items') :
    InStep (BothHonest provide items items') (BothHonest provide items items')
      (Fragment.SameBut fun _ _ => True)
      (emitAll ⟨settings, .ofRequests names provide, .direct answer, images⟩ parent nodes)
      (emitAll ⟨settings, .ofRequests names provide, .direct answer, images⟩ parent nodes') := by
  refine emitAll_inStep (fun uploads kind bytes => .pure rfl) parent nodes h
    fun item hitem address' _ hitem' withChildren => ?_
  exact bitmap_honest names (hitems item hitem) (hitems' _ hitem') rfl withChildren

end EmitContext

end Artboard

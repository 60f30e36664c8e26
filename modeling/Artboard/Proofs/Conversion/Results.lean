import Artboard.Conversion.Normalize
import Artboard.Proofs.Conversion.Passes

/-!
# What scenes become

Normalization succeeds or fails as a whole. Where it succeeds, every node stems from a scene of the
selection, at the address that its item remembers (`normalize_exists_of_mem`).

**The relation** (`NormalizeContext.Becomes`). Its constructors are the ways a scene can go: it is
hidden, stands alone, is drawn as one vector, or stands around the nodes of the scenes inside it.
-/

namespace Artboard

/-! ## Scenes at an address -/

namespace Scene

/-- The scene at an address below a scene. -/
def at? : Address → Scene → Option Scene
  | [], s => some s
  | i :: path, .node _ children => children[i]?.bind (at? path)

end Scene

namespace Selection

def at? (selection : Selection) : Address → Option Scene
  | [] => none
  | i :: path => selection[i]?.bind (Scene.at? path)

end Selection

theorem LayerTag.isSuppressed_of_isPrompt {tag : LayerTag} (h : tag.isPrompt = true) :
    tag.isSuppressed = true := by
  cases tag <;> first | rfl | cases h

/-- Whether a layer leaves a node. -/
def Layer.isKept (l : Layer) : Bool := l.visible || l.tag.value.isPrompt

theorem Layer.isKept_eq_false_iff (l : Layer) :
    l.isKept = false ↔ (!l.visible && !l.tag.value.isPrompt) = true := by
  rw [isKept, ← Bool.not_or, Bool.not_eq_true']

theorem Layer.isKept_iff (l : Layer) :
    l.isKept = true ↔ ¬(!l.visible && !l.tag.value.isPrompt) = true := by
  rw [← l.isKept_eq_false_iff, Bool.not_eq_false]

namespace NormalizeContext

open Pass

/-! ## Items of layers -/

theorem isSuppressed_item (cx : NormalizeContext) (s : Scene) (address : Address)
    (origin : Origin) :
    (cx.item s address origin).value.tag.isSuppressed = s.layer.tag.value.isSuppressed := by
  simp only [item]
  cases s.layer.tag.value <;> rfl

/-- What does not look at the content of texts can be read off the type of a layer. -/
theorem apply_kind_item {α : Sort*} (f : NodeKind → α) (hf : ∀ c c', f (.text c) = f (.text c'))
    (cx : NormalizeContext) (s : Scene) (address : Address) (origin : Origin) :
    f (cx.item s address origin).value.kind = f (NodeKind.ofType s.layer.type) := by
  simp only [item, kindOf]
  split
  case h_1 htext =>
    rw [htext]
    exact hf _ _
  case h_2 => rfl

theorem isLeaf_item (cx : NormalizeContext) (s : Scene) (address : Address) (origin : Origin) :
    (cx.item s address origin).value.kind.isLeaf = (NodeKind.ofType s.layer.type).isLeaf :=
  apply_kind_item NodeKind.isLeaf (fun _ _ => rfl) cx s address origin

theorem originInside_item (cx : NormalizeContext) (s : Scene) (address : Address)
    (origin : Origin) :
    originInside s.layer (cx.item s address origin).value.kind =
      originInside s.layer (NodeKind.ofType s.layer.type) :=
  apply_kind_item (originInside s.layer) (fun _ _ => rfl) cx s address origin

/-! ## The relation -/

mutual

/-- The node that comes of a scene, if any. -/
inductive Becomes (cx : NormalizeContext) :
    Nat → Origin → Address → Scene → Option Node → Prop
  | hidden {depth : Nat} {origin : Origin} {address : Address} {l : Layer} {children : List Scene}
      (hfault : fault? l depth origin = none) (hkept : l.isKept = false) :
      Becomes cx depth origin address (.node l children) none
  /-- Nothing inside it can be drawn. -/
  | alone {depth : Nat} {origin : Origin} {address : Address} {l : Layer} {children : List Scene}
      {item : Item} (hfault : fault? l depth origin = none) (hkept : l.isKept = true)
      (hitem : (cx.item (.node l children) address origin).value = item)
      (halone : (item.tag.isSuppressed || item.kind.isLeaf) = true) :
      Becomes cx depth origin address (.node l children) (some (.node item []))
  | vector {depth : Nat} {origin : Origin} {address : Address} {l : Layer} {children : List Scene}
      {item : Item} (artifact : Artifact) (hfault : fault? l depth origin = none)
      (hkept : l.isKept = true)
      (hitem : (cx.item (.node l children) address origin).value = item)
      (hinside : (item.tag.isSuppressed || item.kind.isLeaf) = false)
      (hflattens : cx.flattens (.node l children) item = true) :
      Becomes cx depth origin address (.node l children)
        (some (.node { item with artifact := some artifact } []))
  | around {depth : Nat} {origin : Origin} {address : Address} {l : Layer} {children : List Scene}
      {item : Item} {inside : List Node} (hfault : fault? l depth origin = none)
      (hkept : l.isKept = true)
      (hitem : (cx.item (.node l children) address origin).value = item)
      (hinside : (item.tag.isSuppressed || item.kind.isLeaf) = false)
      (hchildren :
        AllBecome cx (depth + 1) (originInside l item.kind) address 0 children inside) :
      Becomes cx depth origin address (.node l children) (some (.node item inside))

/-- The nodes that come of siblings, the first of which stands at a position in its list. -/
inductive AllBecome (cx : NormalizeContext) :
    Nat → Origin → Address → Nat → List Scene → List Node → Prop
  | nil {depth : Nat} {origin : Origin} {parent : Address} {position : Nat} :
      AllBecome cx depth origin parent position [] []
  | cons {depth : Nat} {origin : Origin} {parent : Address} {position : Nat} {s : Scene}
      {rest : List Scene} {n? : Option Node} {nodes : List Node}
      (hfirst : Becomes cx depth origin (parent ++ [position]) s n?)
      (hrest : AllBecome cx depth origin parent (position + 1) rest nodes) :
      AllBecome cx depth origin parent position (s :: rest) (n?.toList ++ nodes)

end

variable {cx : NormalizeContext}

/-! ## Normalization keeps to it -/

theorem not_flattens (hvectors : cx.settings.embedVectors = false) {s : Scene} {item : Item} :
    ¬cx.flattens s item = true := by simp [flattens, hvectors]

theorem flattened_gives (cx : NormalizeContext) (s : Scene) (item : Item) :
    Gives (cx.flattened s item) fun artifact => artifact ≠ none → cx.flattens s item = true := by
  rw [flattened_eq]
  split_ifs with hflattens
  · exact (Gives.trivial _).mono fun _ _ _ => hflattens
  · exact .pure fun h => absurd rfl h

/-- Siblings are gathered only if none of them is at fault. -/
theorem gather_cons_eq_ok {first : Converted} {rest : List Converted} {all : Warned (List Node)}
    (h : gather (first :: rest) = .ok all) :
    ∃ node? others, first = .ok node? ∧ gather rest = .ok others ∧
      all.value = (node?.map (·.value)).toList ++ others.value := by
  rcases first with error | node?
  · exact absurd h nofun
  rcases hrest : gather rest with error | others
  · rw [gather, hrest] at h
    exact absurd h nofun
  · rw [gather, hrest] at h
    refine ⟨node?, others, rfl, rfl, ?_⟩
    cases node? <;> obtain rfl := Except.ok.inj h <;> rfl

mutual

/-- The induction is that of the tree, and the cases are those of `convert`. -/
theorem convert_becomes (cx : NormalizeContext) (depth : Nat) (origin : Origin)
    (address : Address) (s : Scene) :
    Gives (cx.convert depth origin address s) fun result =>
      ∀ node?, result = .ok node? →
        cx.Becomes depth origin address s (node?.map (·.value)) := by
  match s with
  | .node l children =>
    rw [convert_node]
    cases hfault : fault? l depth origin with
    | some fault => exact .pure nofun
    | none =>
      show Gives (if _ then _ else if _ then _ else _) _
      split_ifs with hhidden halone
      · refine .pure ?_
        rintro _ ⟨⟩
        exact .hidden hfault (l.isKept_eq_false_iff.2 hhidden)
      all_goals rw [← l.isKept_iff] at hhidden
      · refine .pure ?_
        rintro _ ⟨⟩
        exact .alone hfault hhidden rfl halone
      · rw [Bool.not_eq_true] at halone
        refine (cx.flattened_gives _ _).bind fun artifact hartifact => ?_
        cases artifact with
        | some artifact =>
          refine .pure ?_
          rintro _ ⟨⟩
          exact .vector artifact hfault hhidden rfl halone (hartifact nofun)
        | none =>
          refine (convertAll_become cx (depth + 1) _ address 0 children).bind fun inside hall => ?_
          refine .pure ?_
          intro node? hnode
          rcases hinside : gather inside with error | nodes
          · rw [hinside] at hnode
            exact absurd hnode nofun
          · rw [hinside] at hnode
            obtain rfl := Except.ok.inj hnode
            exact .around hfault hhidden rfl halone (hall nodes hinside)

theorem convertAll_become (cx : NormalizeContext) (depth : Nat) (origin : Origin)
    (parent : Address) (position : Nat) (scenes : List Scene) :
    Gives (cx.convertAll depth origin parent position scenes) fun results =>
      ∀ nodes, gather results = .ok nodes →
        cx.AllBecome depth origin parent position scenes nodes.value := by
  match scenes with
  | [] =>
    rw [convertAll_nil]
    refine .pure ?_
    rintro _ ⟨⟩
    exact .nil
  | s :: rest =>
    rw [convertAll_cons]
    refine (convert_becomes cx depth origin (parent ++ [position]) s).bind fun first hfirst => ?_
    refine (convertAll_become cx depth origin parent (position + 1) rest).bind fun others hrest => ?_
    refine .pure fun nodes hnodes => ?_
    obtain ⟨node?, nodes', rfl, hothers, hvalue⟩ := gather_cons_eq_ok hnodes
    rw [hvalue]
    exact .cons (hfirst node? rfl) (hrest nodes' hothers)

end

/-- **The nodes of a normalization are what the selected scenes become.** -/
theorem normalize_become (cx : NormalizeContext) (selection : Selection) :
    Gives (cx.normalize selection) fun result =>
      ∀ nodes, result = .ok nodes → cx.AllBecome 0 {} [] 0 selection nodes.value := by
  rw [normalize_eq]
  exact (convertAll_become cx 0 {} [] 0 selection).bind fun _ hresults => .pure hresults

/-! ## Where nodes come from -/

/-- The item of a scene at an address, which may have got a vector. -/
inductive ItemOf (cx : NormalizeContext) (address : Address) (s : Scene) : Item → Prop
  | plain (origin : Origin) : ItemOf cx address s (cx.item s address origin).value
  | vector (origin : Origin) (artifact : Artifact)
      (hflattens : cx.flattens s (cx.item s address origin).value = true) :
      ItemOf cx address s
        { (cx.item s address origin).value with artifact := some artifact }

theorem ItemOf.address_eq {address : Address} {s : Scene} {item : Item}
    (h : cx.ItemOf address s item) : item.address = address := by
  cases h <;> rfl

theorem itemsOfAll_append (nodes others : List Node) :
    Node.itemsOfAll (nodes ++ others) = Node.itemsOfAll nodes ++ Node.itemsOfAll others := by
  induction nodes with
  | nil => rfl
  | cons n rest ih => rw [List.cons_append, Node.itemsOfAll, Node.itemsOfAll, ih, List.append_assoc]

mutual

/-- Every item of a scene's tree of nodes is that of a scene below it. -/
theorem Becomes.exists_of_mem {depth : Nat} {origin : Origin} {address : Address} {s : Scene}
    {n? : Option Node} (h : cx.Becomes depth origin address s n?) :
    ∀ item ∈ Node.itemsOfAll n?.toList, ∃ path d, s.at? path = some d ∧
      d.layer.isKept = true ∧ cx.ItemOf (address ++ path) d item := by
  intro item hitem
  cases h with
  | hidden => cases hitem
  | alone _ hkept hown =>
    obtain rfl : item = _ := by simpa [Node.itemsOfAll, Node.items] using hitem
    exact ⟨[], _, rfl, hkept, by rw [List.append_nil, ← hown]; exact .plain origin⟩
  | vector artifact _ hkept hown _ hflattens =>
    obtain rfl : item = _ := by simpa [Node.itemsOfAll, Node.items] using hitem
    subst hown
    exact ⟨[], _, rfl, hkept, by rw [List.append_nil]; exact .vector origin artifact hflattens⟩
  | around _ hkept hown _ hchildren =>
    rcases (by simpa [Node.itemsOfAll, Node.items] using hitem) with rfl | hitem
    · exact ⟨[], _, rfl, hkept, by rw [List.append_nil, ← hown]; exact .plain origin⟩
    · obtain ⟨i, path, d, hat, hd, hof⟩ := hchildren.exists_of_mem item hitem
      refine ⟨i :: path, d, hat, hd, ?_⟩
      simpa using hof

theorem AllBecome.exists_of_mem {depth : Nat} {origin : Origin} {parent : Address}
    {position : Nat} {scenes : List Scene} {nodes : List Node}
    (h : cx.AllBecome depth origin parent position scenes nodes) :
    ∀ item ∈ Node.itemsOfAll nodes, ∃ i path d, scenes[i]?.bind (Scene.at? path) = some d ∧
      d.layer.isKept = true ∧ cx.ItemOf (parent ++ [position + i] ++ path) d item := by
  intro item hitem
  cases h with
  | nil => cases hitem
  | cons hfirst hrest =>
    rw [itemsOfAll_append, List.mem_append] at hitem
    rcases hitem with hitem | hitem
    · obtain ⟨path, d, hat, hd, hof⟩ := hfirst.exists_of_mem item hitem
      exact ⟨0, path, d, hat, hd, hof⟩
    · obtain ⟨i, path, d, hat, hd, hof⟩ := hrest.exists_of_mem item hitem
      refine ⟨i + 1, path, d, hat, hd, ?_⟩
      rwa [Nat.add_right_comm] at hof

end

/-- **Every item of a normalization is that of a scene at its address.** -/
theorem normalize_exists_of_mem (cx : NormalizeContext) (selection : Selection) :
    Gives (cx.normalize selection) fun result => ∀ nodes, result = .ok nodes →
      ∀ item ∈ Node.itemsOfAll nodes.value, ∃ s, selection.at? item.address = some s ∧
        s.layer.isKept = true ∧ cx.ItemOf item.address s item := by
  refine (cx.normalize_become selection).mono fun result h nodes hnodes item hitem => ?_
  obtain ⟨i, path, s, hat, hs, hof⟩ := (h nodes hnodes).exists_of_mem item hitem
  rw [List.nil_append, Nat.zero_add, List.singleton_append] at hof
  rw [hof.address_eq]
  exact ⟨s, hat, hs, hof⟩

/-! ## Contexts that are not told apart -/

section Congruence

variable {cx' : NormalizeContext}

mutual

theorem convert_congr (hitem : cx.item = cx'.item) (hflattened : cx.flattened = cx'.flattened)
    (depth : Nat) (origin : Origin) (address : Address) (s : Scene) :
    cx.convert depth origin address s = cx'.convert depth origin address s := by
  match s with
  | .node l children =>
    simp only [convert_node, hitem, hflattened,
      convertAll_congr hitem hflattened _ _ address 0 children]

theorem convertAll_congr (hitem : cx.item = cx'.item) (hflattened : cx.flattened = cx'.flattened)
    (depth : Nat) (origin : Origin) (parent : Address) (position : Nat) (scenes : List Scene) :
    cx.convertAll depth origin parent position scenes =
      cx'.convertAll depth origin parent position scenes := by
  match scenes with
  | [] => rfl
  | s :: rest =>
    rw [convertAll_cons, convertAll_cons, convert_congr hitem hflattened depth origin _ s,
      convertAll_congr hitem hflattened depth origin parent (position + 1) rest]

end

/-- **Normalization looks at nothing but the items of layers and their vectors.** -/
theorem normalize_congr (hitem : cx.item = cx'.item) (hflattened : cx.flattened = cx'.flattened) :
    cx.normalize = cx'.normalize := by
  funext selection
  simp only [normalize_eq, convertAll_congr hitem hflattened]

end Congruence

end NormalizeContext

end Artboard

import Artboard.Markup.Element
import Artboard.Node.Basic

/-!
# Markup trees

Generated markup is a tree until it is written: comments, elements with content of their own, and
elements around others. How an element is styled is left open (`σ`): conversions build trees with
utilities, and `map` turns these into classes before the tree is written.

Each element remembers the address of the node it is drawn for.
-/

namespace Artboard

namespace Markup

/-- The start of an element. -/
structure Head (σ : Type) where
  source : Address
  tag : String
  /-- Attributes in front of class and style. -/
  before : List Attribute := []
  style : σ
  /-- Attributes behind class and style. -/
  after : List Attribute := []
deriving Repr

/-- Text, inside an element of its own or not. -/
structure Span (σ : Type) where
  wrapper : Option (String × σ)
  text : String
deriving Repr

/-- The content of an element without elements on lines of their own. -/
inductive Content (σ : Type) where
  | empty
  | spans (parts : List (Span σ))
  | block (text : String)
deriving Repr

end Markup

open Markup in
inductive Markup (σ : Type) where
  | comment (text : String)
  | leaf (head : Head σ) (content : Content σ)
  | parent (head : Head σ) (children : List (Markup σ))
deriving Repr

namespace Markup

variable {σ τ : Type}

/-- Classes and inline declarations. -/
structure Classes where
  classes : List String := []
  declarations : List (String × String) := []
deriving Repr, DecidableEq

/-! ## Changing the styles -/

def Head.map (f : σ → τ) (h : Head σ) : Head τ := { h with style := f h.style }

def Span.map (f : σ → τ) (s : Span σ) : Span τ :=
  { s with wrapper := s.wrapper.map fun (tag, style) => (tag, f style) }

def Content.map (f : σ → τ) : Content σ → Content τ
  | .empty => .empty
  | .spans parts => .spans (parts.map (Span.map f))
  | .block text => .block text

mutual

def map (f : σ → τ) : Markup σ → Markup τ
  | .comment text => .comment text
  | .leaf head content => .leaf (head.map f) (content.map f)
  | .parent head children => .parent (head.map f) (mapAll f children)

def mapAll (f : σ → τ) : List (Markup σ) → List (Markup τ)
  | [] => []
  | m :: rest => m.map f :: mapAll f rest

end

/-! ## Writing -/

def Head.attributes (mode : Mode) (h : Head Classes) : List Attribute :=
  h.before ++ styleAttributes mode h.style.classes h.style.declarations ++ h.after

/-- Text, or an element on the same line. -/
def Span.render (mode : Mode) (s : Span Classes) : List Char :=
  let text := escapeText mode s.text.toList
  match s.wrapper with
  | none => text
  | some (tag, style) =>
    (renderElement mode tag (styleAttributes mode style.classes style.declarations)
      (.inline text)).tail

def Content.body (mode : Mode) : Content Classes → Body
  | .empty => .empty
  | .spans parts => .inline (parts.flatMap (Span.render mode))
  | .block text => .block text.toList

mutual

/-- The markup as text that begins with a line feed. -/
def render (mode : Mode) : Markup Classes → List Char
  | .comment text => renderComment mode text.toList
  | .leaf head content => renderElement mode head.tag (head.attributes mode) (content.body mode)
  | .parent head children =>
    renderElement mode head.tag (head.attributes mode) (.children (renderAll mode children))

def renderAll (mode : Mode) : List (Markup Classes) → List Char
  | [] => []
  | m :: rest => m.render mode ++ renderAll mode rest

end

/-- Whole markup, without the line feed in front. -/
def document (mode : Mode) (markup : List (Markup Classes)) : String :=
  String.ofList ((renderAll mode markup).dropWhile (· == '\n'))

end Markup

end Artboard

import Artboard.Asset.Basic
import Artboard.Proofs.Markup.Reading
import Artboard.Proofs.Number.Numerals

/-!
# What stands between braces

Generated expressions are numbers, and objects whose values are strings. Neither quotes nor braces
occur in the text of a number or in the address of embedded bytes, so both are read to their own
ends.
-/

namespace Artboard

namespace Markup

variable {mode : Mode} {c : Char} {cs ds : List Char}

/-! ## Plain text -/

/-- Whether a character means nothing to an expression. -/
def isPlain (c : Char) : Bool := c != '"' && c != '\x7b' && c != '\x7d'

def Plain (cs : List Char) : Prop := ∀ c ∈ cs, isPlain c = true

instance (cs : List Char) : Decidable (Plain cs) := decidable_of_iff _ List.all_eq_true

theorem plain_cons : Plain (c :: cs) ↔ isPlain c = true ∧ Plain cs := List.forall_mem_cons

theorem Plain.append (hc : Plain cs) (hd : Plain ds) : Plain (cs ++ ds) :=
  List.forall_mem_append.2 ⟨hc, hd⟩

theorem Plain.foldlM_step (h : Plain cs) (n : Nesting) : cs.foldlM Nesting.step n = some n := by
  induction cs with
  | nil => rfl
  | cons c cs ih =>
    obtain ⟨hc, hcs⟩ := List.forall_mem_cons.1 h
    simp only [isPlain, Bool.and_eq_true, bne_iff_ne] at hc
    rw [List.foldlM_cons, Nesting.step_of_ne hc.1.1 hc.1.2 hc.2]
    exact ih hcs

/-! ## Expressions -/

namespace IsExpression

theorem nil : IsExpression [] := fun _ => rfl

theorem of_plain (h : Plain cs) : IsExpression cs := fun _ => h.foldlM_step _

theorem append (hc : IsExpression cs) (hd : IsExpression ds) : IsExpression (cs ++ ds) := by
  intro depth
  rw [List.foldlM_append, hc depth]
  exact hd depth

theorem foldlM_step_enclosed {n k : Nesting} {first last : Char} (hfirst : n.step first = some k)
    (hinside : cs.foldlM Nesting.step k = some k) (hlast : k.step last = some n) :
    (first :: cs ++ [last]).foldlM Nesting.step n = some n := by
  simp [hfirst, hinside, hlast]

/-- A string. -/
theorem quoted (h : Plain cs) : IsExpression ('"' :: cs ++ ['"']) := fun depth =>
  foldlM_step_enclosed rfl (h.foldlM_step { depth, inString := true }) rfl

/-- An object. -/
theorem braced (h : IsExpression cs) : IsExpression ('\x7b' :: cs ++ ['\x7d']) := fun depth =>
  foldlM_step_enclosed rfl (h (depth + 1)) rfl

theorem intercalate {sep : List Char} (hsep : IsExpression sep) {parts : List (List Char)}
    (h : ∀ part ∈ parts, IsExpression part) : IsExpression (sep.intercalate parts) := by
  induction parts with
  | nil => exact nil
  | cons part rest ih =>
    rw [List.forall_mem_cons] at h
    cases rest with
    | nil => simpa using h.1
    | cons next rest =>
      rw [List.intercalate_cons_cons]
      exact (h.1.append hsep).append (ih h.2)

end IsExpression

theorem isName_className (mode : Mode) : isName (className mode).toList = true := by
  cases mode <;> decide

/-- A declaration that can stand in an expression. -/
def PlainDeclaration (d : String × String) : Prop :=
  Plain (camelCase d.1.toList) ∧ Plain d.2.toList

/-- The class and style attributes are read back, whatever the classes are. -/
theorem isSound_styleAttributes (mode : Mode) (classes : List String)
    {declarations : List (String × String)}
    (h : ∀ d ∈ declarations, PlainDeclaration d) :
    ∀ a ∈ styleAttributes mode classes declarations, a.IsSound mode := by
  have hpart : ∀ d ∈ declarations, IsExpression
      (String.ofList (camelCase d.1.toList) ++ ": \"" ++ d.2 ++ "\"").toList := by
    intro d hd
    obtain ⟨hproperty, hvalue⟩ := h d hd
    have hname : IsExpression (camelCase d.1.toList ++ [':', ' ']) :=
      .of_plain (hproperty.append (by decide))
    simpa using hname.append (.quoted hvalue)
  rw [styleAttributes, List.forall_mem_append]
  constructor
  · split_ifs
    · exact nofun
    · exact List.forall_mem_singleton.2 ⟨isName_className mode, nofun⟩
  · split_ifs
    · exact nofun
    · refine List.forall_mem_singleton.2 ⟨(by decide : isName "style".toList = true),
        fun s hs hmode => ?_⟩
      cases mode with
      | html => cases hs
      | jsx =>
        obtain rfl := AttrValue.expr.inj hs
        have hparts := IsExpression.intercalate (.of_plain (by decide : Plain ", ".toList))
          (List.forall_mem_map.2 hpart)
        rw [String.toList_append, String.toList_append, String.toList_intercalate, List.map_map]
        exact hparts.braced

end Markup

/-! ## Numbers -/

namespace Number

open Markup (isPlain Plain)

/-- A number holds neither quotes nor braces. -/
theorem plain_short (x : Float) : Plain (short x).toList := by
  refine (numerals_short x).forall (fun c hdigit => ?_) (by decide)
  simp only [isPlain, Bool.and_eq_true, bne_iff_ne]
  refine ⟨⟨?_, ?_⟩, ?_⟩ <;> rintro rfl <;> exact absurd hdigit (by decide)

end Number

/-! ## Embedded bytes -/

open Markup (isPlain Plain plain_cons)

theorem Base64.isPlain_symbol (n : Nat) : isPlain (symbol n) = true := by
  by_cases hn : n < 62
  · interval_cases n <;> decide
  · unfold symbol
    rw [if_neg (by omega), if_neg (by omega), if_neg hn]
    split_ifs <;> decide

theorem Base64.plain_encode (bytes : Text.Bytes) : Plain (encode bytes) := by
  fun_induction encode bytes with
  | case1 a b c rest n ih =>
    simp only [plain_cons, isPlain_symbol, true_and]
    exact ih
  | case2 | case3 =>
    simp only [plain_cons, isPlain_symbol, true_and]
    decide
  | case4 => exact nofun

/-- The address of embedded bytes holds neither quotes nor braces. -/
theorem plain_dataUri (bytes : Text.Bytes) (kind : AssetKind) :
    Plain (dataUri bytes kind).toList := by
  rw [dataUri, String.toList_append, String.toList_ofList]
  exact Plain.append (by cases kind <;> decide) (Base64.plain_encode bytes)

end Artboard

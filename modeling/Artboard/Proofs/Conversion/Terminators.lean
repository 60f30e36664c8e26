import Artboard.Conversion.Compile
import Artboard.Proofs.Conversion.Passes
import Artboard.Proofs.Markup.Places

/-!
# Where comments end

HTML ends a comment at `-->` and also at `--!>`; an expression in JSX ends one at `*/`. A generated
comment ends at its own terminator unless its text holds one that was not broken up. Each `*/` and
each `-->` is broken up, but no `--!>` is (`endsEarly_renderComment_iff`). So an instruction never
closes its comment in JSX, and in HTML it does if and only if it holds a `--!>`, however deep the
comment is indented (`emit_endsEarly_iff`).
-/

namespace Artboard

namespace Markup

variable {mode : Mode} {e cs : List Char}

/-! ## Terminators -/

/-- What ends a comment. -/
def terminators : Mode → List (List Char)
  | .html => [['-', '-', '>'], ['-', '-', '!', '>']]
  | .jsx => [['*', '/']]

theorem blank_not_mem (h : e ∈ terminators mode) : ' ' ∉ e := by
  cases mode <;> revert e <;> decide

theorem line_not_mem (h : e ∈ terminators mode) : '\n' ∉ e := by
  cases mode <;> revert e <;> decide

/-- The own terminator of a comment without its last character. -/
def marks : Mode → List Char
  | .html => ['-', '-']
  | .jsx => ['*']

/-- What stands behind the own terminator of a comment. -/
def behindComment : Mode → List Char
  | .html => []
  | .jsx => ['\x7d']

theorem exists_commentEnd_eq (mode : Mode) :
    ∃ last, commentEnd mode = marks mode ++ last :: behindComment mode := by
  cases mode <;> exact ⟨_, rfl⟩

/-- A comment holds `e` in front of its own terminator, or overlapping with it. -/
def EndsEarly (mode : Mode) (comment e : List Char) : Prop :=
  ∃ before after, comment = before ++ e ++ after ∧ (behindComment mode).length < after.length

/-- What ends a comment early stands in front of the last character of its terminator. -/
theorem endsEarly_concat_iff {last : Char} :
    EndsEarly mode (cs ++ last :: behindComment mode) e ↔ e <:+: cs := by
  constructor
  · rintro ⟨before, after, hsplit, hlength⟩
    obtain ⟨rest, hbefore, hrest⟩ | ⟨rest, rfl, -⟩ := List.append_eq_append_iff.1 hsplit
    · have hnil : rest = [] := by
        have := congrArg List.length hrest
        simp only [List.length_cons, List.length_append] at this
        exact List.eq_nil_of_length_eq_zero (by omega)
      exact ⟨before, [], by rw [List.append_nil, hbefore, hnil, List.append_nil]⟩
    · exact List.infix_append before e rest
  · rintro ⟨before, after, rfl⟩
    refine ⟨before, after ++ last :: behindComment mode, by simp, ?_⟩
    rw [List.length_append, List.length_cons]
    omega

/-! ## Indentation -/

theorem infix_indent_iff (hline : '\n' ∉ e) (hblank : ' ' ∉ e) : e <:+: indent cs ↔ e <:+: cs := by
  induction cs using List.reverseRecOn with
  | nil => rfl
  | append_singleton cs c ih =>
    by_cases hc : c = '\n'
    · subst hc
      have hindent : indent (cs ++ ['\n']) =
          indent cs ++ '\n' :: ([] ++ ' ' :: ([] ++ ' ' :: [])) := by simp [indent, indentChar]
      rw [hindent, infix_append_cons_iff hline, infix_append_cons_iff hblank,
        infix_append_cons_iff hblank, infix_append_cons_iff hline, ih, or_self, or_self]
    · rw [indent_concat hc, List.infix_concat_iff, List.infix_concat_iff, ih, ← indent_concat hc,
        suffix_indent_iff hline hblank]

theorem infix_indent_iterate_iff (hline : '\n' ∉ e) (hblank : ' ' ∉ e) (n : Nat) :
    e <:+: indent^[n] cs ↔ e <:+: cs := by
  induction n generalizing cs with
  | zero => rfl
  | succ n ih => rw [Function.iterate_succ_apply, ih, infix_indent_iff hline hblank]

/-! ## Terminators that are not broken up -/

/-- Breaking up terminators changes nothing in front of what is no hyphen. -/
theorem prefix_cons_breakDashes_iff {c : Char} {p text : List Char} (hc : c ≠ '-')
    (h : ∀ rest, p <+: breakDashes rest ↔ p <+: rest) :
    c :: p <+: breakDashes text ↔ c :: p <+: text := by
  fun_cases breakDashes text with
  | case1 rest => simp [List.cons_prefix_cons, hc]
  | case2 d rest => rw [List.cons_prefix_cons, List.cons_prefix_cons, h]
  | case3 => rfl

/-- Where a broken text goes on with the rest of the other terminator, so did the text. -/
theorem prefix_bang_breakDashes_iff (text : List Char) :
    ['-', '!', '>'] <+: breakDashes text ↔ ['-', '!', '>'] <+: text := by
  fun_cases breakDashes text with
  | case1 rest => simp [List.cons_prefix_cons]
  | case2 d rest =>
    rw [List.cons_prefix_cons, List.cons_prefix_cons]
    refine and_congr_right fun _ => ?_
    refine prefix_cons_breakDashes_iff (by decide) fun rest => ?_
    exact prefix_cons_breakDashes_iff (by decide) fun rest => by simp
  | case3 => rfl

theorem infix_bang_breakDashes_iff (text : List Char) :
    ['-', '-', '!', '>'] <:+: breakDashes text ↔ ['-', '-', '!', '>'] <:+: text := by
  fun_induction breakDashes text with
  | case1 rest ih => simp [List.infix_cons_iff, List.cons_prefix_cons, ih]
  | case2 c rest _ ih =>
    rw [List.infix_cons_iff, List.infix_cons_iff, ih, List.cons_prefix_cons, List.cons_prefix_cons,
      prefix_bang_breakDashes_iff]
  | case3 => rfl

theorem infix_broken_iff {text : List Char} (h : e ∈ terminators mode) :
    e <:+: broken mode text ↔ e = ['-', '-', '!', '>'] ∧ e <:+: text := by
  cases mode with
  | html =>
    obtain rfl | rfl : e = ['-', '-', '>'] ∨ e = ['-', '-', '!', '>'] := by
      simpa [terminators] using h
    · exact iff_of_false (not_infix_breakDashes text) fun h => absurd h.1 (by decide)
    · exact (infix_bang_breakDashes_iff text).trans (and_iff_right rfl).symm
  | jsx =>
    obtain rfl : e = ['*', '/'] := by simpa [terminators] using h
    exact iff_of_false (not_infix_breakStars text) fun h => absurd h.1 (by decide)

/-! ## Generated comments -/

theorem renderComment_eq (mode : Mode) (text : List Char) :
    renderComment mode text =
      '\n' :: commentStart mode ++ commentText mode text ++ commentEnd mode := by
  cases mode with
  | html =>
    show '\n' :: commentStart .html ++ ' ' :: (breakDashes text ++ " -->".toList) = _
    simp [commentText, commentEnd]
  | jsx =>
    show '\n' :: commentStart .jsx ++ ' ' :: (breakStars text ++ " */\x7d".toList) = _
    simp [commentText, commentEnd]

/-- **A comment ends early iff its text holds `--!>` and it is one of HTML.** -/
theorem endsEarly_renderComment_iff {text : List Char} (h : e ∈ terminators mode) (n : Nat) :
    EndsEarly mode (indent^[n] (renderComment mode text)) e ↔
      e = ['-', '-', '!', '>'] ∧ e <:+: text := by
  obtain ⟨last, hend⟩ := exists_commentEnd_eq mode
  have hfixed : indent^[n] (last :: behindComment mode) = last :: behindComment mode := by
    rw [indent_iterate_eq, indentBy_eq_self_iff]
    have hline : '\n' ∉ commentEnd mode := by cases mode <;> decide
    exact .inr fun hmem => hline (hend ▸ List.mem_append_right _ hmem)
  have hstart : ¬ e <:+: '\n' :: commentStart mode := by
    cases mode <;> revert e <;> decide
  have hmarks : ¬ e <:+: marks mode := by
    cases mode <;> revert e <;> decide
  rw [renderComment_eq, hend, ← List.append_assoc, indent_iterate_append, hfixed,
    endsEarly_concat_iff, infix_indent_iterate_iff (line_not_mem h) (blank_not_mem h),
    infix_commentText_iff (blank_not_mem h), infix_broken_iff h, or_iff_right hstart,
    or_iff_left hmarks]

end Markup

namespace EmitContext

open Markup

variable (cx : EmitContext)

/-- What stands in front of an instruction holds no part of a terminator. -/
theorem infix_remark_iff {instruction : String} :
    ['-', '-', '!', '>'] <:+: ("AI: " ++ instruction).toList ↔
      ['-', '-', '!', '>'] <:+: instruction.toList := by
  have hsplit : ("AI: " ++ instruction).toList = ['A', 'I', ':'] ++ ' ' :: instruction.toList :=
    String.toList_append
  rw [hsplit, infix_append_cons_iff (by decide), or_iff_right (by decide)]

/-- **An instruction closes its comment iff it holds `--!>` and HTML is written.** An instruction is
drawn as one comment between the marks of the language. Of what ends a comment there, nothing comes
before the terminator at its end, however often the comment is indented, but a `--!>` of the
instruction's own. -/
theorem emit_endsEarly_iff (parent : ParentContext) {item : Item} {instruction : String}
    (htag : item.tag = .prompt instruction) (children : List Node) (w : World) :
    ∃ fragment, (cx.emit parent (.node item children)).runIn w = (.ok fragment, w) ∧
      let mode := cx.settings.mode
      let comment := renderAll mode (mapAll (Style.resolve cx.settings) fragment.markup)
      (∃ inner, comment = '\n' :: commentStart mode ++ inner ++ commentEnd mode) ∧
        ∀ n : ℕ, ∀ e ∈ terminators mode,
          EndsEarly mode (indent^[n] comment) e ↔
            e = ['-', '-', '!', '>'] ∧ e <:+: instruction.toList := by
  have hemit : cx.emit parent (.node item children) =
      pure (.ofMarkup (.comment ("AI: " ++ instruction))) := by rw [emit_node, htag]
  refine ⟨.ofMarkup (.comment ("AI: " ++ instruction)), by rw [hemit, Pass.runIn_pure], ?_⟩
  intro mode comment
  have hcomment : comment = renderComment mode ("AI: " ++ instruction).toList := List.append_nil _
  refine ⟨⟨_, hcomment.trans (renderComment_eq ..)⟩, fun n e he => ?_⟩
  rw [hcomment, endsEarly_renderComment_iff he]
  refine and_congr_right fun hbang => ?_
  rw [hbang, infix_remark_iff]

/-- An arrow in an instruction does not close its comment. -/
theorem emit_endsEarly_note :
    let note : Item :=
      { address := [0], id := "note", name := "#prompt: Stay --> on brand", kind := .frame,
        geometry := ⟨⟨0, 0⟩, ⟨0, 0⟩, 40, 40, 0⟩, visible := true,
        tag := .prompt "Stay --> on brand", fills := [], strokes := [], strokeWeight := 0,
        corners := ⟨0, 0, 0, 0⟩, opacity := 1, clipsContent := false, layout := none,
        placement := ⟨false, .fixed, .fixed⟩, artifact := none }
    let services := Services.uploading ⟨fun _ => none, fun _ _ => .failed⟩ fun _ _ => .failed
    let cx := services.emitting { mode := .html } {}
    note.tag = .prompt "Stay --> on brand" ∧ ['-', '-', '>'] ∈ terminators .html ∧
      ∃ fragment, (cx.emit .root (.node note [])).runIn {} = (.ok fragment, {}) ∧
        ∀ n : ℕ, ∀ e ∈ terminators .html,
          ¬EndsEarly .html (indent^[n]
            (renderAll .html (mapAll (Style.resolve cx.settings) fragment.markup))) e := by
  intro note services cx
  have htag : note.tag = .prompt "Stay --> on brand" := rfl
  obtain ⟨fragment, hemit, -, hends⟩ := cx.emit_endsEarly_iff .root htag [] {}
  refine ⟨rfl, by decide, fragment, hemit, fun n e he hearly => ?_⟩
  obtain ⟨rfl, hbang⟩ := (hends n e he).1 hearly
  exact absurd hbang (by decide)

end EmitContext

/-- **An instruction with `--!>` closes its comment.** What follows it is markup. -/
theorem Services.compile_closed_comment :
    let note : Scene := .node
      { id := "note", name := "#prompt: a --!> b", type := "FRAME", width := 10, height := 10 } []
    let services := uploading ⟨fun _ => none, fun _ _ => .failed⟩ fun _ _ => .failed
    let code := "<!-- AI: a --!> b -->"
    (services.compile { mode := .html } {} [note] {}).1 = .ok (.converted {
      code
      preview := ⟨10, 10, ""⟩
      warnings := []
      colors := []
      textStyles := []
      trigger := none }) ∧
    ['-', '-', '!', '>'] ∈ Markup.terminators .html ∧
    Markup.EndsEarly .html code.toList ['-', '-', '!', '>'] :=
  ⟨by decide +kernel, by decide, "<!-- AI: a ".toList, " b -->".toList, by decide, by decide⟩

end Artboard

import Artboard.Proofs.Style.Equality
import Artboard.Style.Typography
import Mathlib.Data.List.Destutter
import Mathlib.Data.List.SplitBy
import Mathlib.Tactic.SplitIfs

/-!
# Segments of texts

The segments of a text hold the texts of its runs, in order, and have styles of its runs.

They are the run-length compression of the runs. Where the list of runs is cut between any two
neighbours of different styles, each part forms one segment (`Segment.ofRuns_eq_map_splitBy`). Runs
are compared with the style of a segment and not with each other, so this takes that the comparison
of styles is transitive.

For styles without a NaN this is spelled out in `Segment.compress_ofRuns`.
-/

namespace Artboard

/-- Whether two runs have equal styles. -/
def TextRun.alike (a b : TextRun) : Bool := a.style.same b.style

namespace Segment

/-- Segments have the styles of runs. -/
theorem exists_run_of_mem_ofRuns {runs : List TextRun} {s : Segment} (h : s ∈ ofRuns runs) :
    ∃ run ∈ runs, run.style = s.style := by
  have hpush (segments : List Segment)
      (hsegments : ∀ s ∈ segments, ∃ run ∈ runs, run.style = s.style) (run : TextRun)
      (hrun : run ∈ runs) :
      ∀ s ∈ push segments run, ∃ run ∈ runs, run.style = s.style := by
    unfold push
    split
    case h_1 last before =>
      obtain ⟨hlast, hbefore⟩ := List.forall_mem_cons.1 hsegments
      split_ifs
      · exact List.forall_mem_cons.2 ⟨hlast, hbefore⟩
      · exact List.forall_mem_cons.2 ⟨⟨run, hrun, rfl⟩, hsegments⟩
    case h_2 => exact List.forall_mem_singleton.2 ⟨run, hrun, rfl⟩
  have hall : ∀ s ∈ runs.foldl push [], ∃ run ∈ runs, run.style = s.style :=
    runs.foldlRecOn push (List.forall_mem_nil _) hpush
  exact hall s (List.mem_reverse.1 h)

/-- **Nothing of a text is lost, and nothing is moved.** -/
theorem flatMap_ofRuns (runs : List TextRun) :
    (ofRuns runs).flatMap (·.text.toList) = runs.flatMap (·.text.toList) := by
  have hpush (segments : List Segment) (run : TextRun) :
      (push segments run).reverse.flatMap (·.text.toList) =
        segments.reverse.flatMap (·.text.toList) ++ run.text.toList := by
    unfold push
    split
    · split_ifs <;> simp
    · simp
  have hfoldl (segments : List Segment) :
      (runs.foldl push segments).reverse.flatMap (·.text.toList) =
        segments.reverse.flatMap (·.text.toList) ++ runs.flatMap (·.text.toList) := by
    induction runs generalizing segments with
    | nil => simp
    | cons run rest ih => simp [ih, hpush]
  simpa [ofRuns] using hfoldl []

/-! ## Blocks of one style -/

/-- The segment that neighbouring runs of one style form, in the style of the first. -/
def ofBlock : List TextRun → Segment
  | [] => ⟨"", {}⟩
  | run :: more => ⟨run.text ++ String.join (more.map (·.text)), run.style⟩

/-- Runs of the last segment's style go into it. -/
theorem foldl_push_alike {s : Segment} {runs : List TextRun}
    (h : ∀ run ∈ runs, s.style.same run.style = true) (rest : List Segment) :
    runs.foldl push (s :: rest) =
      ⟨s.text ++ String.join (runs.map (·.text)), s.style⟩ :: rest := by
  induction runs generalizing s with
  | nil => simp
  | cons run runs ih =>
    obtain ⟨hrun, hruns⟩ := List.forall_mem_cons.1 h
    rw [List.foldl_cons, push, if_pos hrun, ih (s := ⟨s.text ++ run.text, s.style⟩) hruns]
    simp [String.append_assoc]

/-- A run of another style begins a segment. -/
theorem push_of_differs {segments : List Segment} {run : TextRun}
    (h : ∀ last ∈ segments.head?, last.style.same run.style = false) :
    push segments run = ⟨run.text, run.style⟩ :: segments := by
  cases segments with
  | nil => rfl
  | cons last rest =>
    have hlast : last.style.same run.style = false := h last rfl
    rw [push, if_neg (by simp [hlast])]

/-- Where all neighbours are alike, all are like the first. -/
theorem alike_of_isChain {run : TextRun} {more : List TextRun}
    (h : (run :: more).IsChain fun a b => a.alike b = true) :
    ∀ other ∈ more, run.style.same other.style = true := by
  have : Trans (fun a b : TextRun => a.alike b = true) (fun a b : TextRun => a.alike b = true)
      (fun a b : TextRun => a.alike b = true) :=
    ⟨fun {a b c} hab hbc => (RunStyle.same_congr hab c.style).trans hbc⟩
  exact (List.pairwise_cons.1 (List.isChain_iff_pairwise.1 h)).1

/-- The first run of a block differs from the one behind the block. -/
theorem differs_of_isChain {run : TextRun} {more : List TextRun} {blocks : List (List TextRun)}
    (hone : (run :: more).IsChain fun a b => a.alike b = true)
    (hcut : ((run :: more) :: blocks).IsChain fun a b =>
      ∃ ha hb, (a.getLast ha).alike (b.head hb) = false) :
    ∀ next ∈ blocks.flatten.head?, run.style.same next.style = false := by
  intro next hnext
  cases blocks with
  | nil => cases hnext
  | cons following blocks =>
    obtain ⟨ha, hb, hdiffers⟩ := (List.isChain_cons_cons.1 hcut).1
    obtain rfl : following.head hb = next := by
      rw [List.flatten_cons, List.head?_append_of_ne_nil _ hb, List.head?_eq_some_head hb] at hnext
      exact Option.some_inj.1 hnext
    -- the last run of the block is the first one or like it
    rcases List.mem_cons.1 (List.getLast_mem ha) with hlast | hlast
    · rwa [hlast] at hdiffers
    · exact (RunStyle.same_congr (alike_of_isChain hone _ hlast) _).trans hdiffers

/-- **Each block forms one segment**, if the first differs from the segment before. -/
theorem foldl_push_flatten {blocks : List (List TextRun)} (hne : [] ∉ blocks)
    (hone : ∀ block ∈ blocks, block.IsChain fun a b => a.alike b = true)
    (hcut : blocks.IsChain fun a b => ∃ ha hb, (a.getLast ha).alike (b.head hb) = false)
    {segments : List Segment}
    (hfirst : ∀ last ∈ segments.head?, ∀ run ∈ blocks.flatten.head?,
      last.style.same run.style = false) :
    blocks.flatten.foldl push segments = (blocks.map ofBlock).reverse ++ segments := by
  induction blocks generalizing segments with
  | nil => rfl
  | cons block blocks ih =>
    obtain ⟨hblock, hblocks⟩ := List.forall_mem_cons.1 hone
    cases block with
    | nil => exact absurd List.mem_cons_self hne
    | cons run more =>
      have hmore := alike_of_isChain hblock
      have hrest : [] ∉ blocks := fun h => hne (List.mem_cons_of_mem _ h)
      have hrun : ∀ last ∈ segments.head?, last.style.same run.style = false :=
        fun last hlast => hfirst last hlast run rfl
      have hstart : ∀ last ∈ (ofBlock (run :: more) :: segments).head?,
          ∀ next ∈ blocks.flatten.head?, last.style.same next.style = false := by
        intro last hlast
        obtain rfl : ofBlock (run :: more) = last := Option.some_inj.1 hlast
        exact differs_of_isChain hblock hcut
      calc ((run :: more) :: blocks).flatten.foldl push segments
          = blocks.flatten.foldl push (more.foldl push (push segments run)) := by
            rw [List.flatten_cons, List.foldl_append, List.foldl_cons]
        _ = blocks.flatten.foldl push (ofBlock (run :: more) :: segments) := by
            rw [push_of_differs hrun, foldl_push_alike (s := ⟨run.text, run.style⟩) hmore, ofBlock]
        _ = (blocks.map ofBlock).reverse ++ ofBlock (run :: more) :: segments :=
            ih hrest hblocks hcut.of_cons hstart
        _ = (((run :: more) :: blocks).map ofBlock).reverse ++ segments := by simp

/-- **The segments are the blocks of neighbouring runs of one style.** -/
theorem ofRuns_eq_map_splitBy (runs : List TextRun) :
    ofRuns runs = (runs.splitBy TextRun.alike).map ofBlock := by
  have h : (runs.splitBy TextRun.alike).flatten.foldl push [] =
      ((runs.splitBy TextRun.alike).map ofBlock).reverse ++ [] :=
    foldl_push_flatten (List.nil_notMem_splitBy TextRun.alike runs)
      (fun _ => List.isChain_of_mem_splitBy)
      (List.isChain_getLast_head_splitBy TextRun.alike runs) (by simp)
  rw [List.flatten_splitBy] at h
  rw [ofRuns, h, List.append_nil, List.reverse_reverse]

/-- Where two neighbours differ, the runs before and behind are compressed on their own. -/
theorem ofRuns_append {before after : List TextRun}
    (h : ∀ a ∈ before.getLast?, ∀ b ∈ after.head?, a.style.same b.style = false) :
    ofRuns (before ++ after) = ofRuns before ++ ofRuns after := by
  simp only [ofRuns_eq_map_splitBy, List.splitBy_append (r := TextRun.alike) h, List.map_append]

/-! ## Styles -/

theorem map_style_foldl_push (s : Segment) (rest : List Segment) (runs : List TextRun) :
    (runs.foldl push (s :: rest)).reverse.map (·.style) = rest.reverse.map (·.style) ++
      (runs.map (·.style)).destutter' (fun a b => a.same b = false) s.style := by
  induction runs generalizing s rest with
  | nil => simp
  | cons run runs ih =>
    rw [List.foldl_cons, List.map_cons, List.destutter'_cons, push]
    by_cases hsame : s.style.same run.style = true
    · rw [if_pos hsame, if_neg (by simp [hsame]), ih]
    · rw [if_neg hsame, if_pos (by simpa using hsame), ih]
      simp

/-- **The styles are those of the runs, a repetition of the one before left out.** -/
theorem map_style_ofRuns (runs : List TextRun) :
    (ofRuns runs).map (·.style) =
      (runs.map (·.style)).destutter fun a b => a.same b = false := by
  cases runs with
  | nil => rfl
  | cons run runs => exact map_style_foldl_push ⟨run.text, run.style⟩ [] runs

theorem isChain_ofRuns (runs : List TextRun) :
    (ofRuns runs).IsChain fun a b => a.style.same b.style = false := by
  have hstyles : ((ofRuns runs).map (·.style)).IsChain fun a b => a.same b = false := by
    rw [map_style_ofRuns]
    exact List.isChain_destutter _ _
  rwa [List.isChain_map] at hstyles

/-! ## Compression -/

/-- Some segments are the run-length compression of some runs. -/
structure Compress (segments : List Segment) (runs : List TextRun) : Prop where
  texts : String.join (segments.map (·.text)) = String.join (runs.map (·.text))
  /-- Every run is in the one segment that stands for its block, and has its style. -/
  blocks : ∃ blocks : List (List TextRun), blocks.flatten = runs ∧
    List.Forall₂ (fun s block => block ≠ [] ∧ s.text = String.join (block.map (·.text)) ∧
      ∀ run ∈ block, s.style.same run.style = true) segments blocks
  neighbours : segments.IsChain fun a b => a.style.same b.style = false
  styles : segments.map (·.style) = (runs.map (·.style)).destutter fun a b => a.same b = false
  /-- No segment reaches from one side of a change of style to the other. -/
  cuts : ∀ before after, runs = before ++ after →
    (∀ a ∈ before.getLast?, ∀ b ∈ after.head?, a.style.same b.style = false) →
    segments = ofRuns before ++ ofRuns after

/-- A block of runs is told by its segment. -/
theorem ofBlock_tells {block : List TextRun} (hne : block ≠ [])
    (hone : block.IsChain fun a b => a.alike b = true)
    (hnumeric : ∀ run ∈ block, run.style.IsNumeric) :
    (ofBlock block).text = String.join (block.map (·.text)) ∧
      ∀ run ∈ block, (ofBlock block).style.same run.style = true := by
  cases block with
  | nil => exact absurd rfl hne
  | cons run more =>
    refine ⟨by simp [ofBlock], List.forall_mem_cons.2 ⟨?_, alike_of_isChain hone⟩⟩
    exact RunStyle.same_self_iff.2 (hnumeric run List.mem_cons_self)

/-- **The segments of a text are the run-length compression of its runs**, whatever the runs are,
the empty ones included. -/
theorem compress_ofRuns (content : TextContent)
    (hnumeric : ∀ run ∈ content.runs, run.style.IsNumeric) :
    Compress (ofRuns content.runs) content.runs where
  texts := by
    refine String.toList_inj.1 ?_
    simpa only [String.toList_join, List.flatMap_map] using flatMap_ofRuns content.runs
  blocks := by
    refine ⟨content.runs.splitBy TextRun.alike, List.flatten_splitBy _ _, ?_⟩
    rw [ofRuns_eq_map_splitBy, List.forall₂_map_left_iff, List.forall₂_same]
    intro block hblock
    have hne : block ≠ [] := List.ne_nil_of_mem_splitBy hblock
    refine ⟨hne, ofBlock_tells hne (List.isChain_of_mem_splitBy hblock) fun run hrun => ?_⟩
    refine hnumeric run ?_
    rw [← List.flatten_splitBy TextRun.alike content.runs]
    exact List.mem_flatten_of_mem hblock hrun
  neighbours := isChain_ofRuns content.runs
  styles := map_style_ofRuns content.runs
  cuts := by
    intro before after hruns hcut
    rw [hruns]
    exact ofRuns_append hcut

/-- A plain run, an empty bold one, and two plain ones: three segments, the two plain ones not
merged across the empty one. -/
theorem compress_ofRuns_empty_between :
    let plain : RunStyle := { fontSize := some 14 }
    let bold : RunStyle := { fontSize := some 14, fontWeight := some 700 }
    let content : TextContent :=
      { runs := [⟨"a", plain⟩, ⟨"", bold⟩, ⟨"b", plain⟩, ⟨"c", plain⟩] }
    (∀ run ∈ content.runs, run.style.IsNumeric) ∧ Compress (ofRuns content.runs) content.runs ∧
      ofRuns content.runs = [⟨"a", plain⟩, ⟨"", bold⟩, ⟨"bc", plain⟩] := by
  intro plain bold content
  have hnumeric : ∀ run ∈ content.runs, run.style.IsNumeric := by decide +kernel
  exact ⟨hnumeric, compress_ofRuns content hnumeric, by decide +kernel⟩

end Segment

end Artboard

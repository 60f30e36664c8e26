import Artboard.Files.Tree
import Mathlib.Data.List.Basic

/-!
# Writing into a folder

Writing files and making folders takes nothing away, so a path that leads somewhere leads there
afterwards too (`FileTree.Grows.locate`), and what is saved under a path is found at its location as
long as nothing else is saved there (`FileTree.fileAt?_put`).

**Names** (`Path.IsName`). In one folder different names lead to different locations
(`FileTree.locate_join_inj`), and the extension of a name is changed without leaving the folder
(`Path.withExtension_join`).
-/

namespace Artboard

open Text (Bytes)

/-! ## Names in folders -/

namespace Path

/-- A text that names an entry of a folder. -/
structure IsName (x : String) : Prop where
  slash : '/' ∉ x.toList
  idle : isIdle x = false
  up : x ≠ ".."

theorem IsName.ne_empty {x : String} (h : IsName x) : x ≠ "" := by
  rintro rfl
  cases h.idle

theorem not_isAbsolute {x : String} (h : '/' ∉ x.toList) : isAbsolute x = false := by
  unfold isAbsolute Text.beginsWith
  rw [beq_eq_false_iff_ne]
  exact fun hhead => h (List.mem_of_head? hhead)

/-- Whether an entry is followed from the root depends on its folder. -/
theorem isAbsolute_join {folder : Path} {x : String} (hx : IsName x) :
    (folder.join x).isAbsolute = folder.isAbsolute := by
  have hrelative := not_isAbsolute hx.slash
  unfold join
  by_cases hempty : folder.isEmpty = true
  · obtain rfl := String.isEmpty_iff.1 hempty
    rw [hempty, Bool.or_true, if_pos rfl, hrelative]
    rfl
  · obtain ⟨c, cs, hchars⟩ : ∃ c cs, folder.toList = c :: cs :=
      List.exists_cons_of_ne_nil (by simpa [String.isEmpty_iff] using hempty)
    have hhead (rest : String) : isAbsolute (folder ++ rest) = folder.isAbsolute := by
      simp [isAbsolute, Text.beginsWith, hchars]
    rw [hrelative, Bool.false_or, if_neg hempty]
    split_ifs
    · exact hhead x
    · rw [String.append_assoc]
      exact hhead _

theorem parts_of_free {x : String} (h : '/' ∉ x.toList) : parts x = [x] := by
  have hfree : ∀ c ∈ x.toList, (c == '/') = false := fun c hc =>
    beq_false_of_ne fun heq => h (heq ▸ hc)
  rw [parts, Text.pieces_of_free hfree, List.map_singleton, String.ofList_toList]

theorem parts_append_slash (p x : String) : parts (p ++ "/" ++ x) = parts p ++ parts x := by
  have hchars : (p ++ "/" ++ x).toList = p.toList ++ '/' :: x.toList := by
    rw [String.toList_append, String.toList_append, List.append_assoc]
    rfl
  rw [parts, hchars, Text.pieces_append_cons rfl, List.map_append]
  rfl

/-- The entries of a folder differ in nothing but the last part of their paths. -/
theorem exists_parts_join (folder : Path) :
    ∃ before, ∀ x : String, '/' ∉ x.toList → (folder.join x).parts = before ++ [x] := by
  by_cases hempty : folder.isEmpty = true
  · refine ⟨[], fun x hx => ?_⟩
    rw [join, hempty, Bool.or_true, if_pos rfl, parts_of_free hx]
    rfl
  · by_cases hend : Text.endsWith '/' folder = true
    · obtain ⟨start, hstart⟩ : ∃ start : String, folder = start ++ "/" := by
        rw [Text.endsWith, beq_iff_eq, List.getLast?_eq_some_iff] at hend
        obtain ⟨cs, hcs⟩ := hend
        refine ⟨String.ofList cs, String.toList_inj.1 ?_⟩
        rw [hcs, String.toList_append, String.toList_ofList]
        rfl
      refine ⟨parts start, fun x hx => ?_⟩
      have hjoin : folder.join x = start ++ "/" ++ x := by
        simp [join, not_isAbsolute hx, hempty, hend, ← hstart]
      rw [hjoin, parts_append_slash, parts_of_free hx]
    · refine ⟨parts folder, fun x hx => ?_⟩
      have hjoin : folder.join x = folder ++ "/" ++ x := by
        simp [join, not_isAbsolute hx, hempty, hend]
      rw [hjoin, parts_append_slash, parts_of_free hx]

theorem ofParts_parts (p : Path) : ofParts p.parts = p := by
  have hjoin (pieces : List (List Char)) :
      (ofParts (pieces.map String.ofList)).toList = Text.joinWith ['/'] pieces := by
    have hpieces : (pieces.map String.ofList).map String.toList = pieces := by simp
    rw [ofParts, String.toList_intercalate, hpieces]
    clear hpieces
    induction pieces with
    | nil => rfl
    | cons piece rest ih =>
      cases rest with
      | nil => simp [Text.joinWith]
      | cons next rest =>
        rw [List.intercalate_cons_cons, ih]
        simp [Text.joinWith]
  rw [← String.toList_inj, parts, hjoin]
  exact Text.joinWith_pieces '/' p.toList

/-- Changing the extension of a name stays in the folder. -/
theorem withExtension_join {x : String} (hx : IsName x) (folder : Path) (extension : String)
    (hslash : '/' ∉ ((splitName x).1 ++ "." ++ extension).toList) :
    (folder.join x).withExtension extension =
      folder.join ((splitName x).1 ++ "." ++ extension) := by
  obtain ⟨before, hbefore⟩ := exists_parts_join folder
  have hname : (folder.join x).atName? = some (before, x, []) := by
    have hreversed : (folder.join x).parts.reverse = x :: before.reverse := by
      rw [hbefore x hx.slash, List.reverse_append]
      rfl
    simp [atName?, hreversed, hx.idle, hx.up]
  rw [withExtension, hname]
  dsimp only
  rw [← hbefore _ hslash, ofParts_parts]

/-! ### Stems -/

theorem IsName.of_fileName? {p : Path} {name : String} (h : p.fileName? = some name) :
    IsName name := by
  unfold fileName? atName? at h
  dsimp only at h
  split at h
  · cases h
  · rename_i name' before hname
    split_ifs at h with hup
    · cases h
    obtain rfl := Option.some.inj h
    have hmem : name' ∈ p.parts := by
      have hsuffix := List.dropWhile_suffix (l := p.parts.reverse) isIdle
      rw [hname] at hsuffix
      exact List.mem_reverse.1 (hsuffix.subset List.mem_cons_self)
    refine ⟨?_, ?_, by simpa using hup⟩
    · obtain ⟨piece, hpiece, rfl⟩ := List.mem_map.1 hmem
      rw [String.toList_ofList]
      intro hslash
      have hflatten : '/' ∈ (Text.pieces (· == '/') p.toList).flatten :=
        List.mem_flatten.2 ⟨piece, hpiece, hslash⟩
      rw [Text.flatten_pieces, List.mem_filter] at hflatten
      simp at hflatten
    · have hhead := List.head?_dropWhile_not isIdle p.parts.reverse
      rw [hname] at hhead
      simpa using hhead

/-- A stem is the beginning of a name. -/
theorem stem_prefix_name (name : String) : (splitName name).1.toList <+: name.toList := by
  unfold splitName
  dsimp only
  split
  · exact List.prefix_refl _
  · exact List.prefix_refl _
  · rename_i c stem _ hstem
    rw [String.toList_ofList, ← List.reverse_suffix, List.reverse_reverse]
    have hsuffix := List.dropWhile_suffix (l := name.toList.reverse) (· != '.')
    rw [hstem] at hsuffix
    exact (List.suffix_cons c stem).trans hsuffix

theorem stem_ne_empty {name : String} (h : name ≠ "") : (splitName name).1 ≠ "" := by
  unfold splitName
  dsimp only
  split
  · exact h
  · exact h
  · rename_i stem hempty hstem
    simpa using hempty

/-- Stems name entries themselves, but for two. -/
theorem IsName.of_stem? {p : Path} {stem : String} (h : p.stem? = some stem) (hidle : stem ≠ ".")
    (hup : stem ≠ "..") : IsName stem := by
  obtain ⟨name, hname, rfl⟩ := Option.map_eq_some_iff.1 h
  have hn := IsName.of_fileName? hname
  refine ⟨fun hslash => hn.slash ((stem_prefix_name name).subset hslash), ?_, hup⟩
  simp [isIdle, hidle, stem_ne_empty hn.ne_empty]

/-- With an extension behind it everything is a name. -/
theorem IsName.append {root extension : String} (hroot : '/' ∉ root.toList)
    (hextension : '/' ∉ extension.toList) (hplain : ∃ c ∈ extension.toList, c ≠ '.') :
    IsName (root ++ "." ++ extension) := by
  obtain ⟨c, hc, hne⟩ := hplain
  have hmem : c ∈ (root ++ "." ++ extension).toList := by
    rw [String.toList_append]
    exact List.mem_append_right _ hc
  refine ⟨?_, ?_, ?_⟩
  · simp [String.toList_append, hroot, hextension]
  · have hempty : root ++ "." ++ extension ≠ "" := by
      intro h
      rw [h] at hmem
      cases hmem
    have hpoint : root ++ "." ++ extension ≠ "." := by
      intro h
      rw [h] at hmem
      exact hne (List.mem_singleton.1 hmem)
    simp [isIdle, hempty, hpoint]
  · intro h
    rw [h] at hmem
    have hmem : c ∈ ['.', '.'] := hmem
    rw [List.mem_cons, List.mem_singleton, or_self] at hmem
    exact hne hmem

end Path

namespace FileTree

variable {t t' t'' : FileTree} {p : Path} {place q : Location} {bytes : Bytes}

/-! ## Growth -/

/-- A later state of a tree: all files and folders are still there, though files may hold something
else. -/
structure Grows (t t' : FileTree) : Prop where
  current : t'.current = t.current
  files : t.files.map Prod.fst ⊆ t'.files.map Prod.fst
  made : t.made ⊆ t'.made

namespace Grows

theorem refl (t : FileTree) : Grows t t := ⟨rfl, List.Subset.refl _, List.Subset.refl _⟩

theorem trans (h : t.Grows t') (h' : t'.Grows t'') : t.Grows t'' :=
  ⟨h'.current.trans h.current, List.Subset.trans h.files h'.files,
    List.Subset.trans h.made h'.made⟩

theorem isFolderAt (h : t.Grows t') (hfolder : t.isFolderAt place = true) :
    t'.isFolderAt place = true := by
  have hfiles (within : Location → Bool) (hany : t.files.any (fun file => within file.1) = true) :
      t'.files.any (fun file => within file.1) = true := by
    obtain ⟨file, hfile, hwithin⟩ := List.any_eq_true.1 hany
    obtain ⟨file', hfile', heq⟩ := List.mem_map.1 (h.files (List.mem_map_of_mem hfile))
    exact List.any_eq_true.2 ⟨file', hfile', heq ▸ hwithin⟩
  unfold FileTree.isFolderAt at hfolder ⊢
  simp only [Bool.or_eq_true] at hfolder ⊢
  rcases hfolder with ((hroot | hcurrent) | hmade) | hfile
  · exact .inl (.inl (.inl hroot))
  · exact .inl (.inl (.inr (h.current ▸ hcurrent)))
  · rw [List.contains_iff_mem] at hmade ⊢
    exact .inl (.inr (h.made hmade))
  · exact .inr (hfiles (fun file => place.isPrefixOf file && place.length < file.length) hfile)

theorem follow (h : t.Grows t') (parts : List String) (hplace : t.follow place parts = .ok q) :
    t'.follow place parts = .ok q := by
  induction parts generalizing place with
  | nil => exact hplace
  | cons part rest ih =>
    rw [FileTree.follow] at hplace ⊢
    cases hfolder : t.isFolderAt place with
    | false =>
      rw [hfolder] at hplace
      cases hplace
    | true =>
      rw [hfolder] at hplace
      rw [h.isFolderAt hfolder]
      simp only [Bool.not_true, Bool.false_eq_true, ite_false] at hplace ⊢
      split_ifs at hplace ⊢
      all_goals exact ih hplace

/-- **A path that leads somewhere leads there afterwards too.** -/
theorem locate (h : t.Grows t') (hplace : t.locate p = .ok q) : t'.locate p = .ok q := by
  unfold FileTree.locate at hplace ⊢
  rw [h.current]
  split_ifs at hplace ⊢
  · exact h.follow _ hplace
  · exact h.follow _ hplace

end Grows

/-! ## Writing -/

theorem mem_keys_putAt {files : List (Location × Bytes)} {file : Location}
    (hfile : file ∈ files.map Prod.fst) : file ∈ (putAt place bytes files).map Prod.fst := by
  induction files with
  | nil => cases hfile
  | cons entry rest ih =>
    obtain ⟨other, b⟩ := entry
    unfold putAt
    rcases List.mem_cons.1 hfile with rfl | hfile
    · split_ifs with hother
      · exact List.mem_cons.2 (.inl hother)
      · exact List.mem_cons_self
    · split_ifs
      · exact List.mem_cons_of_mem _ hfile
      · exact List.mem_cons_of_mem _ (ih hfile)

theorem write_eq_ok_iff :
    t.write p bytes = .ok t' ↔ ∃ place, t.locate p = .ok place ∧ t.isFolderAt place = false ∧
      t' = { t with files := putAt place bytes t.files } := by
  unfold write
  cases t.locate p with
  | error e => exact ⟨nofun, nofun⟩
  | ok place =>
    show (if t.isFolderAt place = true then _ else _) = _ ↔ _
    constructor
    · intro h
      split_ifs at h with hfolder
      cases h
      exact ⟨place, rfl, Bool.eq_false_iff.2 hfolder, rfl⟩
    · rintro ⟨_, ⟨⟩, hfolder, rfl⟩
      rw [if_neg (Bool.eq_false_iff.1 hfolder)]

theorem fileAt?_put (t : FileTree) (place other : Location) (bytes : Bytes) :
    fileAt? { t with files := putAt place bytes t.files } other =
      if other = place then some bytes else t.fileAt? other := by
  split_ifs with h
  · rw [h]
    exact lookup_putAt_self place bytes t.files
  · exact lookup_putAt_of_ne h bytes t.files

/-- Making folders keeps all files as they are. -/
theorem makeFrom_grows (parts : List String) (h : t.makeFrom place parts = .ok t') :
    t.Grows t' ∧ t'.files = t.files := by
  induction parts generalizing t place with
  | nil =>
    cases h
    exact ⟨.refl _, rfl⟩
  | cons part rest ih =>
    rw [makeFrom] at h
    dsimp only at h
    split_ifs at h
    · exact ih h
    · exact ih h
    · exact ih h
    · obtain ⟨hgrows, hfiles⟩ := ih h
      have hmade : t.Grows { t with made := t.made ++ [place ++ [part]] } :=
        ⟨rfl, List.Subset.refl _, List.subset_append_left _ _⟩
      exact ⟨hmade.trans hgrows, hfiles⟩

/-! ## Locations of names -/

theorem exists_follow_of_append {parts rest : List String}
    (h : t.follow place (parts ++ rest) = .ok q) :
    ∃ around, t.follow place parts = .ok around ∧ t.follow around rest = .ok q := by
  induction parts generalizing place with
  | nil => exact ⟨place, rfl, h⟩
  | cons part parts ih =>
    rw [List.cons_append, follow] at h
    rw [follow]
    split_ifs at h ⊢
    all_goals exact ih h

theorem follow_name {x : String} (hx : Path.IsName x) (h : t.follow place [x] = .ok q) :
    q = place ++ [x] := by
  have hup : (x == "..") = false := beq_false_of_ne hx.up
  rw [follow, hx.idle, hup] at h
  cases hfolder : t.isFolderAt place with
  | false =>
    rw [hfolder] at h
    cases h
  | true =>
    rw [hfolder] at h
    cases h
    rfl

/-- The entries of a folder lie side by side. -/
theorem exists_locate_join (t : FileTree) (folder : Path) :
    ∃ around, ∀ x q, Path.IsName x → t.locate (folder.join x) = .ok q → q = around ++ [x] := by
  obtain ⟨before, hbefore⟩ := Path.exists_parts_join folder
  have hlocate (x : String) (q : Location) (hx : Path.IsName x)
      (h : t.locate (folder.join x) = .ok q) :
      ∃ around, t.follow (if folder.isAbsolute then [] else t.current) before = .ok around ∧
        q = around ++ [x] := by
    unfold locate at h
    rw [hbefore x hx.slash, Path.isAbsolute_join hx] at h
    split_ifs at h ⊢
    all_goals
      obtain ⟨around, hfollow, hname⟩ := exists_follow_of_append h
      exact ⟨around, hfollow, follow_name hx hname⟩
  cases hfollow : t.follow (if folder.isAbsolute then [] else t.current) before with
  | error e =>
    refine ⟨[], fun x q hx h => ?_⟩
    obtain ⟨around, hok, -⟩ := hlocate x q hx h
    rw [hfollow] at hok
    cases hok
  | ok around =>
    refine ⟨around, fun x q hx h => ?_⟩
    obtain ⟨around', hok, hq⟩ := hlocate x q hx h
    rw [hfollow] at hok
    cases hok
    exact hq

/-- **In one folder different names lead to different locations.** -/
theorem locate_join_inj {folder : Path} {x y : String} (hx : Path.IsName x) (hy : Path.IsName y)
    (h : t.locate (folder.join x) = .ok q) (h' : t.locate (folder.join y) = .ok q) : x = y := by
  obtain ⟨around, haround⟩ := t.exists_locate_join folder
  have heq := (haround x q hx h).symm.trans (haround y q hy h')
  exact List.singleton_inj.1 (List.append_cancel_left heq)

theorem locate_join_eq_iff {folder : Path} {x y : String} (hx : Path.IsName x)
    (hy : Path.IsName y) (hplace : t.locate (folder.join x) = .ok q) :
    t.locate (folder.join y) = t.locate (folder.join x) ↔ y = x := by
  constructor
  · intro hsame
    exact locate_join_inj hy hx (hsame.trans hplace) hplace
  · rintro rfl
    rfl

end FileTree

end Artboard

import Difflore.Review.DiffContext

/-! # What slicing a packed diff gives back

The slicer looks for a file's header anywhere in the packed text, and for the
next header at the start of a line. So a file's own section comes back when its
header occurs nowhere ahead of it and no line of its patch is such a header.
-/

namespace Difflore.Review

open Foundation Text

def fenceLine : Text := "\n```diff"

def sectionBody (patch : Text) : Text := fenceLine ++ ('\n' :: (trimEnd patch ++ fenceClosing))

def fileSection (path patch : Text) : Text := packedHeader path ++ sectionBody patch

theorem blankLine_eq : blankLine = ['\n', '\n'] := by decide

theorem fenceOpening_eq : fenceOpening = '\n' :: (fenceLine ++ ['\n']) := by decide

theorem fenceClosing_eq : fenceClosing = '\n' :: "```\n" := by decide

theorem renderFileSection_eq (path patch : Text) :
    renderFileSection path patch = blankLine ++ fileSection path patch := by
  simp only [renderFileSection, fileSection, packedHeader, sectionBody, fenceOpening_eq,
    List.append_assoc, List.cons_append, List.nil_append]

def OpensSection (contents : Text) : Prop := ∃ rest, contents = '\n' :: (nextMark ++ rest)

theorem opensSection_of_blankLine (rest : Text) :
    OpensSection (blankLine ++ (fileMark ++ rest)) := by
  rw [blankLine_eq]
  exact ⟨rest, rfl⟩

theorem opensSection_renderFileSection (path patch : Text) :
    OpensSection (renderFileSection path patch) := opensSection_of_blankLine _

theorem opensSection_renderCompact {path patch contents : Text} {maxChars : Nat}
    (hcompact : renderCompactFileSection path patch maxChars = some contents) :
    OpensSection contents := by
  simp only [renderCompactFileSection] at hcompact
  split at hcompact
  next => contradiction
  next =>
    split at hcompact
    next => contradiction
    next =>
      obtain ⟨_, hsection⟩ := Option.ite_none_right_eq_some.mp hcompact
      obtain rfl := Option.some.inj hsection
      simp only [List.append_assoc]
      exact opensSection_of_blankLine _

namespace PackedDiffContext

/-- A step includes the file in full: a new entry that is not truncated. -/
def IncludesInFull (packed : PackedDiffContext) (file : DiffContextFile) : Prop :=
  ∃ entry, (packed.step file).includedFiles = packed.includedFiles ++ [entry] ∧
    entry.truncated = false

theorem step_cases (packed : PackedDiffContext) (file : DiffContextFile) :
    (packed.step file).text = packed.text ∧
        (packed.step file).includedFiles = packed.includedFiles ∨
    ∃ contents entry, OpensSection contents ∧ (packed.step file).text = packed.text ++ contents ∧
      (packed.step file).includedFiles = packed.includedFiles ++ [entry] ∧
      entry.path = trim file.path ∧
      (entry.truncated = false →
        contents = renderFileSection (trim file.path) (trimEnd file.patch)) := by
  simp only [step]
  split
  next => exact .inl ⟨rfl, rfl⟩
  next =>
    split
    next => exact .inl ⟨rfl, rfl⟩
    next =>
      split
      next =>
        exact .inr ⟨_, _, opensSection_renderFileSection _ _, rfl, rfl, rfl, fun _ => rfl⟩
      next =>
        split
        next => exact .inl ⟨rfl, rfl⟩
        next =>
          split
          next contents hcompact =>
            refine .inr ⟨contents, _, opensSection_renderCompact hcompact, rfl, rfl, rfl, ?_⟩
            intro htruncated
            contradiction
          next => exact .inl ⟨rfl, rfl⟩

theorem text_of_includesInFull {packed : PackedDiffContext} {file : DiffContextFile}
    (hfull : packed.IncludesInFull file) :
    (packed.step file).text = packed.text ++
      renderFileSection (trim file.path) (trimEnd file.patch) := by
  obtain ⟨entry, hentry, htruncated⟩ := hfull
  rcases packed.step_cases file with ⟨_, hsame⟩ | ⟨contents, other, _, htext, hother, _, hcontents⟩
  · rw [hsame] at hentry
    simp at hentry
  · rw [hother] at hentry
    obtain rfl := List.singleton_inj.mp (List.append_cancel_left hentry)
    rw [htext, hcontents htruncated]

theorem foldl_step_text (files : List DiffContextFile) (packed : PackedDiffContext) :
    ∃ rest, (files.foldl step packed).text = packed.text ++ rest ∧
      (rest = [] ∨ OpensSection rest) := by
  induction files generalizing packed with
  | nil => exact ⟨[], by simp, .inl rfl⟩
  | cons file files ih =>
    obtain ⟨rest, hrest, hopens⟩ := ih (packed.step file)
    rw [List.foldl_cons, hrest]
    rcases packed.step_cases file with ⟨hsame, _⟩ | ⟨contents, _, hcontents, htext, _⟩
    · exact ⟨rest, by rw [hsame], hopens⟩
    · obtain ⟨tail, rfl⟩ := hcontents
      exact ⟨_, by rw [htext, List.append_assoc], .inr ⟨tail ++ rest, by simp⟩⟩

end PackedDiffContext

theorem packedHeader_ne_nil (path : Text) : packedHeader path ≠ [] := by
  unfold packedHeader
  exact List.append_ne_nil_of_right_ne_nil _ (List.append_ne_nil_of_right_ne_nil _ (by decide))

theorem newline_not_mem_fileMark : '\n' ∉ fileMark := by decide

theorem cleanCut_nextMark (s t : Text) : CleanCut nextMark s ('\n' :: t) :=
  cleanCut_of_head newline_not_mem_fileMark s t

theorem nextMark_infix_sectionBody_iff (patch : Text) :
    nextMark <:+: sectionBody patch ↔ nextMark <:+: '\n' :: trimEnd patch := by
  have hopening : ¬ nextMark <:+: fenceLine := by decide
  have hclosing : ¬ nextMark <:+: '\n' :: "```\n" := by decide
  rw [sectionBody, (cleanCut_nextMark _ _).infix_append_iff, or_iff_right hopening,
    ← List.cons_append, fenceClosing_eq, (cleanCut_nextMark _ _).infix_append_iff,
    or_iff_left hclosing]

theorem find_nextMark {patch rest : Text} (hpatch : ¬ nextMark <:+: sectionBody patch)
    (hrest : rest = [] ∨ OpensSection rest) :
    find nextMark (sectionBody patch ++ rest) =
      if rest = [] then none else some ((sectionBody patch).length + 1) := by
  rcases hrest with rfl | ⟨tail, rfl⟩
  · rw [List.append_nil, if_pos rfl]
    exact find_eq_none_iff.mpr hpatch
  · have hmark : ¬ nextMark <+: '\n' :: (nextMark ++ tail) := by
      intro hstart
      have hsecond : fileMark.head? = some '\n' := by
        obtain ⟨rest, hrest⟩ := (List.cons_prefix_cons.mp hstart).2
        exact congrArg List.head? hrest
      exact newline_not_mem_fileMark (List.mem_of_mem_head? hsecond)
    rw [if_neg (List.cons_ne_nil _ _), find_append (cleanCut_nextMark _ _) hpatch,
      find, if_neg hmark, find_append_self]
    rfl

/-! ## Slicing -/

/-- The slice is the section at that place, up to blank lines behind it. -/
def SlicesSection (diff path patch : Text) (start : Nat) : Prop :=
  ∃ blank : Text, (∀ c ∈ blank, c = '\n') ∧
    diffSliceForFile diff path = some ⟨start, fileSection path patch ++ blank⟩

/-- The header of a file already stands in the text, or in the text with its beginning. -/
def HeaderAhead (before path : Text) : Prop :=
  packedHeader path <:+: (before ++ packedHeader path).dropLast

def MarksFile (patch : Text) : Prop := nextMark <:+: '\n' :: trimEnd patch

instance (before path : Text) : Decidable (HeaderAhead before path) :=
  inferInstanceAs (Decidable (_ <:+: _))

instance (patch : Text) : Decidable (MarksFile patch) := inferInstanceAs (Decidable (_ <:+: _))

section Slicing

variable {before path patch rest : Text}

theorem diffSliceForFile_of_find {diff : Text} {pos : Nat}
    (hfind : find (packedHeader path) diff = some pos) :
    diffSliceForFile diff path = some ⟨pos, (diff.drop pos).take
      ((find nextMark ((diff.drop pos).drop (packedHeader path).length)).elim (diff.drop pos).length
        fun n => (packedHeader path).length + n + 1)⟩ := by
  simp only [diffSliceForFile, sliceBetween, hfind, Option.map_some, Option.some_or]

theorem slicesSection_iff (hrest : rest = [] ∨ OpensSection rest) :
    SlicesSection (before ++ (packedHeader path ++ (sectionBody patch ++ rest))) path patch
        before.length ↔ ¬ HeaderAhead before path ∧ ¬ MarksFile patch := by
  unfold HeaderAhead MarksFile
  rw [← nextMark_infix_sectionBody_iff, ← find_middle_iff (packedHeader_ne_nil path)]
  constructor
  · rintro ⟨blank, hblank, hslice⟩
    have hin :
      packedHeader path <:+: before ++ (packedHeader path ++ (sectionBody patch ++ rest)) :=
      ⟨before, _, List.append_assoc _ _ _⟩
    obtain ⟨pos, hpos⟩ := Option.ne_none_iff_exists'.mp (mt find_eq_none_iff.mp (not_not.mpr hin))
    rw [diffSliceForFile_of_find hpos] at hslice
    obtain ⟨rfl, htext⟩ := Slice.mk.inj (Option.some.inj hslice)
    refine ⟨hpos, ?_⟩
    intro hmarked
    obtain ⟨i, hi, hfind⟩ := find_of_infix (t := rest) hmarked
    rw [List.drop_left, List.drop_left, hfind] at htext
    have hlength := congrArg List.length htext
    have hmark : nextMark.length = 10 := rfl
    simp only [Option.elim_some, List.length_take, List.length_append, fileSection] at hlength
    omega
  · rintro ⟨hpos, hpatch⟩
    have hslice := diffSliceForFile_of_find hpos
    rw [List.drop_left, List.drop_left, find_nextMark hpatch hrest] at hslice
    rcases hrest with rfl | ⟨tail, rfl⟩
    · refine ⟨[], by simp, ?_⟩
      rw [hslice, if_pos rfl]
      simp [fileSection]
    · refine ⟨['\n', '\n'], by simp, ?_⟩
      have htext : packedHeader path ++ (sectionBody patch ++ '\n' :: (nextMark ++ tail)) =
          (fileSection path patch ++ ['\n', '\n']) ++ (fileMark ++ tail) := by
        simp [fileSection, nextMark]
      have hlength : (fileSection path patch ++ ['\n', '\n']).length =
          (packedHeader path).length + ((sectionBody patch).length + 1) + 1 := by
        simp [fileSection]
        omega
      rw [hslice, if_neg (List.cons_ne_nil _ _), htext, Option.elim_some, ← hlength, List.take_left]

end Slicing

theorem trimEnd_trimEnd (s : Text) : trimEnd (trimEnd s) = trimEnd s :=
  List.rdropWhile_idempotent _ s

/-- A file that is packed in full is sliced out again just when its header is not in the text
packed ahead of it and its own patch has no line that opens a section. -/
theorem slicesSection_packDiffContext_iff {files : List DiffContextFile}
    {options : DiffContextOptions} {ahead behind : List DiffContextFile} {file : DiffContextFile}
    (hordered : orderedFiles files options.mode = ahead ++ file :: behind)
    (hfull : (ahead.foldl PackedDiffContext.step (.initial options.charBudget)).IncludesInFull
      file) :
    SlicesSection (packDiffContext files options).text (trim file.path) file.patch
        ((ahead.foldl PackedDiffContext.step (.initial options.charBudget)).text ++
          blankLine).length ↔
      ¬ HeaderAhead ((ahead.foldl PackedDiffContext.step (.initial options.charBudget)).text ++
        blankLine) (trim file.path) ∧ ¬ MarksFile file.patch := by
  obtain ⟨rest, hrest, hopens⟩ := PackedDiffContext.foldl_step_text behind
    ((ahead.foldl PackedDiffContext.step (.initial options.charBudget)).step file)
  have hsection : fileSection (trim file.path) (trimEnd file.patch) =
      packedHeader (trim file.path) ++ sectionBody file.patch := by
    rw [fileSection, sectionBody, sectionBody, trimEnd_trimEnd]
  have htext : (packDiffContext files options).text =
      ((ahead.foldl PackedDiffContext.step (.initial options.charBudget)).text ++ blankLine) ++
        (packedHeader (trim file.path) ++ (sectionBody file.patch ++ rest)) := by
    rw [packDiffContext, hordered, List.foldl_append, List.foldl_cons, hrest,
      PackedDiffContext.text_of_includesInFull hfull, renderFileSection_eq, hsection]
    simp only [List.append_assoc]
  rw [htext]
  exact slicesSection_iff hopens

/-- A document that shows what the file marks of a packed diff look like. -/
def guideFile : DiffContextFile := .new "guide.md"
    ("@@ -1 +1,4 @@\n Layout:\n+## File: a.rs\n" ++ "+## File: b.rs\n+end\n".toList)

def sourceFile : DiffContextFile := .new "b.rs" "@@ -1 +1 @@\n-old\n+new\n"

def budgeted : DiffContextOptions := ⟨some 4000, .fixPr⟩

theorem includesInFull_guideFile : (PackedDiffContext.initial (some 4000)).IncludesInFull
    guideFile :=
  ⟨⟨"guide.md", .modified, 0, 57, 91, 3, 0, false⟩, by decide, rfl⟩

theorem slicesSection_packDiffContext_iff_guideFile :
    SlicesSection (packDiffContext [guideFile, sourceFile] budgeted).text "guide.md"
      guideFile.patch 2 := by
  have hordered : orderedFiles [guideFile, sourceFile] budgeted.mode =
      [] ++ guideFile :: [sourceFile] := by decide
  exact (slicesSection_packDiffContext_iff hordered includesInFull_guideFile).mpr
    ⟨by decide, by decide⟩

/-- The header of `b.rs` is found in the document that is packed ahead of it. -/
theorem added_mark_is_taken_for_a_header : ¬ ∀ (files : List DiffContextFile)
    (options : DiffContextOptions) (ahead behind : List DiffContextFile) (file : DiffContextFile),
    (files.map (·.path)).Nodup →
    orderedFiles files options.mode = ahead ++ file :: behind →
    (ahead.foldl PackedDiffContext.step (.initial options.charBudget)).IncludesInFull file →
    ∃ start, SlicesSection (packDiffContext files options).text (trim file.path) file.patch
      start := by
  intro hall
  have hordered : orderedFiles [guideFile, sourceFile] budgeted.mode =
      [guideFile] ++ sourceFile :: [] := by decide
  have hfull : ([guideFile].foldl PackedDiffContext.step
      (.initial budgeted.charBudget)).IncludesInFull sourceFile :=
    ⟨⟨"b.rs", .modified, 0, 21, 51, 1, 1, false⟩, by decide, rfl⟩
  obtain ⟨start, blank, _, hslice⟩ := hall _ _ _ _ _ (by decide) hordered hfull
  have hbroken : (diffSliceForFile (packDiffContext [guideFile, sourceFile] budgeted).text
      (trim sourceFile.path)).all (fun slice => fileSection (trim sourceFile.path)
        sourceFile.patch <+: slice.text) = false := by decide
  rw [hslice] at hbroken
  simp at hbroken

end Difflore.Review

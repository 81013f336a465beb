import Difflore.Infra.GitSections

/-! # Reading back what git printed

The header mark occurs in a printed diff in front of every file but the first and
nowhere else, so each file is one section.
-/

namespace Difflore.Infra

open Foundation Text
open Review (DiffHunkRecord DiffContentRecord)

def sectionMark : Text := '\n' :: diffGit

theorem cleanCut_sectionMark (s t : Text) : CleanCut sectionMark s ('\n' :: t) :=
  cleanCut_of_head (by decide) s t

theorem diffGit_oneLine : '\n' ∉ diffGit := by decide

theorem ChangedFile.not_diffGit (file : ChangedFile) :
    ∀ line ∈ file.extended ++ file.hunkLines, ¬ diffGit <+: line := by
  intro line hline hstart
  rcases List.mem_append.mp hline with hmem | hmem
  · exact (file.extended_plain line hmem).2.1 hstart
  · obtain ⟨hunk, _, htext⟩ := List.mem_flatMap.mp hmem
    rcases List.mem_cons.mp htext with rfl | htext
    · exact absurd (List.cons_prefix_cons.mp hstart).1 (by decide)
    · obtain ⟨⟨mark, contents⟩, _, rfl⟩ := List.mem_map.mp htext
      have hhead : 'd' = mark.symbol := (List.cons_prefix_cons.mp hstart).1
      cases mark <;> exact absurd hhead (by decide)

theorem not_prefix_unlines {lines : List Text} (hlines : ∀ line ∈ lines, ¬ diffGit <+: line) :
    ¬ diffGit <+: unlines lines := by
  cases lines with
  | nil => decide
  | cons line rest =>
    have htext : unlines (line :: rest) = line ++ '\n' :: unlines rest := by
      simp [unlines]
    rw [htext]
    intro hstart
    rcases List.prefix_or_prefix_of_prefix hstart (List.prefix_append line _) with hline | hline
    · exact hlines line (.head _) hline
    · obtain ⟨tail, htail⟩ := hline
      rw [← htail, List.prefix_append_right_inj] at hstart
      cases tail with
      | nil =>
        rw [List.append_nil] at htail
        exact hlines line (.head _) (htail ▸ List.prefix_refl _)
      | cons c tail =>
        obtain rfl := (List.cons_prefix_cons.mp hstart).1
        apply diffGit_oneLine
        rw [← htail]
        exact List.mem_append_right _ (.head _)

theorem not_sectionMark_infix {first : Text} {lines : List Text} (hfirst : '\n' ∉ first)
    (hlines_oneLine : ∀ line ∈ lines, '\n' ∉ line) (hlines : ∀ line ∈ lines, ¬ diffGit <+: line) :
    ¬ sectionMark <:+: first ++ '\n' :: unlines lines := by
  induction lines generalizing first with
  | nil =>
    rw [CleanCut.infix_append_iff (cleanCut_sectionMark _ _), not_or]
    constructor
    · exact fun hmark => hfirst (hmark.subset (.head _))
    · intro hmark
      exact absurd hmark.length_le (by decide)
  | cons line rest ih =>
    have htext : unlines (line :: rest) = line ++ '\n' :: unlines rest := by
      simp [unlines]
    rw [CleanCut.infix_append_iff (cleanCut_sectionMark _ _), not_or]
    constructor
    · exact fun hmark => hfirst (hmark.subset (.head _))
    · rw [List.infix_cons_iff, not_or]
      constructor
      · intro hmark
        exact not_prefix_unlines hlines (List.cons_prefix_cons.mp hmark).2
      · rw [htext]
        exact ih (hlines_oneLine line (.head _))
          (fun other hmem => hlines_oneLine other (.tail _ hmem))
          (fun other hmem => hlines other (.tail _ hmem))

/-! ## Sections -/

namespace ChangedFile

variable (file : ChangedFile)

def behindMark : Text := file.names ++ '\n' :: unlines (file.extended ++ file.hunkLines)

theorem unlines_printed : unlines file.printed = diffGit ++ file.behindMark := by
  simp [printed, behindMark, unlines]

theorem getLast?_behindMark : file.behindMark.getLast? = some '\n' := by
  rw [behindMark]
  rcases List.eq_nil_or_concat (file.extended ++ file.hunkLines) with hnil | ⟨init, line, hconcat⟩
  · rw [hnil, unlines, List.flatMap_nil]
    exact List.getLast?_concat
  · rw [hconcat, List.concat_eq_append, unlines_concat, ← List.cons_append, ← List.append_assoc]
    exact List.getLast?_concat

theorem behindMark_eq : file.behindMark = file.behindMark.dropLast ++ ['\n'] := by
  obtain ⟨init, hinit⟩ := List.getLast?_eq_some_iff.mp file.getLast?_behindMark
  rw [hinit, List.dropLast_concat]

theorem sectionText_printed (last : Bool) : sectionText last file.printed =
      diffGit ++ if last then file.behindMark else file.behindMark.dropLast := by
  unfold sectionText
  rw [unlines_printed]
  cases last with
  | true => rfl
  | false =>
    have hne : file.behindMark ≠ [] := by
      intro hnil
      have hlast := file.getLast?_behindMark
      rw [hnil] at hlast
      contradiction
    exact List.dropLast_append_of_ne_nil hne

theorem not_sectionMark {start : Text} (hstart : '\n' ∉ start) :
    ¬ sectionMark <:+: start ++ file.behindMark := by
  have hnames : '\n' ∉ start ++ file.names := by
    apply List.not_mem_append hstart
    exact fun hmem => file.names_oneLine (List.mem_append_right _ hmem)
  have htext : start ++ file.behindMark =
      (start ++ file.names) ++ '\n' :: unlines (file.extended ++ file.hunkLines) := by
    rw [behindMark, List.append_assoc]
  rw [htext]
  apply not_sectionMark_infix hnames
  · intro line hline
    rcases List.mem_append.mp hline with hmem | hmem
    · exact (file.extended_oneLine line hmem).2
    · exact file.hunkLines_oneLine line hmem
  · exact file.not_diffGit

end ChangedFile

/-- The texts that a diff is split into, the first with its header. -/
def sectionTexts : List ChangedFile → List Text
  | [] => []
  | file :: rest => sectionText rest.isEmpty file.printed :: sectionTexts rest

theorem printDiff_cons (file : ChangedFile) (rest : List ChangedFile) :
    printDiff (file :: rest) = diffGit ++ (file.behindMark ++ printDiff rest) := by
  rw [printDiff, List.flatMap_cons, file.unlines_printed, List.append_assoc, printDiff]

theorem split_behindMark (file : ChangedFile) (rest : List ChangedFile) {start : Text}
    (hstart : '\n' ∉ start) :
    split sectionMark (start ++ (file.behindMark ++ printDiff rest)) =
      (start ++ if rest.isEmpty then file.behindMark else file.behindMark.dropLast) ::
        (sectionTexts rest).map (List.drop diffGit.length) := by
  induction rest generalizing file start with
  | nil =>
    have hnone := file.not_sectionMark hstart
    rw [printDiff, List.flatMap_nil, List.append_nil, split_of_not_infix hnone]
    rfl
  | cons next rest ih =>
    have htext : start ++ (file.behindMark ++ printDiff (next :: rest)) =
        (start ++ file.behindMark.dropLast) ++
          (sectionMark ++ ([] ++ (next.behindMark ++ printDiff rest))) := by
      rw [printDiff_cons, file.behindMark_eq, List.dropLast_concat]
      simp [sectionMark]
    have hnone : ¬ sectionMark <:+: start ++ file.behindMark.dropLast := by
      intro hmark
      apply file.not_sectionMark hstart
      exact hmark.trans
        ((List.prefix_append_right_inj start).mpr (List.dropLast_prefix _)).isInfix
    have hcut : CleanCut sectionMark (start ++ file.behindMark.dropLast)
        (sectionMark ++ ([] ++ (next.behindMark ++ printDiff rest))) := cleanCut_sectionMark _ _
    rw [htext, split_append (by decide) hcut hnone, ih next List.not_mem_nil, sectionTexts,
      List.map_cons, next.sectionText_printed, List.drop_left]
    rfl

theorem sectionText_ne_blank (file : ChangedFile) (last : Bool) :
    trim (sectionText last file.printed) ≠ [] := by
  rw [file.sectionText_printed]
  apply trim_ne_nil_of_mem (c := 'd')
  · exact List.mem_append_left _ (by decide)
  · decide

theorem diffGit_append_drop {s : Text} (hs : diffGit <+: s) :
    diffGit ++ s.drop diffGit.length = s := by
  obtain ⟨rest, rfl⟩ := hs
  rw [List.drop_left]

theorem sections_printDiff (files : List ChangedFile) (hne : files ≠ []) :
    sections (printDiff files) = sectionTexts files := by
  have hprefixed : ∀ files : List ChangedFile, ∀ part ∈ sectionTexts files,
      diffGit <+: part ∧ trim part ≠ [] := by
    intro files
    induction files with
    | nil => simp [sectionTexts]
    | cons file rest ih =>
      intro part hpart
      rcases List.mem_cons.mp hpart with rfl | hmem
      · refine ⟨?_, sectionText_ne_blank file _⟩
        rw [file.sectionText_printed]
        exact List.prefix_append _ _
      · exact ih part hmem
  cases files with
  | nil => contradiction
  | cons file rest =>
    have hsplit := split_behindMark file rest diffGit_oneLine
    rw [← printDiff_cons, ← file.sectionText_printed] at hsplit
    have hrest : (sectionTexts rest).map ((diffGit ++ ·) ∘ List.drop diffGit.length) =
        sectionTexts rest := by
      conv_rhs => rw [← List.map_id (sectionTexts rest)]
      apply List.map_congr_left
      intro part hpart
      exact diffGit_append_drop (hprefixed rest part hpart).1
    rw [sections, ← sectionMark, hsplit]
    simp only [List.map_map, hrest]
    apply List.filter_eq_self.mpr
    intro part hpart
    simpa using (hprefixed (file :: rest) part hpart).2

theorem length_sectionTexts (files : List ChangedFile) :
    (sectionTexts files).length = files.length := by
  induction files with
  | nil => rfl
  | cons file rest ih => rw [sectionTexts, List.length_cons, List.length_cons, ih]

theorem filterMap_sectionTexts_iff (files : List ChangedFile) :
    (sectionTexts files).filterMap sectionRecord = files.map ChangedFile.record ↔
      AllPlain files := by
  induction files with
  | nil => simp [sectionTexts, AllPlain]
  | cons file rest ih =>
    rw [sectionTexts, List.filterMap_cons, List.map_cons, AllPlain, ← file.sectionRecord_iff, ← ih]
    cases hrecord : sectionRecord (sectionText rest.isEmpty file.printed) with
    | none =>
      constructor
      · intro hall
        change (sectionTexts rest).filterMap sectionRecord = _ at hall
        have hlength := congrArg List.length hall
        have hle := List.length_filterMap_le sectionRecord (sectionTexts rest)
        rw [length_sectionTexts] at hle
        rw [List.length_cons, List.length_map] at hlength
        omega
      · rintro ⟨hfile, _⟩
        contradiction
    | some record => simp

theorem parseGitDiff_printDiff (files : List ChangedFile) :
    parseGitDiff (printDiff files) = (sectionTexts files).filterMap sectionRecord := by
  cases files with
  | nil => decide
  | cons file rest =>
    have hnonempty : trim (printDiff (file :: rest)) ≠ [] := by
      rw [printDiff_cons]
      apply trim_ne_nil_of_mem (c := 'd')
      · exact List.mem_append_left _ (by decide)
      · decide
    have hfirst : diffGit.isPrefixOf ((sectionTexts (file :: rest)).headD []) = true := by
      rw [sectionTexts, List.headD_cons, file.sectionText_printed, List.isPrefixOf_iff_prefix]
      exact List.prefix_append _ _
    rw [parseGitDiff, if_neg hnonempty, sections_printDiff _ (List.cons_ne_nil _ _), hfirst]
    simp

/-- A printed diff is read back, file by file, exactly if every file is plain. -/
theorem parseGitDiff_printDiff_iff (files : List ChangedFile) :
    parseGitDiff (printDiff files) = files.map ChangedFile.record ↔ AllPlain files := by
  rw [parseGitDiff_printDiff, filterMap_sectionTexts_iff]

def spacedFile : ChangedFile where
  oldPath := ['a', ' ', 'b']
  newPath := ['a', ' ', 'b']
  extended := ["--- a/a b\t".toList, "+++ b/a b\t".toList]
  hunks := [⟨" -1 +1 @@", [(.removed, ['x']), (.added, ['y'])], by decide, by decide⟩]
  oldPath_bare := by simp [Bare]
  newPath_bare := by simp [Bare]
  newPath_ne := by decide
  extended_oneLine := by decide
  extended_plain := by decide

theorem spaced_path_is_dropped : ¬ ∀ files : List ChangedFile,
      parseGitDiff (printDiff files) = files.map ChangedFile.record := by
  intro hall
  have hempty : parseGitDiff (printDiff [spacedFile]) = [] := by decide
  have hread := hall [spacedFile]
  rw [hempty] at hread
  contradiction

end Difflore.Infra

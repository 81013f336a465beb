import Difflore.Review.GitForm

/-! # Sections of the record form

Nothing closes a section here: the whole diff goes to the last path it names.
-/

namespace Difflore.Review

open Foundation Text

variable {files : List RecordFile}

/-- The lines of a diff put together from records, as they are read. -/
def recordLines (files : List RecordFile) : List Text :=
  (files.flatMap RecordFile.lines).map stripCr

theorem lines_oneLine (file : RecordFile) : ∀ line ∈ file.lines, '\n' ∉ line := by
  intro line hline
  rcases List.mem_cons.mp hline with rfl | hline
  · intro hmem
    rcases List.mem_append.mp hmem with hmem | hmem
    · exact absurd hmem (by decide)
    · exact file.path_oneLine hmem
  · rcases List.mem_cons.mp hline with rfl | hline
    · intro hmem
      rcases List.mem_append.mp hmem with hmem | hmem
      · exact absurd hmem (by decide)
      · exact file.path_oneLine hmem
    · obtain ⟨hunk, _, hmem⟩ := List.mem_flatMap.mp hline
      rcases List.mem_cons.mp hmem with rfl | hmem
      · exact hunk.header_oneLine
      · exact hunk.lines_oneLine line hmem

theorem recordLines_oneLine : ∀ line ∈ recordLines files, '\n' ∉ line := by
  intro line hline
  obtain ⟨raw, hraw, rfl⟩ := List.mem_map.mp hline
  obtain ⟨file, _, hmem⟩ := List.mem_flatMap.mp hraw
  exact newline_not_mem_stripCr (lines_oneLine file raw hmem)

def recordHeader (path : Text) : List Text :=
  ["--- a/" ++ stripCr path, "+++ b/" ++ stripCr path]

theorem recordLines_cons (file : RecordFile) (rest : List RecordFile) : recordLines (file :: rest) =
      recordHeader file.path ++ hunkLines file.hunks ++ recordLines rest := by
  have hminus : stripCr ("--- a/" ++ file.path) =
      "--- a/" ++ stripCr file.path := stripCr_append (by decide) _
  have hplus : stripCr ("+++ b/" ++ file.path) =
      "+++ b/" ++ stripCr file.path := stripCr_append (by decide) _
  unfold recordLines
  rw [List.flatMap_cons, List.map_append]
  unfold RecordFile.lines recordHeader hunkLines
  rw [List.map_cons, List.map_cons, hminus, hplus]
  rfl

theorem recordLines_append (files rest : List RecordFile) :
    recordLines (files ++ rest) = recordLines files ++ recordLines rest := by
  unfold recordLines
  rw [List.flatMap_append, List.map_append]

theorem isGitHeader_recordLines : ∀ line ∈ recordLines files, isGitHeader line = false := by
  induction files with
  | nil => exact fun line hline => absurd hline (List.not_mem_nil)
  | cons file rest ih =>
    intro line hline
    rw [recordLines_cons] at hline
    rcases List.mem_append.mp hline with hline | hline
    · rcases List.mem_append.mp hline with hline | hline
      · rcases List.mem_cons.mp hline with rfl | hline
        · rfl
        · rw [List.mem_singleton] at hline
          subst hline
          rfl
      · exact isGitHeader_hunkLines file.hunks line hline
    · exact ih line hline

theorem splitDiffByFile_records :
    splitDiffByFile (diffRecordsToString (files.map RecordFile.record)) =
      pushSection [] (recordLines files) := by
  have htext : diffRecordsToString (files.map RecordFile.record) =
      unlines (files.flatMap RecordFile.lines) := by
    rw [diffRecordsToString, List.flatMap_map]
    simp only [RecordFile.diffRecordPatch_record]
    exact unlines_flatMap files RecordFile.lines
  have hread : Text.lines (diffRecordsToString (files.map RecordFile.record)) =
      recordLines files := by
    rw [htext, lines_unlines]
    · rfl
    · intro line hline
      obtain ⟨file, _, hmem⟩ := List.mem_flatMap.mp hline
      exact lines_oneLine file line hmem
  rw [splitDiffByFile, hread]
  exact flush_foldl_splitStep isGitHeader_recordLines []

theorem isHunkHeader_recordHeader (path : Text) :
    ∀ line ∈ recordHeader path, isHunkHeader line = false := by
  intro line hline
  rcases List.mem_cons.mp hline with rfl | hline
  · rfl
  · rw [List.mem_singleton] at hline
    subst hline
    rfl

theorem isHunkHeader_recordLines (hempty : ∀ file ∈ files, file.hunks = []) :
    ∀ line ∈ recordLines files, isHunkHeader line = false := by
  induction files with
  | nil => exact fun line hline => absurd hline (List.not_mem_nil)
  | cons file rest ih =>
    intro line hline
    rw [recordLines_cons, hempty file (.head _)] at hline
    rcases List.mem_append.mp hline with hline | hline
    · rw [hunkLines, List.flatMap_nil, List.map_nil, List.append_nil] at hline
      exact isHunkHeader_recordHeader file.path line hline
    · exact ih (fun other hother => hempty other (.tail _ hother)) line hline

theorem namedPath_recordHeader {path : Text} (hreadable : Readable path) :
    namedPath ("+++ b/" ++ stripCr path) = some path := by
  have hnamed : namedPath ("+++ " ++ ("b/" ++ stripCr path)) = some (trim (stripCr path)) := by
    apply namedPath_plus_b
    rwa [Text.trim_stripCr, hreadable.2.2]
  rw [Text.trim_stripCr, hreadable.2.2] at hnamed
  exact hnamed

/-- A record whose path reads back as itself is in the section, behind a part of
what stands in front of its hunks. -/
theorem bodyOf_recordLines (before after : List RecordFile) {file : RecordFile}
    (hreadable : Readable file.path) :
    ∃ front, front <:+ recordLines before ++ recordHeader file.path ∧
      bodyOf (recordLines (before ++ file :: after)) =
        front ++ (hunkLines file.hunks ++ recordLines after) := by
  have hnamed := namedPath_recordHeader hreadable
  let ahead := recordLines before ++ ["--- a/" ++ stripCr file.path]
  let plus := "+++ b/" ++ stripCr file.path
  have hlines : recordLines (before ++ file :: after) =
      ahead ++ plus :: (hunkLines file.hunks ++ recordLines after) := by
    rw [recordLines_append, recordLines_cons]
    simp only [ahead, plus, recordHeader, List.append_assoc, List.cons_append, List.nil_append]
  refine ⟨bodyOf ahead ++ [plus], ?_, ?_⟩
  · obtain ⟨dropped, hdropped⟩ : bodyOf ahead <:+ ahead := List.dropWhile_suffix _
    refine ⟨dropped, ?_⟩
    rw [← List.append_assoc, hdropped]
    simp only [ahead, plus, recordHeader, List.append_assoc, List.cons_append, List.nil_append]
  · have hplus : bodyOf (plus :: (hunkLines file.hunks ++ recordLines after)) =
        plus :: (hunkLines file.hunks ++ recordLines after) :=
      List.dropWhile_cons_of_neg (by
        rw [show namedPath plus = some file.path from hnamed]
        exact Bool.false_ne_true)
    rw [hlines, bodyOf, List.dropWhile_append]
    split
    next hempty =>
      rw [bodyOf, List.isEmpty_iff.mp hempty]
      exact hplus
    next =>
      rw [List.append_assoc]
      rfl

theorem length_le_fromHeader (front : List Text) {hunks : List Text} {header : Text}
    {rest : List Text} (hhunks : hunks = header :: rest) (hmarked : isHunkHeader header = true) :
    hunks.length ≤ (fromHeader (front ++ hunks)).length := by
  subst hhunks
  unfold fromHeader
  rw [List.dropWhile_append, List.dropWhile_cons_of_neg (by simp [hmarked])]
  split
  next => exact le_refl _
  next => rw [List.length_append]; exact Nat.le_add_left _ _

theorem last_of_heldBy {before after : List RecordFile} {file : RecordFile}
    (hhunks : file.hunks ≠ []) (hheld : HeldBy (splitDiffByFile (diffRecordsToString
      ((before ++ file :: after).map RecordFile.record))) file.path file.hunks) :
    after = [] ∧ keyOf (recordLines (before ++ file :: after)) = some file.path := by
  obtain ⟨pre, hpre, hlookup⟩ := hheld
  rw [splitDiffByFile_records, lookup_pushSection_nil] at hlookup
  obtain ⟨hkey, hbody⟩ := hlookup
  obtain ⟨front, _, hsection⟩ := bodyOf_recordLines before after (readable_of_keyOf hkey)
  have hlines :
    pre ++ hunkLines file.hunks = front ++ (hunkLines file.hunks ++ recordLines after) := by
    rw [← hsection]
    apply unlines_injective _ _ hbody
    · intro line hline
      rcases List.mem_append.mp hline with hline | hline
      · exact (hpre line hline).1
      · exact hunkLines_oneLine file.hunks line hline
    · exact fun line hline =>
        recordLines_oneLine line ((List.dropWhile_sublist _).subset hline)
  have hfrom : fromHeader (pre ++ hunkLines file.hunks) = hunkLines file.hunks := by
    have := fromHeader_append hhunks (fun line hline => (hpre line hline).2) []
    rwa [List.append_nil] at this
  obtain ⟨header, rest, hcons, hmarked, _⟩ := hunkLines_cons hhunks
  have hcons' : hunkLines file.hunks ++ recordLines after =
      header :: (rest ++ recordLines after) := by
    rw [hcons]
    rfl
  have hlength := length_le_fromHeader front hcons' hmarked
  rw [← hlines, hfrom, List.length_append] at hlength
  have hafter : recordLines after = [] := List.length_eq_zero_iff.mp (by omega)
  refine ⟨?_, hkey⟩
  cases after with
  | nil => rfl
  | cons other others =>
    rw [recordLines_cons] at hafter
    simp [recordHeader] at hafter

/-- If the sections hold the hunks of all records, then only the last record
has hunks, and the path the diff names last is its own. -/
theorem lastNamesOwn_of_heldBy (hheld : ∀ file ∈ files, file.hunks ≠ [] →
      HeldBy (splitDiffByFile (diffRecordsToString (files.map RecordFile.record)))
        file.path file.hunks)
    {file : RecordFile} (hfile : file ∈ files) (hhunks : file.hunks ≠ []) :
    (∃ before, files = before ++ [file] ∧ ∀ other ∈ before, other.hunks = []) ∧
      keyOf (recordLines files) = some file.path := by
  obtain ⟨before, after, rfl⟩ := List.append_of_mem hfile
  obtain ⟨rfl, hkey⟩ := last_of_heldBy hhunks (hheld file hfile hhunks)
  refine ⟨⟨before, rfl, ?_⟩, hkey⟩
  intro other hother
  by_contra hotherHunks
  obtain ⟨front, back, rfl⟩ := List.append_of_mem hother
  have hmem : other ∈ (front ++ other :: back) ++ [file] := List.mem_append_left _ hother
  have hotherHeld := hheld other hmem hotherHunks
  rw [List.append_assoc, List.cons_append] at hotherHeld
  have hlast := (last_of_heldBy hotherHunks hotherHeld).1
  simp at hlast

theorem heldBy_of_lastNamesOwn {before : List RecordFile} {file : RecordFile}
    (hempty : ∀ other ∈ before, other.hunks = [])
    (hkey : keyOf (recordLines (before ++ [file])) = some file.path) :
    HeldBy (splitDiffByFile (diffRecordsToString ((before ++ [file]).map RecordFile.record)))
      file.path file.hunks := by
  obtain ⟨front, hfront, hsection⟩ := bodyOf_recordLines before [] (readable_of_keyOf hkey)
  refine ⟨front, ?_, ?_⟩
  · intro line hline
    have hmem := hfront.subset hline
    constructor
    · have hlines : recordLines before ++ recordHeader file.path =
          recordLines (before ++ [⟨file.path, [], file.path_oneLine⟩]) := by
        rw [recordLines_append, recordLines_cons]
        simp [recordLines, hunkLines]
      rw [hlines] at hmem
      exact recordLines_oneLine line hmem
    · rcases List.mem_append.mp hmem with hmem | hmem
      · exact isHunkHeader_recordLines hempty line hmem
      · exact isHunkHeader_recordHeader file.path line hmem
  · rw [splitDiffByFile_records, lookup_pushSection_nil]
    refine ⟨hkey, ?_⟩
    rw [hsection]
    simp [recordLines]

/-! ## Hunks are attributed to their file -/

variable {quoting : GitQuoting}

/-- The sections hold each file's hunks under its path, and issues are resolved
against the hunks of their own file. -/
def Attributed (diff : MultiFileDiff quoting) : Prop :=
  (∀ change ∈ diff.changed, HeldBy (splitDiffByFile diff.text) change.1 change.2) ∧
    ∀ issues snippets, applyHunkLineResolution issues snippets diff.text =
      (withSnippets issues snippets).map fun (issue, snippet) =>
        resolveIssue diff.ownHunks issue snippet

/-- In the git form, the last path that a file's text names is the file's own.
In the record form, only the last file has hunks, and the last path that the
diff names is its own. -/
def NamesOwn : MultiFileDiff quoting → Prop
  | .git files _ =>
    ∀ file ∈ files, file.hunks ≠ [] → keyOf (file.readRest quoting) = file.newPath
  | .records files =>
    ∀ file ∈ files, file.hunks ≠ [] →
      (∃ before, files = before ++ [file] ∧ ∀ other ∈ before, other.hunks = []) ∧
        keyOf (recordLines files) = some file.path

theorem mem_changed_git {files : List GitFile}
    {hdistinct : (files.filterMap GitFile.newPath).Nodup} {change : Text × List UnifiedHunk} :
    change ∈ (MultiFileDiff.git files hdistinct : MultiFileDiff quoting).changed ↔
      ∃ file ∈ files, file.hunks ≠ [] ∧ file.newPath = some change.1 ∧ file.hunks = change.2 := by
  unfold MultiFileDiff.changed
  constructor
  · intro hchange
    obtain ⟨file, hmem, hmap⟩ := List.mem_filterMap.mp hchange
    obtain ⟨hfile, hhunks⟩ := List.mem_filter.mp hmem
    obtain ⟨path, hpath, rfl⟩ := Option.map_eq_some_iff.mp hmap
    exact ⟨file, hfile, by simpa using hhunks, hpath, rfl⟩
  · rintro ⟨file, hfile, hhunks, hpath, heq⟩
    apply List.mem_filterMap.mpr
    refine ⟨file, List.mem_filter.mpr ⟨hfile, by simpa using hhunks⟩, ?_⟩
    rw [hpath, heq]
    rfl

theorem mem_changed_records {files : List RecordFile} {change : Text × List UnifiedHunk} :
    change ∈ (MultiFileDiff.records files : MultiFileDiff quoting).changed ↔
      ∃ file ∈ files, file.hunks ≠ [] ∧ (file.path, file.hunks) = change := by
  unfold MultiFileDiff.changed
  simp [and_assoc]

theorem parseHunks_of_heldBy {sections : Sections} {path : Text} {hunks : List UnifiedHunk}
    (hheld : HeldBy sections path hunks) :
    sectionHunks sections path = parseHunks (unlines (hunkLines hunks)) := by
  obtain ⟨pre, hpre, hlookup⟩ := hheld
  rw [sectionHunks, hlookup]
  exact parseHunks_unlines_append (fun line hline => (hpre line hline).1)
    (hunkLines_oneLine hunks) (fun line hline => (hpre line hline).2)

theorem parseHunks_of_no_header {files : List RecordFile}
    (hempty : ∀ file ∈ files, file.hunks = []) :
    parseHunks (unlines (bodyOf (recordLines files))) = [] := by
  have hbody : ∀ line ∈ bodyOf (recordLines files), line ∈ recordLines files :=
    fun line hline => (List.dropWhile_sublist _).subset hline
  have hskip : parseHunks (unlines (bodyOf (recordLines files) ++ [])) =
      parseHunks (unlines []) := parseHunks_unlines_append
    (fun line hline => recordLines_oneLine line (hbody line hline)) (by simp)
    (fun line hline => isHunkHeader_recordLines hempty line (hbody line hline))
  rw [List.append_nil] at hskip
  exact hskip

/-- Where all hunks are held, and every other section is without hunks, issues
are resolved against their own file. -/
theorem attributed_of_heldBy {diff : MultiFileDiff quoting}
    (hheld : ∀ change ∈ diff.changed, HeldBy (splitDiffByFile diff.text) change.1 change.2)
    (hother : ∀ path, (∀ change ∈ diff.changed, change.1 ≠ path) →
      sectionHunks (splitDiffByFile diff.text) path = []) : Attributed diff := by
  have hown : sectionHunks (splitDiffByFile diff.text) = diff.ownHunks := by
    funext path
    unfold MultiFileDiff.ownHunks
    cases hlookup : diff.changed.lookup path with
    | none =>
      apply hother
      rintro change hchange rfl
      have := List.lookup_eq_none_iff.mp hlookup change hchange
      simp at this
    | some hunks =>
      have hmem : (path, hunks) ∈ diff.changed := by
        obtain ⟨front, back, heq, _⟩ := List.lookup_eq_some_iff.mp hlookup
        rw [heq]
        exact List.mem_append_right _ (.head _)
      exact parseHunks_of_heldBy (hheld _ hmem)
  refine ⟨hheld, fun issues snippets => ?_⟩
  rw [applyHunkLineResolution, hown]

/-- Hunks are attributed to their file if and only if each is named right. -/
theorem attributed_iff_namesOwn (diff : MultiFileDiff quoting) :
    Attributed diff ↔ NamesOwn diff := by
  cases diff with
  | git files hdistinct =>
    constructor
    · rintro ⟨hheld, _⟩
      apply keyOf_eq_newPath
      intro file hfile hhunks path hpath
      exact hheld (path, file.hunks) (mem_changed_git.mpr ⟨file, hfile, hhunks, hpath, rfl⟩)
    · intro hown
      apply attributed_of_heldBy
      · intro change hchange
        obtain ⟨file, hfile, hhunks, hpath, heq⟩ := mem_changed_git.mp hchange
        rw [← heq]
        exact heldBy_of_keyOf hdistinct hown hfile hhunks hpath
      · intro path hnone
        cases hfound : (splitDiffByFile (MultiFileDiff.git files hdistinct).text).lookup path with
        | none => rw [sectionHunks, hfound]; rfl
        | some found =>
          obtain ⟨file, hfile, hhunks, hpath, _⟩ := section_of_keyOf hown hfound
          exact absurd rfl (hnone (path, file.hunks)
            (mem_changed_git.mpr ⟨file, hfile, hhunks, hpath, rfl⟩))
  | records files =>
    constructor
    · rintro ⟨hheld, _⟩ file hfile hhunks
      apply lastNamesOwn_of_heldBy _ hfile hhunks
      intro other hother hotherHunks
      exact hheld _ (mem_changed_records.mpr ⟨other, hother, hotherHunks, rfl⟩)
    · intro hown
      apply attributed_of_heldBy
      · intro change hchange
        obtain ⟨file, hfile, hhunks, rfl⟩ := mem_changed_records.mp hchange
        obtain ⟨⟨before, rfl, hempty⟩, hkey⟩ := hown file hfile hhunks
        exact heldBy_of_lastNamesOwn hempty hkey
      · intro path hnone
        cases hfound : (splitDiffByFile
            (MultiFileDiff.records files : MultiFileDiff quoting).text).lookup path with
        | none => rw [sectionHunks, hfound]; rfl
        | some found =>
          rw [sectionHunks, hfound]
          have hsection := hfound
          rw [MultiFileDiff.text, splitDiffByFile_records, lookup_pushSection_nil] at hsection
          obtain ⟨hkey, rfl⟩ := hsection
          have hempty : ∀ file ∈ files, file.hunks = [] := by
            intro file hfile
            by_contra hhunks
            have hlast := (hown file hfile hhunks).2
            rw [hkey] at hlast
            exact hnone _ (mem_changed_records.mpr ⟨file, hfile, hhunks, rfl⟩)
              (Option.some.inj hlast).symm
          exact parseHunks_of_no_header hempty

section Example

def exampleHunk : UnifiedHunk where
  header := "@@ -1 +1 @@"
  lines := ["-old", "+new"]
  header_marked := by decide
  header_oneLine := by decide
  lines_oneLine := by decide
  lines_marked := by simp

/-- Two records: the hunks of `a.rs` are in no section of its own. -/
theorem two_records_not_attributed : ¬ Attributed (.records
      [⟨"a.rs", [exampleHunk], by decide⟩, ⟨"b.rs", [exampleHunk], by decide⟩] :
        MultiFileDiff cQuoting) := by
  rintro ⟨hheld, _⟩
  have hfirst := hheld ("a.rs", [exampleHunk]) (mem_changed_records.mpr
    ⟨⟨"a.rs", [exampleHunk], by decide⟩, .head _, List.cons_ne_nil _ _, rfl⟩)
  have hlast := (@last_of_heldBy [] _ _ (List.cons_ne_nil _ _) hfirst).1
  contradiction

end Example

end Difflore.Review

import Difflore.Review.UnifiedDiff

/-! # Sections of the git form

A section is right when the last `+++` line of the file's text names the file.
-/

namespace Difflore.Review

open Foundation Text

variable {path : Text}

def HeldBy (sections : Sections) (path : Text) (hunks : List UnifiedHunk) : Prop :=
  ∃ pre, (∀ line ∈ pre, '\n' ∉ line ∧ isHunkHeader line = false) ∧
    sections.lookup path = some (unlines (pre ++ hunkLines hunks))

def fromHeader (ls : List Text) : List Text := ls.dropWhile fun line => !isHunkHeader line

theorem fromHeader_append {pre : List Text} {hunks : List UnifiedHunk} (hne : hunks ≠ [])
    (hpre : ∀ line ∈ pre, isHunkHeader line = false) (rest : List Text) :
    fromHeader (pre ++ (hunkLines hunks ++ rest)) = hunkLines hunks ++ rest := by
  obtain ⟨header, others, hlines, hmarked, _⟩ := hunkLines_cons hne
  unfold fromHeader
  rw [List.dropWhile_append_of_pos (by simpa using hpre), hlines, List.cons_append,
    List.dropWhile_cons_of_neg (by simp [hmarked])]

/-- A path that is read from a `+++` line reads back as itself. -/
def Readable (path : Text) : Prop := path ≠ [] ∧ path ≠ "/dev/null" ∧ trim path = path

theorem readable_of_keyOf {ls : List Text} (hkey : keyOf ls = some path) : Readable path := by
  obtain ⟨line, _, hnamed⟩ := keyOf_mem hkey
  exact (namedPath_spec hnamed).2

theorem namedPath_plus {rest : Text} (hrest : trim ((stripPrefix "b/" rest).getD rest) = path)
    (hreadable : path ≠ [] ∧ path ≠ "/dev/null") :
    namedPath ("+++ " ++ rest) = some path := by
  have hstrip : stripPrefix "+++ " ("+++ " ++ rest) = some rest := by
    rw [stripPrefix, if_pos (List.prefix_append _ _), List.drop_left]
  unfold namedPath
  rw [hstrip]
  dsimp only
  rw [hrest, if_pos]
  rw [decide_eq_true hreadable.1, decide_eq_true hreadable.2]
  rfl

theorem namedPath_plus_b (hreadable : Readable (trim path)) :
    namedPath ("+++ " ++ ("b/" ++ path)) = some (trim path) := by
  apply namedPath_plus
  · rw [stripPrefix, if_pos (List.prefix_append _ _), List.drop_left]
    rfl
  · exact ⟨hreadable.1, hreadable.2.1⟩

/-- What a `+++ b/` line names is the trimmed path. -/
theorem eq_trim_of_namedPath_plus_b {named : Text}
    (hnamed : namedPath ("+++ " ++ ("b/" ++ path)) = some named) :
    named = trim path := by
  have hstrip : ∀ start rest : Text, stripPrefix start (start ++ rest) = some rest := by
    intro start rest
    rw [stripPrefix, if_pos (List.prefix_append _ _), List.drop_left]
  unfold namedPath at hnamed
  rw [hstrip] at hnamed
  dsimp only at hnamed
  rw [hstrip] at hnamed
  split at hnamed
  next => exact (Option.some.inj hnamed).symm
  next => contradiction

section Git

variable {quoting : GitQuoting}

namespace GitFile

/-- The lines behind the `diff --git` line, as they are read. -/
def readRest (quoting : GitQuoting) (file : GitFile) : List Text := (file.rest quoting).map stripCr

end GitFile

def readNewSide (quoting : GitQuoting) (path : Option Text) : Text :=
  stripCr (quoting.newSideLine path)

theorem namedPath_readNewSide_deleted : namedPath (readNewSide quoting none) = none := by
  have hline : readNewSide quoting none = "+++ /dev/null" := rfl
  rw [hline]
  rfl

theorem readNewSide_head (path : Option Text) : (readNewSide quoting path).head? = some '+' := by
  unfold readNewSide GitQuoting.newSideLine
  rw [List.append_assoc, stripCr_append (by decide)]
  rfl

theorem trim_append_tab (path : Text) (spaced : Prop) [Decidable spaced] :
    trim (path ++ if spaced then ['\t'] else []) = trim path := by
  split
  next => exact trim_concat_of_isWhitespace (by decide)
  next => rw [List.append_nil]

theorem readNewSide_plain (hplain : path.any quoting.quotes = false) :
    ∃ shown, readNewSide quoting (some path) = "+++ " ++ ("b/" ++ shown) ∧
      trim shown = trim path := by
  have hlabel := GitQuoting.label_plain hplain
  unfold readNewSide GitQuoting.newSideLine
  generalize quoting.label (some path) = label at hlabel ⊢
  refine ⟨stripCr (path ++ if ' ' ∈ label then ['\t'] else []), ?_, ?_⟩
  · rw [List.append_assoc, stripCr_append (by decide)]
    congr 1
    generalize (if ' ' ∈ label then ['\t'] else []) = tab
    rw [hlabel, List.append_assoc, stripCr_append (by decide)]
  · rw [Text.trim_stripCr, trim_append_tab]

theorem namedPath_readNewSide_quoted (hquoted : path.any quoting.quotes = true) :
    namedPath (readNewSide quoting (some path)) = some (quoting.label (some path)) := by
  have hlabel := GitQuoting.label_quoted hquoted
  unfold readNewSide GitQuoting.newSideLine
  generalize quoting.label (some path) = label at hlabel ⊢
  have hhead : ∃ rest, label = '"' :: rest := ⟨_, hlabel⟩
  have hlast : label.getLast? = some '"' := by
    rw [hlabel]
    exact List.getLast?_append_of_ne_nil _ (by decide)
  obtain ⟨rest, hrest⟩ := hhead
  have hstripped : stripCr ("+++ " ++ label ++ if ' ' ∈ label then ['\t'] else []) =
      "+++ " ++ (label ++ if ' ' ∈ label then ['\t'] else []) := by
    rw [List.append_assoc]
    apply stripCr_of_getLast?
    split
    next =>
      rw [← List.append_assoc, List.getLast?_concat]
      decide
    next =>
      rw [List.append_nil, List.getLast?_append, hlast]
      decide
  rw [hstripped]
  apply namedPath_plus
  · have hno : stripPrefix "b/" (label ++ if ' ' ∈ label then ['\t'] else []) = none := by
      rw [stripPrefix, if_neg]
      rw [hrest]
      rintro ⟨tail, htail⟩
      exact absurd (List.cons.inj htail).1 (by decide)
    rw [hno, Option.getD_none, trim_append_tab]
    apply trim_of_ends
    · rw [hrest]
      rintro c ⟨⟩
      decide
    · rw [hlast]
      rintro c ⟨⟩
      decide
  · rw [hrest]
    exact ⟨List.cons_ne_nil _ _, fun heq => absurd (List.cons.inj heq).1 (by decide)⟩

theorem namedPath_readNewSide_plain (hplain : path.any quoting.quotes = false)
    (hreadable : Readable path) : namedPath (readNewSide quoting (some path)) = some path := by
  obtain ⟨shown, hshown, htrim⟩ := readNewSide_plain hplain
  rw [hreadable.2.2] at htrim
  rw [hshown, namedPath_plus_b (by rwa [htrim]), htrim]

theorem eq_trim_of_readNewSide_plain {named : Text} (hplain : path.any quoting.quotes = false)
    (hnamed : namedPath (readNewSide quoting (some path)) = some named) :
    named = trim path := by
  obtain ⟨shown, hshown, htrim⟩ := readNewSide_plain hplain
  rw [hshown] at hnamed
  exact (eq_trim_of_namedPath_plus_b hnamed).trans htrim

theorem length_lt_length_label (hquoted : path.any quoting.quotes = true) :
    path.length < (quoting.label (some path)).length := by
  have hescaped : path.length ≤
      (path.flatMap fun c => if quoting.quotes c then quoting.escape c else [c]).length := by
    clear hquoted
    induction path with
    | nil => exact le_refl 0
    | cons c rest ih =>
      have hc : 0 < (if quoting.quotes c then quoting.escape c else [c]).length := by
        split
        next => exact List.length_pos_iff.mpr (quoting.escape_ne_nil c)
        next => exact Nat.one_pos
      rw [List.flatMap_cons, List.length_append, List.length_cons]
      omega
  rw [GitQuoting.label_quoted hquoted, List.length_append, List.length_append]
  have hquote : ("\"".toList).length = 1 := rfl
  omega

namespace GitFile

variable (file : GitFile)

theorem namedPath_extended : ∀ line ∈ file.extended.map stripCr, namedPath line = none := by
  intro line hline
  obtain ⟨raw, hraw, rfl⟩ := List.mem_map.mp hline
  cases hnamed : namedPath (stripCr raw) with
  | none => rfl
  | some path =>
    have hstart := (prefix_stripCr_iff (by decide)).mp (namedPath_spec hnamed).1
    exact absurd hstart (file.extended_plain raw hraw).2.2

variable {file}

theorem readRest_of_hunks (hhunks : file.hunks ≠ []) : file.readRest quoting =
      file.extended.map stripCr ++ (readNewSide quoting file.newPath :: hunkLines file.hunks) := by
  unfold readRest rest
  rw [if_neg hhunks, List.map_append, List.map_cons]
  rfl

theorem keyOf_readRest (hhunks : file.hunks ≠ []) : keyOf (file.readRest quoting) =
      (keyOf (hunkLines file.hunks)).or (namedPath (readNewSide quoting file.newPath)) := by
  rw [readRest_of_hunks hhunks, keyOf_append, keyOf_eq_none file.namedPath_extended, Option.or_none]
  cases hnamed : namedPath (readNewSide quoting file.newPath) with
  | none => rw [keyOf_cons_none hnamed, Option.or_none]
  | some path =>
    rw [keyOf_cons_some hnamed]
    cases keyOf (hunkLines file.hunks) <;> rfl

theorem hunks_ne_nil_of_keyOf (hkey : keyOf (file.readRest quoting) = some path) :
    file.hunks ≠ [] := by
  intro hnil
  have hnone : keyOf (file.readRest quoting) = none := by
    unfold readRest rest
    rw [if_pos hnil, List.append_nil]
    exact keyOf_eq_none file.namedPath_extended
  rw [hnone] at hkey
  contradiction

theorem keyOf_readRest_deleted (hdeleted : file.newPath = none) :
    keyOf (file.readRest quoting) = none := by
  by_cases hhunks : file.hunks = []
  · cases hkey : keyOf (file.readRest quoting) with
    | none => rfl
    | some path => exact absurd hhunks (hunks_ne_nil_of_keyOf hkey)
  · rw [keyOf_readRest hhunks, hdeleted, namedPath_readNewSide_deleted, Option.or_none]
    apply keyOf_eq_none
    intro line hline
    obtain ⟨raw, hraw, rfl⟩ := List.mem_map.mp hline
    obtain ⟨hunk, hhunk, hmem⟩ := List.mem_flatMap.mp hraw
    apply namedPath_of_head
    intro hhead
    rcases List.mem_cons.mp hmem with rfl | hmem
    · rw [hunk_header_head] at hhead
      exact absurd hhead (by decide)
    · have hplus := file.deleted_adds_nothing hdeleted hunk hhunk raw hmem
      rcases stripCr_cases raw with heq | heq
      · rw [heq] at hplus
        exact hplus hhead
      · rw [heq, List.head?_append, hhead] at hplus
        exact hplus rfl

theorem bodyOf_readRest (hhunks : file.hunks ≠ [])
    (hnamed : (namedPath (readNewSide quoting file.newPath)).isSome = true) :
    bodyOf (file.readRest quoting) =
      [readNewSide quoting file.newPath] ++ hunkLines file.hunks := by
  rw [readRest_of_hunks hhunks, bodyOf, List.dropWhile_append_of_pos, List.dropWhile_cons_of_neg]
  · rfl
  · simpa [Option.isSome_iff_ne_none] using hnamed
  · intro line hline
    rw [file.namedPath_extended line hline]
    rfl

end GitFile

/-! ## The git form -/

section Files

variable {files : List GitFile}

theorem label_oneLine (path : Option Text) : '\n' ∉ quoting.label path := by
  cases path with
  | none =>
    change '\n' ∉ "/dev/null".toList
    decide
  | some path =>
    cases hquoted : path.any quoting.quotes with
    | false =>
      rw [GitQuoting.label_plain hquoted]
      intro hmem
      rcases List.mem_append.mp hmem with hmem | hmem
      · exact absurd hmem (by decide)
      · have hquotes := List.any_eq_false.mp hquoted '\n' hmem
        exact hquotes quoting.quotes_newline
    | true =>
      rw [GitQuoting.label_quoted hquoted]
      intro hmem
      rcases List.mem_append.mp hmem with hmem | hmem
      · rcases List.mem_append.mp hmem with hmem | hmem
        · exact absurd hmem (by decide)
        · obtain ⟨c, _, hc⟩ := List.mem_flatMap.mp hmem
          split at hc
          next => exact quoting.escape_oneLine c hc
          next hplain =>
            rw [List.mem_singleton] at hc
            subst hc
            exact hplain quoting.quotes_newline
      · exact absurd hmem (by decide)

theorem newSideLine_oneLine (path : Option Text) : '\n' ∉ quoting.newSideLine path := by
  intro hmem
  unfold GitQuoting.newSideLine at hmem
  rcases List.mem_append.mp hmem with hmem | hmem
  · rcases List.mem_append.mp hmem with hmem | hmem
    · exact absurd hmem (by decide)
    · exact label_oneLine _ hmem
  · split at hmem
    next => exact absurd hmem (by decide)
    next => contradiction

theorem readNewSide_oneLine (path : Option Text) : '\n' ∉ readNewSide quoting path :=
  newline_not_mem_stripCr (newSideLine_oneLine path)

theorem rest_oneLine (file : GitFile) : ∀ line ∈ file.rest quoting, '\n' ∉ line := by
  intro line hline
  unfold GitFile.rest at hline
  rcases List.mem_append.mp hline with hline | hline
  · exact file.extended_oneLine line hline
  · split at hline
    next => contradiction
    next =>
      rcases List.mem_cons.mp hline with rfl | hline
      · exact newSideLine_oneLine _
      · obtain ⟨hunk, _, hmem⟩ := List.mem_flatMap.mp hline
        rcases List.mem_cons.mp hmem with rfl | hmem
        · exact hunk.header_oneLine
        · exact hunk.lines_oneLine line hmem

theorem isGitHeader_readRest (file : GitFile) :
    ∀ line ∈ file.readRest quoting, isGitHeader line = false := by
  intro line hline
  unfold GitFile.readRest GitFile.rest at hline
  rw [List.map_append] at hline
  rcases List.mem_append.mp hline with hline | hline
  · obtain ⟨raw, hraw, rfl⟩ := List.mem_map.mp hline
    rw [isGitHeader_stripCr]
    exact (file.extended_plain raw hraw).1
  · split at hline
    next => contradiction
    next =>
      rcases List.mem_cons.mp hline with rfl | hline
      · apply isGitHeader_of_head
        change ∀ c ∈ (readNewSide quoting file.newPath).head?, c ≠ 'd'
        rw [readNewSide_head]
        rintro c ⟨⟩
        decide
      · exact isGitHeader_hunkLines file.hunks line hline

theorem splitDiffByFile_git (files : List GitFile) :
    splitDiffByFile (files.flatMap (GitFile.text quoting)) =
      (files.map (GitFile.readRest quoting)).foldl pushSection [] := by
  let chunk (file : GitFile) : Text × List Text :=
    (stripCr ("diff --git " ++ file.names), file.readRest quoting)
  have hread : Text.lines (files.flatMap (GitFile.text quoting)) =
      (files.map chunk).flatMap fun c => c.1 :: c.2 := by
    unfold GitFile.text
    rw [unlines_flatMap, lines_unlines, List.map_flatMap, List.flatMap_map]
    · rfl
    · intro line hline
      obtain ⟨file, _, hmem⟩ := List.mem_flatMap.mp hline
      rcases List.mem_cons.mp hmem with rfl | hmem
      · intro hnewline
        rcases List.mem_append.mp hnewline with hnewline | hnewline
        · exact absurd hnewline (by decide)
        · exact file.names_oneLine hnewline
      · exact rest_oneLine file line hmem
  unfold splitDiffByFile
  rw [hread, flush_foldl_chunks]
  · rw [List.map_map]
    rfl
  · intro c hc
    obtain ⟨file, _, rfl⟩ := List.mem_map.mp hc
    dsimp only [chunk]
    rw [isGitHeader_stripCr, isGitHeader, List.isPrefixOf_iff_prefix]
    exact List.prefix_append _ _
  · intro c hc
    obtain ⟨file, _, rfl⟩ := List.mem_map.mp hc
    exact isGitHeader_readRest file

theorem readRest_oneLine (file : GitFile) : ∀ line ∈ file.readRest quoting, '\n' ∉ line := by
  intro line hline
  obtain ⟨raw, hraw, rfl⟩ := List.mem_map.mp hline
  exact newline_not_mem_stripCr (rest_oneLine file raw hraw)

theorem keyOf_of_heldBy {file : GitFile} (hhunks : file.hunks ≠ [])
    (hheld : HeldBy (splitDiffByFile (files.flatMap (GitFile.text quoting))) path file.hunks) :
    ∃ other ∈ files, keyOf (other.readRest quoting) = some path ∧
      fromHeader (bodyOf (other.readRest quoting)) = hunkLines file.hunks := by
  obtain ⟨pre, hpre, hlookup⟩ := hheld
  rw [splitDiffByFile_git] at hlookup
  rcases lookup_foldl_pushSection hlookup with hnone | ⟨chunk, hchunk, hkey, hbody⟩
  · contradiction
  · obtain ⟨other, hother, rfl⟩ := List.mem_map.mp hchunk
    have hbodyLines : ∀ line ∈ bodyOf (other.readRest quoting), '\n' ∉ line := fun line hline =>
      readRest_oneLine other line ((List.dropWhile_sublist _).subset hline)
    have hpreLines : ∀ line ∈ pre ++ hunkLines file.hunks, '\n' ∉ line := by
      intro line hline
      rcases List.mem_append.mp hline with hline | hline
      · exact (hpre line hline).1
      · exact hunkLines_oneLine file.hunks line hline
    refine ⟨other, hother, hkey, ?_⟩
    rw [← unlines_injective hpreLines hbodyLines hbody]
    have hfrom := fromHeader_append hhunks (fun line hline => (hpre line hline).2) []
    rwa [List.append_nil] at hfrom

theorem keyOf_of_suffix {ls whole : List Text} (hsuffix : ls <:+ whole)
    (hkey : keyOf ls = some path) : keyOf whole = some path := by
  obtain ⟨front, rfl⟩ := hsuffix
  rw [keyOf_append, hkey]
  rfl

theorem fromHeader_bodyOf_suffix (ls : List Text) : fromHeader (bodyOf ls) <:+ ls :=
  (List.dropWhile_suffix _).trans (List.dropWhile_suffix _)

theorem isHunkHeader_readNewSide (path : Option Text) :
    isHunkHeader (readNewSide quoting path) = false := by
  apply isHunkHeader_of_head
  rw [readNewSide_head]
  rintro c ⟨⟩
  decide

theorem fromHeader_newSide {file : GitFile} (hhunks : file.hunks ≠ []) :
    fromHeader ([readNewSide quoting file.newPath] ++ hunkLines file.hunks) =
      hunkLines file.hunks := by
  have hno : ∀ line ∈ [readNewSide quoting file.newPath], isHunkHeader line = false := by
    intro line hline
    rw [List.mem_singleton] at hline
    subst hline
    exact isHunkHeader_readNewSide _
  have hfrom := fromHeader_append hhunks hno []
  rwa [List.append_nil] at hfrom

theorem namedPath_newSide_ne_none
    (hheld : ∀ file ∈ files, file.hunks ≠ [] → ∀ path, file.newPath = some path →
      HeldBy (splitDiffByFile (files.flatMap (GitFile.text quoting))) path file.hunks)
    {file : GitFile} (hfile : file ∈ files) (hkey : keyOf (file.readRest quoting) = some path) :
    namedPath (readNewSide quoting file.newPath) ≠ none := by
  have hhunks := GitFile.hunks_ne_nil_of_keyOf hkey
  cases hpath : file.newPath with
  | none =>
    rw [GitFile.keyOf_readRest_deleted hpath] at hkey
    contradiction
  | some own =>
    cases hquoted : own.any quoting.quotes with
    | true => simp [namedPath_readNewSide_quoted hquoted]
    | false =>
      obtain ⟨_, _, hown, _⟩ := keyOf_of_heldBy hhunks (hheld file hfile hhunks own hpath)
      simp [namedPath_readNewSide_plain hquoted (readable_of_keyOf hown)]

theorem keyOf_eq_newPath
    (hheld : ∀ file ∈ files, file.hunks ≠ [] → ∀ path, file.newPath = some path →
      HeldBy (splitDiffByFile (files.flatMap (GitFile.text quoting))) path file.hunks) :
    ∀ file ∈ files, file.hunks ≠ [] → keyOf (file.readRest quoting) = file.newPath := by
  -- a section can only be mistaken for that of a file with a longer path
  have hlength : ∀ length, ∀ file ∈ files, file.hunks ≠ [] → ∀ path, file.newPath = some path →
      path.length = length → keyOf (file.readRest quoting) = some path := by
    intro length
    induction length using Nat.strong_induction_on with
    | _ length ih =>
      rintro file hfile hhunks path hpath rfl
      obtain ⟨other, hother, hkey, hsame⟩ :=
        keyOf_of_heldBy hhunks (hheld file hfile hhunks path hpath)
      have hotherHunks := GitFile.hunks_ne_nil_of_keyOf hkey
      rw [GitFile.keyOf_readRest hhunks]
      cases hcontent : keyOf (hunkLines file.hunks) with
      | some named =>
        have hsuffix := fromHeader_bodyOf_suffix (other.readRest quoting)
        rw [hsame] at hsuffix
        rw [keyOf_of_suffix hsuffix hcontent] at hkey
        exact hkey
      | none =>
        rw [hpath, Option.none_or]
        cases hquoted : path.any quoting.quotes with
        | false =>
          exact namedPath_readNewSide_plain hquoted (readable_of_keyOf hkey)
        | true =>
          exfalso
          cases hline : namedPath (readNewSide quoting other.newPath) with
          | none => exact namedPath_newSide_ne_none hheld hother hkey hline
          | some named =>
            rw [GitFile.bodyOf_readRest hotherHunks (by rw [hline]; rfl)] at hsame
            rw [fromHeader_newSide hotherHunks] at hsame
            rw [GitFile.keyOf_readRest hotherHunks, hsame, hcontent, hline] at hkey
            obtain rfl := Option.some.inj hkey
            cases hotherPath : other.newPath with
            | none =>
              rw [hotherPath, namedPath_readNewSide_deleted] at hline
              contradiction
            | some shorter =>
              rw [hotherPath] at hline
              cases hotherQuoted : shorter.any quoting.quotes with
              | false =>
                obtain rfl := eq_trim_of_readNewSide_plain hotherQuoted hline
                obtain ⟨c, hc, hquotes⟩ := List.any_eq_true.mp hquoted
                have hno := List.any_eq_false.mp hotherQuoted c (mem_of_mem_trim hc)
                exact hno hquotes
              | true =>
                rw [namedPath_readNewSide_quoted hotherQuoted] at hline
                obtain rfl := Option.some.inj hline
                have hlt := length_lt_length_label hotherQuoted
                have hself := ih shorter.length hlt other hother hotherHunks shorter
                  hotherPath rfl
                rw [GitFile.keyOf_readRest hotherHunks, hsame, hcontent, hotherPath,
                  namedPath_readNewSide_quoted hotherQuoted] at hself
                have heq := congrArg List.length (Option.some.inj hself)
                omega
  intro file hfile hhunks
  cases hpath : file.newPath with
  | none => exact GitFile.keyOf_readRest_deleted hpath
  | some path => exact hlength path.length file hfile hhunks path hpath rfl

theorem eq_of_newPath_eq (hdistinct : (files.filterMap GitFile.newPath).Nodup)
    {first second : GitFile} (hfirst : first ∈ files) (hsecond : second ∈ files)
    (hfirstPath : first.newPath = some path) (hsecondPath : second.newPath = some path) :
    first = second := by
  induction files with
  | nil => contradiction
  | cons file rest ih =>
    have hmem : ∀ other ∈ rest, other.newPath = some path → path ∈ rest.filterMap GitFile.newPath :=
      fun other hother hpath => List.mem_filterMap.mpr ⟨other, hother, hpath⟩
    have hhead : file.newPath = some path → path ∉ rest.filterMap GitFile.newPath := by
      intro hpath
      rw [List.filterMap_cons_some hpath] at hdistinct
      exact (List.nodup_cons.mp hdistinct).1
    have hrest : (rest.filterMap GitFile.newPath).Nodup :=
      hdistinct.sublist ((List.sublist_cons_self file rest).filterMap _)
    rcases List.mem_cons.mp hfirst with rfl | hfirstRest
    · rcases List.mem_cons.mp hsecond with rfl | hsecondRest
      · rfl
      · exact absurd (hmem second hsecondRest hsecondPath) (hhead hfirstPath)
    · rcases List.mem_cons.mp hsecond with rfl | hsecondRest
      · exact absurd (hmem first hfirstRest hfirstPath) (hhead hsecondPath)
      · exact ih hrest hfirstRest hsecondRest

theorem namedPath_readNewSide_isSome (hreadable : Readable path) :
    (namedPath (readNewSide quoting (some path))).isSome = true := by
  cases hquoted : path.any quoting.quotes with
  | false => rw [namedPath_readNewSide_plain hquoted hreadable]; rfl
  | true => rw [namedPath_readNewSide_quoted hquoted]; rfl

/-- Where every file reads as its own path, a section is the `+++` line and the
hunks of the file with that path. -/
theorem section_of_keyOf
    (hown : ∀ file ∈ files, file.hunks ≠ [] → keyOf (file.readRest quoting) = file.newPath)
    {found : Text}
    (hfound : (splitDiffByFile (files.flatMap (GitFile.text quoting))).lookup path = some found) :
    ∃ file ∈ files, file.hunks ≠ [] ∧ file.newPath = some path ∧
      found = unlines ([readNewSide quoting file.newPath] ++ hunkLines file.hunks) := by
  rw [splitDiffByFile_git] at hfound
  rcases lookup_foldl_pushSection hfound with hnone | ⟨chunk, hchunk, hkey, rfl⟩
  · contradiction
  · obtain ⟨file, hfile, rfl⟩ := List.mem_map.mp hchunk
    have hhunks := GitFile.hunks_ne_nil_of_keyOf hkey
    have hpath : file.newPath = some path := (hown file hfile hhunks).symm.trans hkey
    have hnamed : (namedPath (readNewSide quoting file.newPath)).isSome = true := by
      rw [hpath]
      exact namedPath_readNewSide_isSome (readable_of_keyOf hkey)
    exact ⟨file, hfile, hhunks, hpath, by rw [GitFile.bodyOf_readRest hhunks hnamed]⟩

theorem heldBy_of_keyOf (hdistinct : (files.filterMap GitFile.newPath).Nodup)
    (hown : ∀ file ∈ files, file.hunks ≠ [] → keyOf (file.readRest quoting) = file.newPath)
    {file : GitFile} (hfile : file ∈ files) (hhunks : file.hunks ≠ [])
    (hpath : file.newPath = some path) :
    HeldBy (splitDiffByFile (files.flatMap (GitFile.text quoting))) path file.hunks := by
  have hkey : keyOf (file.readRest quoting) = some path := (hown file hfile hhunks).trans hpath
  have hsome :
    ((splitDiffByFile (files.flatMap (GitFile.text quoting))).lookup path).isSome = true := by
    rw [splitDiffByFile_git]
    exact lookup_foldl_pushSection_isSome
      (.inr ⟨file.readRest quoting, List.mem_map_of_mem hfile, hkey⟩)
  obtain ⟨found, hfound⟩ := Option.isSome_iff_exists.mp hsome
  obtain ⟨other, hother, _, hotherPath, rfl⟩ := section_of_keyOf hown hfound
  obtain rfl := eq_of_newPath_eq hdistinct hother hfile hotherPath hpath
  refine ⟨[readNewSide quoting other.newPath], ?_, hfound⟩
  intro line hline
  rw [List.mem_singleton] at hline
  subst hline
  exact ⟨readNewSide_oneLine _, isHunkHeader_readNewSide _⟩

end Files

end Git

end Difflore.Review

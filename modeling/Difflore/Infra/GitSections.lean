import Difflore.Infra.GitPrint

/-! # Sections and hunks of a printed diff

The text of a file has the header mark at its start only, so the sections are the
files. Every section but the last loses its final line feed, and with it the line
loses nothing else: a carriage return at its end is kept.
-/

namespace Difflore.Infra

open Foundation Text
open Review (DiffHunkRecord DiffContentRecord)

variable {lines : List Text} {line : Text}

/-! ## Lines of a section -/

def readLines (last : Bool) (lines : List Text) : List Text :=
  if last then lines.map stripCr
  else lines.dropLast.map stripCr ++ lines.getLast?.toList

/-- The text of a section; only the last keeps its final line feed. -/
def sectionText (last : Bool) (lines : List Text) : Text :=
  if last then unlines lines else (unlines lines).dropLast

theorem unlines_concat (lines : List Text) (line : Text) :
    unlines (lines ++ [line]) = (unlines lines ++ line) ++ ['\n'] := by
  rw [unlines_append]
  simp [unlines]

theorem lines_unlines_append (hlines : ∀ line ∈ lines, '\n' ∉ line) (hline : '\n' ∉ line)
    (hne : line ≠ []) :
    Text.lines (unlines lines ++ line) = lines.map stripCr ++ [line] := by
  induction lines with
  | nil =>
    rw [lines_eq_map_splitInclusive, unlines, List.flatMap_nil, List.nil_append, splitInclusive,
      splitInclusiveFrom_of_newline_not_mem hline [] (by simpa using hne)]
    simp [stripEol_of_newline_not_mem hline]
  | cons first rest ih =>
    have hrest := ih fun other hmem => hlines other (.tail _ hmem)
    have hread := linesFrom_append (hlines first (.head _))
      (unlines rest ++ line) []
    have htext : unlines (first :: rest) ++ line = first ++ '\n' :: (unlines rest ++ line) := by
      simp [unlines]
    rw [htext, Text.lines, hread, hrest]
    rfl

theorem lines_sectionText (hlines : ∀ line ∈ lines, '\n' ∉ line)
    (hne : ∀ line ∈ lines.getLast?, line ≠ []) (last : Bool) :
    Text.lines (sectionText last lines) = readLines last lines := by
  unfold sectionText readLines
  cases last with
  | true => exact lines_unlines hlines
  | false =>
    simp only [Bool.false_eq_true, if_false]
    rcases List.eq_nil_or_concat lines with rfl | ⟨init, line, rfl⟩
    · rfl
    · rw [List.concat_eq_append] at hlines hne ⊢
      rw [unlines_concat, List.dropLast_concat, List.dropLast_concat, List.getLast?_concat]
      apply lines_unlines_append
      · exact fun other hmem => hlines other (List.mem_append_left _ hmem)
      · exact hlines line (List.mem_append_right _ (.head _))
      · exact hne line List.getLast?_concat

theorem readLines_append (last : Bool) (first : List Text) {second : List Text}
    (hne : second ≠ []) :
    readLines last (first ++ second) = first.map stripCr ++ readLines last second := by
  unfold readLines
  split
  next => exact List.map_append
  next =>
    rw [List.dropLast_append_of_ne_nil hne, List.map_append, List.getLast?_append_of_ne_nil _ hne,
      List.append_assoc]

theorem mem_readLines {last : Bool} (hline : line ∈ readLines last lines) :
    ∃ raw ∈ lines, line = stripCr raw ∨ line = raw := by
  unfold readLines at hline
  split at hline
  next =>
    obtain ⟨raw, hraw, rfl⟩ := List.mem_map.mp hline
    exact ⟨raw, hraw, .inl rfl⟩
  next =>
    rcases List.mem_append.mp hline with hmem | hmem
    · obtain ⟨raw, hraw, rfl⟩ := List.mem_map.mp hmem
      exact ⟨raw, List.mem_of_mem_dropLast hraw, .inl rfl⟩
    · have hlast := List.mem_of_getLast? (Option.mem_toList.mp hmem)
      exact ⟨line, hlast, .inr rfl⟩

theorem stripCr_eq_self_iff : stripCr line = line ↔ line.getLast? ≠ some '\r' := by
  constructor
  · intro hstrip hlast
    obtain ⟨body, rfl⟩ := List.getLast?_eq_some_iff.mp hlast
    rw [stripCr_concat] at hstrip
    simp at hstrip
  · exact stripCr_of_getLast?

theorem map_stripCr_eq_self_iff :
    lines.map stripCr = lines ↔ ∀ line ∈ lines, line.getLast? ≠ some '\r' := by
  conv_lhs => rw [← List.map_id lines, List.map_map]
  rw [Function.comp_id, List.map_inj_left]
  simp only [id, stripCr_eq_self_iff]

theorem readLines_eq_self_iff {last : Bool} : readLines last lines = lines ↔
      ∀ line ∈ if last then lines else lines.dropLast, line.getLast? ≠ some '\r' := by
  unfold readLines
  cases last with
  | true => exact map_stripCr_eq_self_iff
  | false =>
    simp only [Bool.false_eq_true, if_false]
    rcases List.eq_nil_or_concat lines with rfl | ⟨init, line, rfl⟩
    · simp
    · rw [List.concat_eq_append, List.dropLast_concat, List.getLast?_concat, Option.toList_some,
        List.append_cancel_right_eq, map_stripCr_eq_self_iff]

def hunkText (hunk : DiffHunkRecord) : Text := hunk.header ++ '\n' :: hunk.body

theorem flatMap_hunksFrom (lines : List Text) (current : DiffHunkRecord) :
    (hunksFrom (some current) lines).flatMap hunkText = hunkText current ++ unlines lines := by
  induction lines generalizing current with
  | nil => simp [hunksFrom, unlines]
  | cons line rest ih =>
    rw [hunksFrom]
    split
    next =>
      rw [Option.toList_some, List.singleton_append, List.flatMap_cons, ih]
      simp [hunkText, unlines]
    next =>
      rw [Option.map_some, ih]
      simp [hunkText, unlines]

theorem hunksFrom_skip {pre : List Text} (hpre : ∀ line ∈ pre, ¬ hunkMark <+: line)
    (lines : List Text) : hunksFrom none (pre ++ lines) = hunksFrom none lines := by
  induction pre with
  | nil => rfl
  | cons line pre ih =>
    rw [List.cons_append, hunksFrom, if_neg, Option.map_none]
    · exact ih fun other hmem => hpre other (.tail _ hmem)
    · rw [List.isPrefixOf_iff_prefix]
      exact hpre line (.head _)

theorem flatMap_hunksFrom_of_head (hhead : ∀ line ∈ lines.head?, hunkMark <+: line) :
    (hunksFrom none lines).flatMap hunkText = unlines lines := by
  cases lines with
  | nil => rfl
  | cons line rest =>
    have hline : hunkMark.isPrefixOf line := List.isPrefixOf_iff_prefix.mpr (hhead line rfl)
    rw [hunksFrom, if_pos hline, Option.toList_none, List.nil_append, flatMap_hunksFrom]
    simp [hunkText, unlines]

theorem hunksFrom_injective {first second : List Text}
    (hfirst : ∀ line ∈ first.head?, hunkMark <+: line)
    (hsecond : ∀ line ∈ second.head?, hunkMark <+: line)
    (hfirst_oneLine : ∀ line ∈ first, '\n' ∉ line) (hsecond_oneLine : ∀ line ∈ second, '\n' ∉ line)
    (hhunks : hunksFrom none first = hunksFrom none second) : first = second := by
  apply unlines_injective hfirst_oneLine hsecond_oneLine
  rw [← flatMap_hunksFrom_of_head hfirst, hhunks, flatMap_hunksFrom_of_head hsecond]

theorem hunkMark_prefix_header (hunk : PrintedHunk) :
    hunkMark <+: hunk.header := List.prefix_append _ _

theorem not_hunkMark_of_mem_lineTexts {hunk : PrintedHunk} (hline : line ∈ hunk.lineTexts) :
    ¬ hunkMark <+: line := by
  obtain ⟨⟨mark, contents⟩, _, rfl⟩ := List.mem_map.mp hline
  intro hstart
  have hhead : '@' = mark.symbol := (List.cons_prefix_cons.mp hstart).1
  cases mark <;> exact absurd hhead (by decide)

theorem hunksFrom_body (hlines : ∀ line ∈ lines, ¬ hunkMark <+: line) (current : DiffHunkRecord)
    (rest : List Text) :
    hunksFrom (some current) (lines ++ rest) =
      hunksFrom (some ⟨current.header, current.body ++ unlines lines⟩) rest := by
  induction lines generalizing current with
  | nil => simp [unlines]
  | cons line lines ih =>
    rw [List.cons_append, hunksFrom, if_neg, Option.map_some,
      ih fun other hmem => hlines other (.tail _ hmem)]
    · simp [unlines]
    · rw [List.isPrefixOf_iff_prefix]
      exact hlines line (.head _)

theorem hunksFrom_text (hunks : List PrintedHunk) (current : Option DiffHunkRecord) :
    hunksFrom current (hunks.flatMap PrintedHunk.text) =
      current.toList ++ hunks.map PrintedHunk.record := by
  induction hunks generalizing current with
  | nil => simp [hunksFrom]
  | cons hunk rest ih =>
    have hheader : hunkMark.isPrefixOf hunk.header :=
      List.isPrefixOf_iff_prefix.mpr (hunkMark_prefix_header hunk)
    rw [List.flatMap_cons, PrintedHunk.text, List.cons_append, hunksFrom, if_pos hheader,
      hunksFrom_body fun line hline => not_hunkMark_of_mem_lineTexts hline, ih, List.map_cons,
      PrintedHunk.record]
    simp

/-! ## One file -/

namespace ChangedFile

variable (file : ChangedFile)

theorem hunkLines_oneLine : ∀ line ∈ file.hunkLines, '\n' ∉ line := by
  intro line hline
  obtain ⟨hunk, _, hmem⟩ := List.mem_flatMap.mp hline
  rcases List.mem_cons.mp hmem with rfl | hmem
  · rw [PrintedHunk.header, List.mem_append, not_or]
    exact ⟨by decide, hunk.ranges_oneLine⟩
  · obtain ⟨⟨mark, contents⟩, hcontents, rfl⟩ := List.mem_map.mp hmem
    have hmark : '\n' ≠ mark.symbol := by cases mark <;> decide
    rw [List.mem_cons, not_or]
    exact ⟨hmark, hunk.lines_oneLine _ hcontents⟩

theorem hunkLines_ne_nil : ∀ line ∈ file.hunkLines, line ≠ [] := by
  intro line hline
  obtain ⟨hunk, _, hmem⟩ := List.mem_flatMap.mp hline
  rcases List.mem_cons.mp hmem with rfl | hmem
  · exact List.cons_ne_nil _ _
  · obtain ⟨_, _, rfl⟩ := List.mem_map.mp hmem
    exact List.cons_ne_nil _ _

theorem hunkLines_head : ∀ line ∈ file.hunkLines.head?, hunkMark <+: line := by
  unfold hunkLines
  cases file.hunks with
  | nil => simp
  | cons hunk rest =>
    rintro line ⟨⟩
    exact hunkMark_prefix_header hunk

theorem not_bare_newline : ¬ Bare '\n' := fun hbare => absurd hbare.2.2.1 (by decide)

theorem not_bare_return : ¬ Bare '\r' := fun hbare => absurd hbare.2.2.1 (by decide)

theorem names_oneLine : '\n' ∉ diffGit ++ file.names := by
  simp only [names, List.mem_append, List.mem_cons, not_or]
  refine ⟨by decide, by decide, ?_, by decide, by decide, ?_⟩
  · exact fun hmem => not_bare_newline (file.oldPath_bare _ hmem)
  · exact fun hmem => not_bare_newline (file.newPath_bare _ hmem)

theorem stripCr_names : stripCr (diffGit ++ file.names) = diffGit ++ file.names := by
  have hnames : diffGit ++ file.names =
      (diffGit ++ (oldPrefix ++ (file.oldPath ++ ' ' :: newPrefix))) ++ file.newPath := by
    simp [names]
  apply stripCr_of_getLast?
  rw [hnames, List.getLast?_append_of_ne_nil _ file.newPath_ne]
  exact fun hlast => not_bare_return (file.newPath_bare _ (List.mem_of_getLast? hlast))

theorem printed_oneLine : ∀ line ∈ file.printed, '\n' ∉ line := by
  intro line hline
  rcases List.mem_cons.mp hline with rfl | hmem
  · exact file.names_oneLine
  · rcases List.mem_append.mp hmem with hmem | hmem
    · exact (file.extended_oneLine line hmem).2
    · exact file.hunkLines_oneLine line hmem

theorem printed_ne_nil : ∀ line ∈ file.printed, line ≠ [] := by
  intro line hline
  rcases List.mem_cons.mp hline with rfl | hmem
  · exact List.cons_ne_nil _ _
  · rcases List.mem_append.mp hmem with hmem | hmem
    · exact (file.extended_oneLine line hmem).1
    · exact file.hunkLines_ne_nil line hmem

theorem lines_section (last : Bool) :
    Text.lines (sectionText last file.printed) = readLines last file.printed :=
  lines_sectionText file.printed_oneLine
    (fun line hline => file.printed_ne_nil line (List.mem_of_getLast? hline)) last

theorem readLines_printed (last : Bool) : ∃ extended, readLines last file.printed =
        (diffGit ++ file.names) :: (extended ++ readLines last file.hunkLines) ∧
      ∀ line ∈ extended, ∃ raw ∈ file.extended, line = stripCr raw ∨ line = raw := by
  have hcons : ∀ rest : List Text, readLines last ((diffGit ++ file.names) :: rest) =
      (diffGit ++ file.names) :: readLines last rest := by
    intro rest
    cases rest with
    | nil =>
      cases last with
      | true => exact congrArg (· :: []) file.stripCr_names
      | false => rfl
    | cons line rest =>
      rw [← List.singleton_append, readLines_append _ _ (List.cons_ne_nil _ _), List.map_singleton,
        file.stripCr_names, List.singleton_append]
  rw [printed, hcons]
  by_cases hhunks : file.hunkLines = []
  · refine ⟨readLines last file.extended, ?_, fun line hline => mem_readLines hline⟩
    rw [hhunks, List.append_nil]
    cases last <;> simp [readLines]
  · refine ⟨file.extended.map stripCr, ?_, ?_⟩
    · rw [readLines_append _ _ hhunks]
    · intro line hline
      obtain ⟨raw, hraw, rfl⟩ := List.mem_map.mp hline
      exact ⟨raw, hraw, .inl rfl⟩

theorem readLines_head (last : Bool) :
    ∀ line ∈ (readLines last file.hunkLines).head?, hunkMark <+: line := by
  have hhead := file.hunkLines_head
  have hmark : ∀ line : Text, hunkMark <+: line → hunkMark <+: stripCr line :=
    fun line hline => (prefix_stripCr_iff (by decide)).mpr hline
  generalize file.hunkLines = lines at hhead
  intro line hline
  cases lines with
  | nil => cases last <;> simp [readLines] at hline
  | cons first rest =>
    have hfirst : hunkMark <+: first := hhead first rfl
    cases rest with
    | nil =>
      cases last with
      | true =>
        obtain rfl := Option.some.inj hline
        exact hmark first hfirst
      | false =>
        obtain rfl := Option.some.inj hline
        exact hfirst
    | cons second rest =>
      rw [← List.singleton_append, readLines_append _ _ (List.cons_ne_nil _ _)] at hline
      obtain rfl := Option.some.inj hline
      exact hmark first hfirst

theorem readLines_oneLine (last : Bool) : ∀ line ∈ readLines last file.hunkLines, '\n' ∉ line := by
  intro line hline
  obtain ⟨raw, hraw, rfl | rfl⟩ := mem_readLines hline
  · exact newline_not_mem_stripCr (file.hunkLines_oneLine raw hraw)
  · exact file.hunkLines_oneLine line hraw

theorem record_hunks : file.record.hunks = hunksFrom none file.hunkLines :=
  (hunksFrom_text file.hunks none).symm

theorem extended_read {raw : Text} (hraw : raw ∈ file.extended)
    (hline : line = stripCr raw ∨ line = raw) :
    ¬ hunkMark <+: line ∧ ¬ binaryFiles <+: line ∧ line ≠ gitBinaryPatch := by
  obtain ⟨hmark, _, hbinary, hpatch⟩ := file.extended_plain raw hraw
  rcases hline with rfl | rfl
  · rw [prefix_stripCr_iff (by decide), prefix_stripCr_iff (by decide)]
    exact ⟨hmark, hbinary, hpatch⟩
  · refine ⟨hmark, hbinary, ?_⟩
    rintro rfl
    exact hpatch (by decide)

theorem sectionRecord_eq (last : Bool) : sectionRecord (sectionText last file.printed) =
      if (parseBPathFromDiffGit (diffGit ++ file.names)).getD [] = [] then none
      else some ⟨(parseBPathFromDiffGit (diffGit ++ file.names)).getD [],
        hunksFrom none (readLines last file.hunkLines)⟩ := by
  obtain ⟨extended, hread, hextended⟩ := file.readLines_printed last
  have hlines := file.lines_section last
  rw [hread] at hlines
  have hnames : ¬ hunkMark <+: diffGit ++ file.names := by
    intro hstart
    exact absurd (List.cons_prefix_cons.mp hstart).1 (by decide)
  have hhunks : parseHunks (sectionText last file.printed) =
      hunksFrom none (readLines last file.hunkLines) := by
    rw [parseHunks, hlines, ← List.cons_append]
    apply hunksFrom_skip
    intro line hline
    rcases List.mem_cons.mp hline with rfl | hmem
    · exact hnames
    · obtain ⟨raw, hraw, hsame⟩ := hextended line hmem
      exact (file.extended_read hraw hsame).1
  have hbinary : parseHunks (sectionText last file.printed) = [] →
      isBinaryDiffSection (sectionText last file.printed) = false := by
    intro hnone
    have hrest : readLines last file.hunkLines = [] := by
      have hflat := flatMap_hunksFrom_of_head (file.readLines_head last)
      rw [← hhunks, hnone, List.flatMap_nil] at hflat
      cases hcase : readLines last file.hunkLines with
      | nil => rfl
      | cons line rest => simp [hcase, unlines] at hflat
    rw [isBinaryDiffSection, hlines, hrest, List.append_nil, List.any_eq_false]
    intro line hline
    rcases List.mem_cons.mp hline with rfl | hmem
    · have hb : ¬ binaryFiles <+: diffGit ++ file.names := by
        intro hstart
        exact absurd (List.cons_prefix_cons.mp hstart).1 (by decide)
      have hg : diffGit ++ file.names ≠ gitBinaryPatch := by
        intro heq
        exact absurd (List.cons.inj heq).1 (by decide)
      simp [List.isPrefixOf_iff_prefix, hb, hg]
    · obtain ⟨raw, hraw, hsame⟩ := hextended line hmem
      obtain ⟨_, hb, hg⟩ := file.extended_read hraw hsame
      simp [List.isPrefixOf_iff_prefix, hb, hg]
  rw [sectionRecord, hlines, List.headD_cons, ← hhunks]
  split
  next => rfl
  next =>
    rw [if_neg]
    rw [Bool.and_eq_true, decide_eq_true_eq]
    rintro ⟨hnone, hyes⟩
    rw [hbinary hnone] at hyes
    contradiction

theorem sectionRecord_iff (last : Bool) :
    sectionRecord (sectionText last file.printed) = some file.record ↔ file.Plain last := by
  rw [sectionRecord_eq, Option.ite_none_left_eq_some]
  have hpath : ((parseBPathFromDiffGit (diffGit ++ file.names)).getD [] ≠ [] ∧
      (parseBPathFromDiffGit (diffGit ++ file.names)).getD [] = file.newPath) ↔
        parseBPathFromDiffGit (diffGit ++ file.names) = some file.newPath := by
    have hne := file.newPath_ne
    cases hparse : parseBPathFromDiffGit (diffGit ++ file.names) with
    | none => simp [Ne.symm hne]
    | some path =>
      rw [Option.getD_some, Option.some.injEq]
      constructor
      · exact fun hboth => hboth.2
      · rintro rfl
        exact ⟨hne, rfl⟩
  have hhunks : hunksFrom none (readLines last file.hunkLines) = file.record.hunks ↔
      readLines last file.hunkLines = file.hunkLines := by
    rw [record_hunks]
    constructor
    · exact hunksFrom_injective (file.readLines_head last) file.hunkLines_head
        (file.readLines_oneLine last) file.hunkLines_oneLine
    · intro hsame
      rw [hsame]
  rw [Option.some.injEq, DiffContentRecord.mk.injEq, ← and_assoc]
  change (((parseBPathFromDiffGit (diffGit ++ file.names)).getD [] ≠ [] ∧
    (parseBPathFromDiffGit (diffGit ++ file.names)).getD [] = file.newPath) ∧
      hunksFrom none (readLines last file.hunkLines) = file.record.hunks) ↔ _
  rw [hpath, hhunks, file.parseBPath_iff, readLines_eq_self_iff]
  constructor
  · rintro ⟨⟨hnew, hold⟩, hends⟩
    exact ⟨hnew, hold, hends⟩
  · intro hplain
    exact ⟨⟨hplain.new_word, hplain.old_word⟩, hplain.ends_kept⟩

end ChangedFile

end Difflore.Infra

import Difflore.Install.GooseInsert

/-! # Appending a Goose entry

A config without an `mcpServers:` mapping gets one at its end, which is trimmed
first. Trimming changes the last line that is not blank and no other.
-/

namespace Difflore.Install

open Foundation Text

section Append

variable {existing bin : Text}

theorem takeWhile_append_of_mem {p : Char → Bool} {line : Text} {c : Char} (hmem : c ∈ line)
    (hc : p c = false) (rest : Text) : (line ++ rest).takeWhile p = line.takeWhile p := by
  induction line with
  | nil => contradiction
  | cons first line ih =>
    rw [List.cons_append, List.takeWhile_cons, List.takeWhile_cons]
    split
    next hfirst =>
      congr 1
      apply ih
      rcases List.mem_cons.mp hmem with rfl | htail
      · simp [hc] at hfirst
      · exact htail
    next => rfl

theorem topLevelKey_of_content {line content : Text}
    (hcontent : trimStart (trimEol line) = content) :
    topLevelKey line = if indentOf line ≠ 0 || content = [] || ['#'].isPrefixOf content ||
          ['-'].isPrefixOf content then
        none
      else if ':' ∈ content then
        if trimEnd (content.takeWhile (· ≠ ':')) = [] then none
        else some (trimEnd (content.takeWhile (· ≠ ':')))
      else none := by
  unfold topLevelKey topLevelKeyAndTail
  simp only [hcontent]
  by_cases hguard : decide (indentOf line ≠ 0) || decide (content = []) ||
      ['#'].isPrefixOf content || ['-'].isPrefixOf content
  · rw [if_pos hguard, if_pos hguard, Option.map_none]
  · rw [if_neg hguard, if_neg hguard]
    by_cases hcolon : ':' ∈ content
    · rw [if_pos hcolon, if_pos hcolon, apply_ite (Option.map _)]
      rfl
    · rw [if_neg hcolon, if_neg hcolon, Option.map_none]

theorem topLevelKey_concat {c : Char} (hc : isWhitespace c = true) (line : Text) :
    topLevelKey (line ++ [c]) = topLevelKey line := by
  by_cases heol : isEol c
  · rw [topLevelKey, topLevelKeyAndTail_concat heol, topLevelKey]
  by_cases hblank : blank line
  · rw [topLevelKey_of_blank hblank, topLevelKey_of_blank]
    rw [blank, trim_concat_of_isWhitespace hc]
    exact hblank
  have hends : ∃ ends, line = trimEol line ++ ends ∧ ':' ∉ ends := by
    refine ⟨line.rtakeWhile isEol, (List.rdropWhile_append_rtakeWhile ..).symm, ?_⟩
    intro hcolon
    have := List.mem_rtakeWhile_imp hcolon
    contradiction
  obtain ⟨ends, hline, hends⟩ := hends
  have htrim : trimEol (line ++ [c]) = trimEol line ++ (ends ++ [c]) := by
    rw [trimEol, List.rdropWhile_concat_neg _ _ _ heol, ← List.append_assoc, ← hline]
  have hkept : ¬ blank (trimEol line) := by rwa [blank_trimEol]
  have hindent : indentOf (line ++ [c]) = indentOf line := by
    obtain ⟨d, hmem, hd⟩ : ∃ d ∈ line, isWhitespace d = false := by
      simpa [blank_iff] using hblank
    unfold indentOf
    rw [takeWhile_append_of_mem hmem]
    rw [decide_eq_false_iff_not]
    rintro rfl
    contradiction
  have hstart : ∃ first rest, trimStart (trimEol line) = first :: rest := by
    apply List.exists_cons_of_ne_nil
    intro hnil
    exact hkept (blank_iff.mpr (List.dropWhile_eq_nil_iff.mp hnil))
  obtain ⟨first, rest, hfirst⟩ := hstart
  have hstart' : trimStart (trimEol line ++ (ends ++ [c])) = first :: rest ++ (ends ++ [c]) := by
    rw [← hfirst]
    unfold trimStart at hfirst ⊢
    rw [List.dropWhile_append, hfirst]
    rfl
  have hcolon : ':' ∉ ends ++ [c] := by
    apply List.not_mem_append hends
    intro hmem
    rw [List.mem_singleton] at hmem
    rw [← hmem] at hc
    contradiction
  rw [← htrim] at hstart'
  rw [topLevelKey_of_content hstart', topLevelKey_of_content hfirst, hindent]
  have hguard : ∀ mark : Char, [mark].isPrefixOf (first :: rest ++ (ends ++ [c])) =
      [mark].isPrefixOf (first :: rest) := by
    intro mark
    rfl
  have hnil : (first :: rest ++ (ends ++ [c]) = []) = (first :: rest = []) := by simp
  have hmem : (':' ∈ first :: rest ++ (ends ++ [c])) = (':' ∈ first :: rest) := by
    rw [List.mem_append, or_iff_left hcolon]
  simp only [hguard, hnil, hmem]
  by_cases hkey : ':' ∈ first :: rest
  · rw [takeWhile_append_of_mem hkey (by decide)]
  · rw [if_neg hkey, if_neg hkey]

theorem trimEnd_append_of_blank {line : Text} (hline : blank line) (s : Text) :
    trimEnd (s ++ line) = trimEnd s := by
  unfold trimEnd List.rdropWhile
  rw [List.reverse_append, List.dropWhile_append_of_pos]
  intro c hc
  exact blank_iff.mp hline c (List.mem_reverse.mp hc)

theorem trimEnd_append_of_not_blank {line : Text} (hline : ¬ blank line) (s : Text) :
    trimEnd (s ++ line) = s ++ trimEnd line := by
  unfold trimEnd List.rdropWhile
  rw [List.reverse_append, List.dropWhile_append, if_neg, List.reverse_append, List.reverse_reverse]
  rw [List.isEmpty_iff, List.dropWhile_eq_nil_iff]
  intro hall
  exact hline (blank_iff.mpr fun c hc => hall c (List.mem_reverse.mpr hc))

theorem trimEnd_flatten (lines : List Text) :
    ((∀ line ∈ lines, blank line) ∧ trimEnd lines.flatten = []) ∨
      ∃ before last after, lines = before ++ last :: after ∧ ¬ blank last ∧
        (∀ line ∈ after, blank line) ∧
        trimEnd lines.flatten = before.flatten ++ trimEnd last := by
  induction lines using List.reverseRecOn with
  | nil => exact .inl ⟨by simp, rfl⟩
  | append_singleton lines line ih =>
    rw [List.flatten_append, List.flatten_singleton]
    by_cases hline : blank line
    · rw [trimEnd_append_of_blank hline]
      have hconcat : ∀ lines : List Text, (∀ other ∈ lines, blank other) →
          ∀ other ∈ lines ++ [line], blank other := by
        intro lines hlines other hother
        rcases List.mem_append.mp hother with hmem | hmem
        · exact hlines other hmem
        · exact List.mem_singleton.mp hmem ▸ hline
      rcases ih with ⟨hall, htrim⟩ | ⟨before, last, after, hsplit, hlast, hafter, htrim⟩
      · exact .inl ⟨hconcat lines hall, htrim⟩
      · refine .inr ⟨before, last, after ++ [line], ?_, hlast, hconcat after hafter, htrim⟩
        rw [hsplit, List.append_assoc, List.cons_append]
    · exact .inr ⟨lines, line, [], rfl, hline, by simp, trimEnd_append_of_not_blank hline _⟩

theorem blank_trimEnd (line : Text) : blank (trimEnd line) = blank line := by
  induction line using List.reverseRecOn with
  | nil => rfl
  | append_singleton line c ih =>
    by_cases hc : isWhitespace c = true
    · rw [trimEnd, List.rdropWhile_concat_pos _ _ _ hc, ← trimEnd, ih, blank, blank,
        trim_concat_of_isWhitespace hc]
    · rw [trimEnd, List.rdropWhile_concat_neg _ _ _ hc]

theorem topLevelKey_trimEnd (line : Text) : topLevelKey (trimEnd line) = topLevelKey line := by
  induction line using List.reverseRecOn with
  | nil => rfl
  | append_singleton line c ih =>
    by_cases hc : isWhitespace c = true
    · rw [topLevelKey_concat hc, ← ih, trimEnd, List.rdropWhile_concat_pos _ _ _ hc, trimEnd]
    · rw [trimEnd, List.rdropWhile_concat_neg _ _ _ hc]

theorem trimEnd_concat {c : Char} (hc : isEol c) (line : Text) :
    trimEnd (line ++ [c]) = trimEnd line :=
  List.rdropWhile_concat_pos _ _ _ (isWhitespace_of_isEol hc)

theorem getLast?_trimEnd (line : Text) : ∀ c ∈ (trimEnd line).getLast?, isWhitespace c = false := by
  induction line using List.reverseRecOn with
  | nil => simp [trimEnd]
  | append_singleton line last ih =>
    by_cases hlast : isWhitespace last = true
    · rwa [trimEnd, List.rdropWhile_concat_pos _ _ _ hlast]
    · rw [trimEnd, List.rdropWhile_concat_neg _ _ _ hlast, List.getLast?_concat]
      rintro c ⟨⟩
      simpa using hlast

theorem newline_not_mem_trimEnd {line : Text} (hline : Text.Inclusive [line]) :
    '\n' ∉ trimEnd line := by
  cases hline with
  | last _ hnewline => exact fun hmem => hnewline ((List.rdropWhile_prefix _ _).subset hmem)
  | cons hended _ =>
    obtain ⟨body, hbody, rfl⟩ := hended
    rw [trimEnd_concat isEol_newline]
    exact fun hmem => hbody ((List.rdropWhile_prefix _ _).subset hmem)

/-- The lines of the config as they stand in front of the added header. -/
structure Trimmed (existing : Text) (lines : List Text) : Prop where
  ended : ∀ line ∈ lines, Text.Ended line
  before : ∀ line ∈ lines, topLevelKey line ≠ some mcpServers
  others : ∃ front, nonBlank (Text.lines existing) =
      front ++ (nonBlank (Text.lines existing)).getLast?.toList ∧
    nonBlank (lines.map stripEol) =
      front ++ ((nonBlank (Text.lines existing)).getLast?.map trimEnd).toList

section

variable (hnone : hasTopLevelMcpServers existing = false)
include hnone

theorem topLevelKey_ne_of_hasTopLevel :
    ∀ line ∈ splitInclusive existing, topLevelKey line ≠ some mcpServers := by
  intro line hline hkey
  rw [← Bool.not_eq_true, hasTopLevelMcpServers_iff] at hnone
  exact hnone ⟨line, hline, hkey⟩

theorem exists_trimmed :
    ∃ lines, Trimmed existing lines ∧ lines.flatten = trimEnd existing ++ ['\n'] := by
  have hbefore := topLevelKey_ne_of_hasTopLevel hnone
  rcases trimEnd_flatten (splitInclusive existing) with
    ⟨hall, htrim⟩ | ⟨before, last, after, hsplit, hlast, hafter, htrim⟩
  · rw [flatten_splitInclusive] at htrim
    have hothers : nonBlank (Text.lines existing) = [] := by
      rw [lines_eq_map_splitInclusive]
      apply nonBlank_eq_nil
      intro line hline
      obtain ⟨full, hfull, rfl⟩ := List.mem_map.mp hline
      rw [blank_stripEol]
      exact hall full hfull
    refine ⟨[['\n']], ⟨?_, ?_, [], ?_, ?_⟩, ?_⟩
    · intro line hline
      exact ⟨[], List.not_mem_nil, List.mem_singleton.mp hline⟩
    · intro line hline
      rw [List.mem_singleton.mp hline]
      decide
    · rw [hothers]
      rfl
    · rw [hothers]
      rfl
    · rw [htrim]
      rfl
  · rw [flatten_splitInclusive] at htrim
    have hinclusive := inclusive_splitInclusive existing
    rw [hsplit] at hinclusive
    have hsingle : Text.Inclusive [last] := by
      cases hinclusive.of_append with
      | last hne hline => exact .last hne hline
      | cons hended _ => exact .cons hended .nil
    have hlines : nonBlank (Text.lines existing) =
        nonBlank (before.map stripEol) ++ [stripEol last] := by
      rw [lines_eq_map_splitInclusive, hsplit, List.map_append, List.map_cons, nonBlank_append]
      congr 1
      have hrest : nonBlank (after.map stripEol) = [] := by
        apply nonBlank_eq_nil
        intro line hline
        obtain ⟨full, hfull, rfl⟩ := List.mem_map.mp hline
        rw [blank_stripEol]
        exact hafter full hfull
      unfold nonBlank at hrest ⊢
      rw [List.filter_cons_of_pos (by simpa using hlast), hrest]
    have htrimmed : trimEnd (stripEol last) = trimEnd last :=
      apply_stripEol (fun line _ hc => trimEnd_concat hc line) last
    have hkept : stripEol (trimEnd last ++ ['\n']) = trimEnd last := by
      rw [stripEol_ended, stripCr_of_getLast?]
      intro hreturn
      have hspace := getLast?_trimEnd last '\r' hreturn
      contradiction
    refine ⟨before ++ [trimEnd last ++ ['\n']],
      ⟨?_, ?_, nonBlank (before.map stripEol), ?_, ?_⟩, ?_⟩
    · intro line hline
      rcases List.mem_append.mp hline with hmem | hmem
      · exact hinclusive.ended_of_append line hmem
      · exact ⟨_, newline_not_mem_trimEnd hsingle, List.mem_singleton.mp hmem⟩
    · intro line hline
      rcases List.mem_append.mp hline with hmem | hmem
      · apply hbefore
        rw [hsplit]
        exact List.mem_append_left _ hmem
      · rw [List.mem_singleton.mp hmem, topLevelKey_concat (by decide), topLevelKey_trimEnd]
        apply hbefore
        rw [hsplit]
        exact List.mem_append_right _ (.head _)
    · rw [hlines, List.getLast?_concat]
      rfl
    · rw [hlines, List.getLast?_concat, Option.map_some, htrimmed, List.map_append, nonBlank_append,
        List.map_singleton, hkept]
      congr 1
      have hblank : ¬ blank (trimEnd last) := by rwa [blank_trimEnd]
      simp [nonBlank, hblank]
    · rw [htrim]
      simp

theorem countEntries_of_hasTopLevel :
    countEntries .start (splitInclusive existing) = 0 :=
  (run_outside (topLevelKey_ne_of_hasTopLevel hnone) rfl).2

theorem yamlHas_of_hasTopLevel :
    yamlHasDiffloreUnderMcpServers existing = false := by
  rw [yamlHas_eq, ← Bool.not_eq_true, hasEntry_iff, countEntries_of_hasTopLevel hnone]
  exact Nat.lt_irrefl 0

theorem otherLines_of_hasTopLevel :
    otherLines existing = nonBlank (Text.lines existing) := by
  rw [otherLines, outsideEntry_of_countEntries]
  rw [lines_eq_map_splitInclusive, countEntries_map_stripEol, countEntries_of_hasTopLevel hnone]

end

namespace Trimmed

variable {lines : List Text}

theorem nil : Trimmed [] [] := ⟨by simp, by simp, [], rfl, rfl⟩

theorem firstHeader (hlines : Trimmed existing lines) :
    FirstHeader (lines ++ [mcpServersHeader ++ ['\n']]) lines (mcpServersHeader ++ ['\n']) [] :=
  ⟨rfl, hlines.before, by decide, by decide⟩

theorem splice (hlines : Trimmed existing lines) :
    Splice 2 (lines ++ [mcpServersHeader ++ ['\n']]) [] where
  pos := by decide
  pre_ended := by
    intro line hline
    rcases List.mem_append.mp hline with hmem | hmem
    · exact hlines.ended line hmem
    · exact ⟨mcpServersHeader, by decide, List.mem_singleton.mp hmem⟩
  post_inclusive := .nil
  before := hlines.firstHeader.countEntries_pre
  state := ⟨none, hlines.firstHeader.run_pre, by simp⟩

/-- An appended header and entry make a complete install, and lose at most white
space at the end of the last line. -/
theorem installed_iff (hlines : Trimmed existing lines)
    (hnone : hasTopLevelMcpServers existing = false) (hbin : Writable bin) :
    Installed existing bin (spliced bin 2 (lines ++ [mcpServersHeader ++ ['\n']]) []) ↔
      ∀ line ∈ (nonBlank (Text.lines existing)).getLast?, trimEnd line = line := by
  have hindent : renderIndent existing = 2 := by
    simp [renderIndent, yamlHas_of_hasTopLevel hnone, hnone]
  have hadded : addedHeader existing = [mcpServersHeader] := by simp [addedHeader, hnone]
  have hpre : nonBlank ((lines ++ [mcpServersHeader ++ ['\n']]).map stripEol) =
      nonBlank (lines.map stripEol) ++ [mcpServersHeader] := by
    rw [List.map_append, nonBlank_append]
    congr 1
  obtain ⟨front, hfront, htrimmed⟩ := hlines.others
  constructor
  · intro hinstalled line hline
    obtain ⟨_, _, htotal⟩ := hlines.splice.of_installed hbin hindent hinstalled
    rw [hpre, htrimmed, otherLines_of_hasTopLevel hnone, hfront, hadded, hline] at htotal
    simp only [characters_append, Option.toList_some] at htotal
    have hlength : (trimEnd line).length = line.length := by
      simp [characters, nonBlank] at htotal
      omega
    exact (List.rdropWhile_prefix _ _).eq_of_length hlength
  · intro hlast
    apply hlines.splice.installed hbin hindent rfl rfl
    have hsame : (nonBlank (Text.lines existing)).getLast?.map trimEnd =
        (nonBlank (Text.lines existing)).getLast? := by
      cases hline : (nonBlank (Text.lines existing)).getLast? with
      | none => rfl
      | some line => rw [Option.map_some, hlast line hline]
    rw [hpre, htrimmed, hsame, ← hfront, otherLines_of_hasTopLevel hnone, hadded]
    simp [nonBlank]

end Trimmed

theorem spliced_header (bin : Text) (lines : List Text) :
    spliced bin 2 (lines ++ [mcpServersHeader ++ ['\n']]) [] =
      lines.flatten ++ (unlines [mcpServersHeader] ++ renderGooseBlock bin) := by
  simp [spliced, renderGooseBlock, renderGooseBlockAtIndent_eq, flatten_ended, unlines]

theorem mergedContent_append {merged : Text} {replaced : Bool}
    (hnone : hasTopLevelMcpServers existing = false)
    (hmerge : mergedContent existing bin = .ok (merged, replaced)) :
    ∃ lines, Trimmed existing lines ∧
      merged = spliced bin 2 (lines ++ [mcpServersHeader ++ ['\n']]) [] := by
  by_cases hempty : existing = []
  · subst hempty
    rw [mergedContent, if_pos rfl] at hmerge
    obtain ⟨rfl, rfl⟩ := Prod.mk.inj (Except.ok.inj hmerge)
    exact ⟨[], .nil, by rw [spliced_header, List.flatten_nil, List.nil_append]⟩
  · obtain ⟨lines, htrimmed, hflatten⟩ := exists_trimmed hnone
    rw [mergedContent, if_neg hempty, yamlHas_of_hasTopLevel hnone, hnone,
      if_neg Bool.false_ne_true, if_neg Bool.false_ne_true] at hmerge
    obtain ⟨rfl, rfl⟩ := Prod.mk.inj (Except.ok.inj hmerge)
    refine ⟨lines, htrimmed, ?_⟩
    rw [spliced_header, hflatten]
    simp [unlines]

end Append

/-! ## Which configs a Goose install handles -/

/-- What a config and a binary must be like for a complete install. -/
structure InstallsCleanly (existing bin : Text) : Prop where
  writable : Writable bin
  one_entry : countEntries .start (Text.lines existing) ≤ 1
  header_fits : yamlHasDiffloreUnderMcpServers existing = false →
    headerFits (renderIndent existing) (splitInclusive existing)
  end_trimmed : hasTopLevelMcpServers existing = false →
    ∀ line ∈ (nonBlank (Text.lines existing)).getLast?, trimEnd line = line

section Merge

variable {existing bin merged : Text} {replaced : Bool}

theorem installed_replace (hbin : Writable bin)
    (hhas : yamlHasDiffloreUnderMcpServers existing = true)
    (hmerge : mergedContent existing bin = .ok (merged, replaced)) :
    Installed existing bin merged ↔ InstallsCleanly existing bin := by
  obtain ⟨pre, line, post, indent, hfirst⟩ :=
    exists_firstEntry ((yamlHas_eq existing).symm.trans hhas)
  rw [mergedContent_of_firstEntry hfirst] at hmerge
  obtain ⟨rfl, rfl⟩ := Prod.mk.inj (Except.ok.inj hmerge)
  rw [installed_of_firstEntry hbin hfirst]
  constructor
  · intro hone
    refine ⟨hbin, hone, ?_, ?_⟩
    · simp [hhas]
    · simp [hfirst.hasTopLevel]
  · exact fun hclean => hclean.one_entry

theorem countEntries_of_not_has (hhas : yamlHasDiffloreUnderMcpServers existing = false) :
    countEntries .start (Text.lines existing) = 0 := by
  rw [yamlHasDiffloreUnderMcpServers, ← Bool.not_eq_true, hasEntry_iff] at hhas
  omega

theorem takeWhile_eq_nil_iff {indent : Nat} {lines : List Text} :
    lines.takeWhile (belongs indent) = [] ↔ lines.head?.any (belongs indent) = false := by
  cases lines with
  | nil => simp
  | cons line rest => simp [List.takeWhile_cons]

theorem installed_insert (hbin : Writable bin)
    (hhas : yamlHasDiffloreUnderMcpServers existing = false)
    (htop : hasTopLevelMcpServers existing = true)
    (hmerge : mergedContent existing bin = .ok (merged, replaced)) :
    Installed existing bin merged ↔ InstallsCleanly existing bin := by
  have hclean : InstallsCleanly existing bin ↔
      headerFits (renderIndent existing) (splitInclusive existing) := by
    constructor
    · exact fun hclean => hclean.header_fits hhas
    · intro hfits
      refine ⟨hbin, ?_, fun _ => hfits, by simp [htop]⟩
      rw [countEntries_of_not_has hhas]
      exact Nat.zero_le 1
  obtain ⟨pre, header, rest, hheader, rfl⟩ := mergedContent_insert hhas htop hmerge
  rw [hclean, hheader.headerFits_eq, Bool.and_eq_true, decide_eq_true_eq, Bool.not_eq_true',
    ← takeWhile_eq_nil_iff]
  have hinclusive := inclusive_splitInclusive existing
  rw [hheader.split] at hinclusive
  cases hinclusive.of_append with
  | last _ hnewline =>
    have hunended : header.getLast? ≠ some '\n' :=
      fun hlast => hnewline (List.mem_of_getLast? hlast)
    have hzero := countEntries_unended hbin (renderIndent existing) hheader hnewline
    constructor
    · intro hinstalled
      have hone := hinstalled.one_entry
      rw [hzero] at hone
      contradiction
    · exact fun hfits => absurd hfits.1 hunended
  | cons hended _ =>
    rw [spliced_behind, hheader.installed_iff hhas hended hbin,
      and_iff_right (getLast?_of_ended hended)]

theorem installed_append (hbin : Writable bin) (htop : hasTopLevelMcpServers existing = false)
    (hmerge : mergedContent existing bin = .ok (merged, replaced)) :
    Installed existing bin merged ↔ InstallsCleanly existing bin := by
  have hfits : ∀ indent, headerFits indent (splitInclusive existing) := by
    intro indent
    have hbefore := topLevelKey_ne_of_hasTopLevel htop
    generalize splitInclusive existing = lines at hbefore
    induction lines with
    | nil => rfl
    | cons line rest ih =>
      rw [headerFits, if_neg (hbefore line (.head _))]
      exact ih fun other hother => hbefore other (.tail _ hother)
  have hclean : InstallsCleanly existing bin ↔
      ∀ line ∈ (nonBlank (Text.lines existing)).getLast?, trimEnd line = line := by
    constructor
    · exact fun hclean => hclean.end_trimmed htop
    · intro hlast
      refine ⟨hbin, ?_, fun _ => hfits _, fun _ => hlast⟩
      rw [countEntries_of_not_has (yamlHas_of_hasTopLevel htop)]
      exact Nat.zero_le 1
  obtain ⟨lines, htrimmed, rfl⟩ := mergedContent_append htop hmerge
  rw [hclean, htrimmed.installed_iff htop hbin]

/-- A merged config is a complete install exactly if the binary is written on one
line, no second entry was there, the line behind an existing header does not
belong to the entry, and a config without header does not end in white space. -/
theorem mergeGooseYamlConfig_installed_iff {file : Option Text}
    (hmerge : mergeGooseYamlConfig file bin false = .ok (replaced, some merged)) :
    Installed (file.getD []) bin merged ↔ InstallsCleanly (file.getD []) bin := by
  by_cases hbin : Writable bin
  · have hcontent := mergedContent_of_merge hmerge
    cases hhas : yamlHasDiffloreUnderMcpServers (file.getD []) with
    | true => exact installed_replace hbin hhas hcontent
    | false =>
      cases htop : hasTopLevelMcpServers (file.getD []) with
      | true => exact installed_insert hbin hhas htop hcontent
      | false => exact installed_append hbin htop hcontent
  · constructor
    · exact fun hinstalled => absurd (writable_of_installed hinstalled) hbin
    · exact fun hclean => absurd hclean.writable hbin

end Merge

def otherServer : Text := "mcpServers:\n  other:\n    command: x\n".toList

def bothServers : Text :=
  "mcpServers:\n  difflore:\n    command: difflore\n    args:\n      - mcp-server\n".toList ++
    "  other:\n    command: x\n".toList

theorem mergeGooseYamlConfig_installed_otherServer :
    Installed otherServer diffloreKey bothServers := by
  have hmerge : mergeGooseYamlConfig (some otherServer) diffloreKey false =
      .ok (false, some bothServers) := by decide
  apply (mergeGooseYamlConfig_installed_iff hmerge).mpr
  exact ⟨⟨by decide, by decide⟩, by decide, by decide, by decide⟩

def unendedHeader : Text := mcpServersHeader

def brokenConfig : Text :=
  "mcpServers:  difflore:\n    command: difflore\n    args:\n      - mcp-server\n".toList

theorem unended_header_takes_the_key :
    ¬ ∀ (file : Option Text) (bin merged : Text) (replaced : Bool),
      mergeGooseYamlConfig file bin false = .ok (replaced, some merged) →
        Installed (file.getD []) bin merged := by
  intro hall
  have hmerge : mergeGooseYamlConfig (some unendedHeader) diffloreKey false =
      .ok (false, some brokenConfig) := by decide
  have hone := (hall _ _ _ _ hmerge).one_entry
  have hnone : countEntries .start (Text.lines brokenConfig) = 0 := by decide
  rw [hnone] at hone
  contradiction

end Difflore.Install

import Difflore.Install.GooseMerge

/-! # Replacing and inserting a Goose entry

Replacing an entry is a splice, and so is putting one behind the header of its
mapping. Behind a header that is not ended it is none: there the key of the entry
runs into the header.
-/

namespace Difflore.Install

open Foundation Text

/-- The first `mcpServers:` line is ended, and the line behind it does not
belong to an entry at `indent`. -/
def headerFits (indent : Nat) : List Text → Bool
  | [] => true
  | line :: rest =>
    if topLevelKey line = some mcpServers then
      line.getLast? = some '\n' && !rest.head?.any (belongs indent)
    else headerFits indent rest

section Replace

variable {existing bin : Text} {pre post : List Text} {line : Text} {indent : Nat}

section

variable (hfirst : FirstEntry .start (splitInclusive existing) pre line post indent)
include hfirst

theorem FirstEntry.splice :
    Splice indent pre (post.dropWhile (belongs indent)) where
  pos := hfirst.pos
  pre_ended := by
    have hinclusive := inclusive_splitInclusive existing
    rw [hfirst.split] at hinclusive
    exact hinclusive.ended_of_append
  post_inclusive := by
    have hinclusive := inclusive_splitInclusive existing
    rw [hfirst.split] at hinclusive
    have hpost := hinclusive.of_append.tail
    rw [← List.takeWhile_append_dropWhile (p := belongs indent) (l := post)] at hpost
    exact hpost.of_append
  before := hfirst.before
  state := hfirst.state_before

theorem FirstEntry.hasTopLevel :
    hasTopLevelMcpServers existing = true := by
  by_contra hnone
  rw [hasTopLevelMcpServers_iff] at hnone
  push Not at hnone
  have hpre : ∀ other ∈ pre, topLevelKey other ≠ some mcpServers := by
    intro other hother
    apply hnone
    rw [hfirst.split]
    exact List.mem_append_left _ hother
  have houtside : (Scan.start.run pre).inMcpServers = false := (run_outside hpre rfl).1
  obtain ⟨childIndent, hrun, _⟩ := hfirst.state_before
  rw [hrun] at houtside
  contradiction

theorem FirstEntry.renderIndent_eq :
    renderIndent existing = indent := by
  have hhas : yamlHasDiffloreUnderMcpServers existing = true := by
    rw [yamlHas_eq]
    exact hfirst.hasEntry
  rw [renderIndent, if_pos hhas, lines_eq_map_splitInclusive, entryIndent_map_stripEol,
    hfirst.entryIndent_eq, Option.getD_some]

theorem FirstEntry.otherLines_eq :
    nonBlank (pre.map stripEol) ++
        nonBlank ((post.dropWhile (belongs indent)).map stripEol) = otherLines existing := by
  rw [otherLines, lines_eq_map_splitInclusive, outsideEntry_map_stripEol,
    hfirst.outsideEntry_eq, List.map_append, nonBlank_append]

theorem mergedContent_of_firstEntry (bin : Text) :
    mergedContent existing bin =
      .ok (spliced bin indent pre (post.dropWhile (belongs indent)), true) := by
  have hhas : yamlHasDiffloreUnderMcpServers existing = true := by
    rw [yamlHas_eq]
    exact hfirst.hasEntry
  have hne : existing ≠ [] := by
    rintro rfl
    contradiction
  rw [mergedContent, if_neg hne, if_pos hhas, replaceGooseDiffloreBlock,
    hfirst.spliceEntry_eq (renderGooseBlockAtIndent bin)]
  simp [spliced, renderGooseBlockAtIndent_eq, flatten_ended, Except.map]

end

theorem takeWhile_dropWhile_belongs (indent : Nat) (lines : List Text) :
    (lines.dropWhile (belongs indent)).takeWhile (belongs indent) = [] := by
  cases hlines : lines.dropWhile (belongs indent) with
  | nil => rfl
  | cons line rest =>
    have hline := List.head?_dropWhile_not (belongs indent) lines
    rw [hlines] at hline
    exact List.takeWhile_cons_of_neg (by simpa using hline)

theorem installed_of_firstEntry (hbin : Writable bin)
    (hfirst : FirstEntry .start (splitInclusive existing) pre line post indent) :
    Installed existing bin (spliced bin indent pre (post.dropWhile (belongs indent))) ↔
      countEntries .start (Text.lines existing) ≤ 1 := by
  rw [lines_eq_map_splitInclusive, countEntries_map_stripEol, hfirst.countEntries_dropWhile]
  constructor
  · intro hinstalled
    obtain ⟨hcount, _, _⟩ := hfirst.splice.of_installed hbin hfirst.renderIndent_eq hinstalled
    omega
  · intro hone
    apply hfirst.splice.installed hbin hfirst.renderIndent_eq
    · omega
    · exact takeWhile_dropWhile_belongs indent post
    · rw [hfirst.otherLines_eq, addedHeader, if_pos hfirst.hasTopLevel, List.append_nil]

end Replace

/-! ## Putting the entry behind its header -/

section Insert

variable {existing bin header : Text} {pre rest : List Text}

/-- The first `mcpServers:` line, which opens a block. -/
structure FirstHeader (lines pre : List Text) (header : Text) (rest : List Text) : Prop where
  split : lines = pre ++ header :: rest
  before : ∀ line ∈ pre, topLevelKey line ≠ some mcpServers
  key : topLevelKey header = some mcpServers
  block : topLevelBlockKey header = some mcpServers

theorem insertBehindHeader_ok {entry : Text} {lines out : List Text}
    (hout : insertBehindHeader entry lines = .ok out) :
    ∃ pre header rest, FirstHeader lines pre header rest ∧
      out = pre ++ header :: entry :: rest := by
  induction lines generalizing out with
  | nil => contradiction
  | cons line rest ih =>
    unfold insertBehindHeader at hout
    split at hout
    next hkey =>
      split at hout
      next => contradiction
      next hblock =>
        rw [ne_eq, not_not] at hblock
        exact ⟨[], line, rest, ⟨rfl, by simp, hkey, hblock⟩, (Except.ok.inj hout).symm⟩
    next hkey =>
      cases hrest : insertBehindHeader entry rest with
      | error message =>
        rw [hrest] at hout
        contradiction
      | ok inner =>
        rw [hrest] at hout
        obtain rfl := Except.ok.inj hout
        obtain ⟨pre, header, post, hheader, rfl⟩ := ih hrest
        refine ⟨line :: pre, header, post, ⟨?_, ?_, hheader.key, hheader.block⟩, rfl⟩
        · rw [hheader.split, List.cons_append]
        · intro other hother
          rcases List.mem_cons.mp hother with rfl | hmem
          · exact hkey
          · exact hheader.before other hmem

namespace FirstHeader

variable {lines : List Text}

section

variable (hheader : FirstHeader lines pre header rest)
include hheader

theorem next_eq (scan : Scan) :
    scan.next header = ⟨true, none⟩ := by
  simp [Scan.next, hheader.key, hheader.block]

theorem countEntries_pre :
    countEntries .start (pre ++ [header]) = 0 := by
  rw [countEntries_append, (run_outside hheader.before rfl).2, countEntries]
  simp [Scan.atEntry, hheader.key, countEntries]

theorem run_pre :
    Scan.start.run (pre ++ [header]) = ⟨true, none⟩ := by
  rw [run_append, run_cons, run_nil, hheader.next_eq]

theorem countEntries_eq :
    countEntries .start lines = countEntries ⟨true, none⟩ rest := by
  rw [hheader.split, List.append_cons, countEntries_append, hheader.countEntries_pre,
    hheader.run_pre, Nat.zero_add]

theorem firstChildIndent_eq :
    firstChildIndent false lines = firstChildIndent true rest := by
  rw [hheader.split, firstChildIndent_outside hheader.before, firstChildIndent, hheader.key]
  simp [hheader.block]

theorem headerFits_eq (indent : Nat) :
    headerFits indent lines =
      (decide (header.getLast? = some '\n') && !rest.head?.any (belongs indent)) := by
  obtain ⟨rfl, hbefore, hkey, _⟩ := hheader
  induction pre with
  | nil => rw [List.nil_append, headerFits, if_pos hkey]
  | cons line pre ih =>
    rw [List.cons_append, headerFits, if_neg (hbefore line (.head _))]
    exact ih fun other hother => hbefore other (.tail _ hother)

end

section

variable (hheader : FirstHeader (splitInclusive existing) pre header rest)
include hheader

theorem hasTopLevel :
    hasTopLevelMcpServers existing = true := by
  rw [hasTopLevelMcpServers_iff]
  refine ⟨header, ?_, hheader.key⟩
  rw [hheader.split]
  exact List.mem_append_right _ (.head _)

theorem renderIndent_eq (hnone : yamlHasDiffloreUnderMcpServers existing = false) :
    renderIndent existing = (firstChildIndent true rest).getD 2 := by
  rw [renderIndent, hnone, if_neg Bool.false_ne_true, if_pos hheader.hasTopLevel, mcpChildIndent_eq,
    hheader.firstChildIndent_eq]

theorem renderIndent_pos
    (hnone : yamlHasDiffloreUnderMcpServers existing = false) : 0 < renderIndent existing := by
  rw [hheader.renderIndent_eq hnone]
  cases hchild : firstChildIndent true rest with
  | none => exact Nat.zero_lt_two
  | some indent => exact firstChildIndent_pos hchild

theorem countEntries_rest (hnone : yamlHasDiffloreUnderMcpServers existing = false) :
    countEntries ⟨true, some (renderIndent existing)⟩ rest = 0 := by
  rw [countEntries_childIndent (hheader.renderIndent_pos hnone), ← hheader.countEntries_eq]
  · rw [yamlHas_eq, ← Bool.not_eq_true, hasEntry_iff] at hnone
    omega
  · intro first hfirst
    rw [hheader.renderIndent_eq hnone, firstChildIndent_of_sectionChild hfirst, Option.getD_some]

theorem splice (hnone : yamlHasDiffloreUnderMcpServers existing = false)
    (hended : Text.Ended header) : Splice (renderIndent existing) (pre ++ [header]) rest where
  pos := hheader.renderIndent_pos hnone
  pre_ended := by
    have hinclusive := inclusive_splitInclusive existing
    rw [hheader.split] at hinclusive
    intro line hline
    rcases List.mem_append.mp hline with hmem | hmem
    · exact hinclusive.ended_of_append line hmem
    · exact List.mem_singleton.mp hmem ▸ hended
  post_inclusive := by
    have hinclusive := inclusive_splitInclusive existing
    rw [hheader.split] at hinclusive
    exact hinclusive.of_append.tail
  before := hheader.countEntries_pre
  state := ⟨none, hheader.run_pre, by simp⟩

theorem otherLines_eq (hnone : yamlHasDiffloreUnderMcpServers existing = false) :
    nonBlank ((pre ++ [header]).map stripEol) ++ nonBlank (rest.map stripEol) =
      otherLines existing := by
  rw [yamlHas_eq, ← Bool.not_eq_true, hasEntry_iff, Nat.pos_iff_ne_zero, not_not] at hnone
  rw [otherLines, lines_eq_map_splitInclusive, outsideEntry_map_stripEol,
    outsideEntry_of_countEntries hnone, hheader.split, ← nonBlank_append, ← List.map_append,
    List.append_assoc, List.singleton_append]

theorem installed_iff
    (hnone : yamlHasDiffloreUnderMcpServers existing = false) (hended : Text.Ended header)
    (hbin : Writable bin) :
    Installed existing bin (spliced bin (renderIndent existing) (pre ++ [header]) rest) ↔
      rest.takeWhile (belongs (renderIndent existing)) = [] := by
  have hsplice := hheader.splice hnone hended
  constructor
  · intro hinstalled
    exact (hsplice.of_installed hbin rfl hinstalled).2.1
  · intro hnext
    apply hsplice.installed hbin rfl (hheader.countEntries_rest hnone) hnext
    rw [hheader.otherLines_eq hnone, addedHeader, if_pos hheader.hasTopLevel, List.append_nil]

end

end FirstHeader

theorem mergedContent_insert {merged : Text} {replaced : Bool}
    (hnone : yamlHasDiffloreUnderMcpServers existing = false)
    (htop : hasTopLevelMcpServers existing = true)
    (hmerge : mergedContent existing bin = .ok (merged, replaced)) :
    ∃ pre header rest, FirstHeader (splitInclusive existing) pre header rest ∧
      merged = (pre ++ header :: renderGooseBlockAtIndent bin (renderIndent existing) ::
        rest).flatten := by
  have hne : existing ≠ [] := by
    rintro rfl
    contradiction
  have hindent : renderIndent existing = (mcpChildIndent existing).getD 2 := by
    simp [renderIndent, hnone, htop]
  rw [mergedContent, if_neg hne, hnone, if_neg Bool.false_ne_true, if_pos htop,
    insertUnderMcpServers,
    ← hindent] at hmerge
  cases hinsert : insertBehindHeader (renderGooseBlockAtIndent bin (renderIndent existing))
      (splitInclusive existing) with
  | error message =>
    rw [hinsert] at hmerge
    contradiction
  | ok lines =>
    rw [hinsert] at hmerge
    obtain ⟨rfl, rfl⟩ := Prod.mk.inj (Except.ok.inj hmerge)
    obtain ⟨pre, header, rest, hheader, rfl⟩ := insertBehindHeader_ok hinsert
    exact ⟨pre, header, rest, hheader, rfl⟩

theorem spliced_behind (bin : Text) (indent : Nat) (pre : List Text) (header : Text)
    (rest : List Text) :
    (pre ++ header :: renderGooseBlockAtIndent bin indent :: rest).flatten =
      spliced bin indent (pre ++ [header]) rest := by
  simp [spliced, renderGooseBlockAtIndent_eq, flatten_ended]

theorem getLast?_of_ended {line : Text} (hended : Text.Ended line) : line.getLast? = some '\n' := by
  obtain ⟨body, _, rfl⟩ := hended
  exact List.getLast?_concat

end Insert

section Unended

variable {existing bin header : Text} {pre rest : List Text}

theorem head_of_isIndentedKey {depth indent : Nat} {c : Char} (hc : c ≠ ' ') {rest : Text}
    (hkey : isIndentedKey (List.replicate depth ' ' ++ c :: rest) diffloreKey indent) :
    c = 'd' := by
  have hindent := indentOf_of_isIndentedKey hkey
  rw [indentOf_replicate_append depth hc] at hindent
  subst hindent
  simp only [isIndentedKey, Bool.and_eq_true, List.isPrefixOf_iff_prefix] at hkey
  obtain ⟨tail, htail⟩ := (hkey.2.trans ((List.rdropWhile_prefix _ _).drop depth))
  rw [List.drop_left' (List.length_replicate ..)] at htail
  have hhead := congrArg List.head? htail
  exact (Option.some.inj hhead).symm

theorem countEntries_of_not_key {lines : List Text}
    (hlines : ∀ line ∈ lines, ∀ indent, 0 < indent → ¬ isIndentedKey line diffloreKey indent)
    {scan : Scan} (hscan : scan.Positive) : countEntries scan lines = 0 := by
  induction lines generalizing scan with
  | nil => rfl
  | cons line rest ih =>
    have hpositive := positive_next hscan line
    have hentry : (scan.next line).atEntry line = false := by
      rw [← Bool.not_eq_true, Scan.atEntry, Bool.and_eq_true]
      rintro ⟨_, hany⟩
      obtain ⟨indent, hmem, hkey⟩ := (Option.any_eq_true _ _).mp hany
      exact hlines line (.head _) indent (hpositive indent hmem) hkey
    rw [countEntries, hentry, ih (fun other hmem => hlines other (.tail _ hmem))
      hpositive]
    rfl

theorem not_key_of_mem_entryBody {indent : Nat} {line : Text}
    (hline : line ∈ ended (entryBody bin indent))
    (depth : Nat) : ¬ isIndentedKey line diffloreKey depth := by
  obtain ⟨body, hbody, rfl⟩ := List.mem_map.mp hline
  rw [isIndentedKey_concat isEol_newline]
  rw [entryBody, List.mem_cons, List.mem_cons, List.mem_singleton] at hbody
  rcases hbody with rfl | rfl | rfl
  · exact fun hkey => absurd (head_of_isIndentedKey (by decide : 'c' ≠ ' ') hkey) (by decide)
  · exact fun hkey => absurd (head_of_isIndentedKey (by decide : 'a' ≠ ' ') hkey) (by decide)
  · exact fun hkey => absurd (head_of_isIndentedKey (by decide : '-' ≠ ' ') hkey) (by decide)

theorem indentOf_append_of_topLevelKey {line : Text} (hkey : topLevelKey line ≠ none)
    (rest : Text) :
    indentOf (line ++ rest) = 0 := by
  have hindent : indentOf line = 0 := by
    by_contra hne
    exact hkey (topLevelKey_of_indent hne)
  cases line with
  | nil => exact absurd rfl hkey
  | cons c tail =>
    have hc : c ≠ ' ' := by
      rintro rfl
      simp [indentOf] at hindent
    simp [indentOf, hc]

theorem countEntries_unended (hbin : Writable bin) (indent : Nat)
    (hheader : FirstHeader (splitInclusive existing) pre header []) (hnewline : '\n' ∉ header) :
    countEntries .start (Text.lines
      (pre ++ [header, renderGooseBlockAtIndent bin indent]).flatten) = 0 := by
  have hblock := ended_of_newline_not_mem (newline_not_mem_entryBlock hbin.one_line indent)
  have hjoined : Text.Ended (header ++ (entryKey indent ++ ['\n'])) := by
    obtain ⟨body, hbody, heq⟩ := hblock (entryKey indent ++ ['\n']) (.head _)
    rw [heq]
    exact ⟨header ++ body, List.not_mem_append hnewline hbody, by simp⟩
  have hpre : ∀ line ∈ pre, Text.Ended line := by
    have hinclusive := inclusive_splitInclusive existing
    rw [hheader.split] at hinclusive
    exact hinclusive.ended_of_append
  have hinclusive : Text.Inclusive
      (pre ++ (header ++ (entryKey indent ++ ['\n'])) :: ended (entryBody bin indent)) := by
    apply Text.Inclusive.append hpre
    apply Text.Inclusive.cons hjoined
    rw [← List.append_nil (ended _)]
    exact Text.Inclusive.append (fun line hline => hblock line (.tail _ hline)) .nil
  have hflatten : (pre ++ [header, renderGooseBlockAtIndent bin indent]).flatten =
      (pre ++ (header ++ (entryKey indent ++ ['\n'])) :: ended (entryBody bin indent)).flatten := by
    rw [renderGooseBlockAtIndent_eq, ← flatten_ended, entryBlock, ended, List.map_cons, ← ended]
    simp
  rw [lines_eq_map_splitInclusive, countEntries_map_stripEol, hflatten,
    hinclusive.splitInclusive_flatten, countEntries_append, (run_outside hheader.before rfl).2,
    Nat.zero_add]
  apply countEntries_of_not_key _ (positive_run positive_start pre)
  intro line hline depth hpos
  rcases List.mem_cons.mp hline with rfl | hmem
  · intro hkey
    have hindent := indentOf_of_isIndentedKey hkey
    rw [indentOf_append_of_topLevelKey (by simp [hheader.key])] at hindent
    omega
  · exact not_key_of_mem_entryBody hmem depth

end Unended

end Difflore.Install

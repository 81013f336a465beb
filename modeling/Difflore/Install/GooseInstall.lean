import Difflore.Install.GooseScan

/-! # Installing into a Goose config

A merge puts the rendered block behind the lines it keeps. What is read back is
that block, as long as the line it follows is ended, the lines it is put in front
of do not belong to it, and the binary does not end or break its line.
-/

namespace Difflore.Install

open Foundation Text

/-! ## The rendered lines -/

def entryKey (indent : Nat) : Text := List.replicate indent ' ' ++ (diffloreKey ++ [':'])

def entryBody (bin : Text) (indent : Nat) : List Text :=
  [List.replicate (indent + 2) ' ' ++ commandLine bin, List.replicate (indent + 2) ' ' ++ argsKey,
   List.replicate (indent + 4) ' ' ++ argLine]

def entryBlock (bin : Text) (indent : Nat) : List Text := entryKey indent :: entryBody bin indent

theorem renderGooseBlockAtIndent_eq (bin : Text) (indent : Nat) :
    renderGooseBlockAtIndent bin indent = unlines (entryBlock bin indent) := rfl

def ended (lines : List Text) : List Text := lines.map (· ++ ['\n'])

theorem flatten_ended (lines : List Text) : (ended lines).flatten = unlines lines := by
  rw [unlines, List.flatMap, ended]

structure Writable (bin : Text) : Prop where
  one_line : '\n' ∉ bin
  no_return : (yamlEscapeScalar bin).getLast? ≠ some '\r'

theorem newline_not_mem_yamlEscapeScalar {bin : Text} (hbin : '\n' ∉ bin) :
    '\n' ∉ yamlEscapeScalar bin := by
  unfold yamlEscapeScalar
  split
  next =>
    simp only [List.mem_cons, List.mem_append, List.mem_flatMap, not_or, List.not_mem_nil, or_false]
    refine ⟨by decide, ?_, by decide⟩
    rintro ⟨c, hc, hmem⟩
    split at hmem
    next => simp at hmem
    next => exact hbin (List.mem_singleton.mp hmem ▸ hc)
  next => exact hbin

theorem yamlEscapeScalar_ne_nil (bin : Text) : yamlEscapeScalar bin ≠ [] := by
  unfold yamlEscapeScalar
  split
  next => exact List.cons_ne_nil _ _
  next hplain =>
    rintro rfl
    exact hplain (by decide)

theorem plain_indented (indent : Nat) {contents : Text} (hnewline : '\n' ∉ contents)
    (hne : contents ≠ []) (hlast : contents.getLast? ≠ some '\r') :
    '\n' ∉ List.replicate indent ' ' ++ contents ∧ stripCr (List.replicate indent ' ' ++ contents) =
        List.replicate indent ' ' ++ contents := by
  constructor
  · rw [List.mem_append, not_or]
    refine ⟨?_, hnewline⟩
    intro hmem
    have hspace := List.eq_of_mem_replicate hmem
    contradiction
  · apply stripCr_of_getLast?
    rwa [List.getLast?_append_of_ne_nil _ hne]

theorem newline_not_mem_commandLine {bin : Text} (hbin : '\n' ∉ bin) : '\n' ∉ commandLine bin := by
  rw [commandLine, List.mem_append, not_or]
  exact ⟨by decide, newline_not_mem_yamlEscapeScalar hbin⟩

theorem getLast?_commandLine (bin : Text) :
    (commandLine bin).getLast? = (yamlEscapeScalar bin).getLast? :=
  List.getLast?_append_of_ne_nil _ (yamlEscapeScalar_ne_nil bin)

theorem newline_not_mem_entryBlock {bin : Text} (hbin : '\n' ∉ bin) (indent : Nat) :
    ∀ line ∈ entryBlock bin indent, '\n' ∉ line := by
  have hspaces : ∀ count : Nat, '\n' ∉ List.replicate count ' ' := by
    intro count hmem
    have hspace := List.eq_of_mem_replicate hmem
    contradiction
  intro line hline
  rw [entryBlock, entryBody, List.mem_cons, List.mem_cons, List.mem_cons,
    List.mem_singleton] at hline
  rcases hline with rfl | rfl | rfl | rfl
  · exact List.not_mem_append (hspaces _) (by decide)
  · exact List.not_mem_append (hspaces _) (newline_not_mem_commandLine hbin)
  · exact List.not_mem_append (hspaces _) (by decide)
  · exact List.not_mem_append (hspaces _) (by decide)

theorem entryBlock_plain {bin : Text} (hbin : Writable bin) (indent : Nat) :
    ∀ line ∈ entryBlock bin indent, '\n' ∉ line ∧ stripCr line = line := by
  intro line hline
  rw [entryBlock, entryBody, List.mem_cons, List.mem_cons, List.mem_cons,
    List.mem_singleton] at hline
  rcases hline with rfl | rfl | rfl | rfl
  · exact plain_indented _ (by decide) (by decide) (by decide)
  · refine plain_indented _ (newline_not_mem_commandLine hbin.one_line) ?_ ?_
    · exact List.append_ne_nil_of_right_ne_nil _ (yamlEscapeScalar_ne_nil bin)
    · rw [getLast?_commandLine]
      exact hbin.no_return
  · exact plain_indented _ (by decide) (by decide) (by decide)
  · exact plain_indented _ (by decide) (by decide) (by decide)

theorem ended_of_newline_not_mem {lines : List Text} (hlines : ∀ line ∈ lines, '\n' ∉ line) :
    ∀ line ∈ ended lines, Text.Ended line := by
  intro line hline
  obtain ⟨body, hbody, rfl⟩ := List.mem_map.mp hline
  exact ⟨body, hlines body hbody, rfl⟩

theorem map_stripEol_ended {lines : List Text} (hlines : ∀ line ∈ lines, stripCr line = line) :
    (ended lines).map stripEol = lines := by
  rw [ended, List.map_map]
  conv_rhs => rw [← List.map_id lines]
  apply List.map_congr_left
  intro line hline
  rw [Function.comp_apply, stripEol_ended, hlines line hline, id]

theorem isEol_newline : isEol '\n' := rfl

theorem entryKey_eq (indent : Nat) :
    ∃ rest, entryKey indent = List.replicate indent ' ' ++ 'd' :: rest :=
  ⟨_, rfl⟩

theorem next_entryKey {indent : Nat} (hpos : 0 < indent) {childIndent : Option Nat}
    (hchild : ∀ first ∈ childIndent, first = indent) :
    Scan.next ⟨true, childIndent⟩ (entryKey indent ++ ['\n']) = ⟨true, some indent⟩ ∧
      Scan.atEntry ⟨true, some indent⟩ (entryKey indent ++ ['\n']) := by
  obtain ⟨rest, hrest⟩ := entryKey_eq indent
  have hindent : indentOf (entryKey indent) = indent := by
    rw [hrest]
    exact indentOf_replicate_append indent (by decide) rest
  have hkey : topLevelKey (entryKey indent) = none := topLevelKey_of_indent (by omega)
  have hline : mcpChildIndentFromLine (entryKey indent) = some indent := by
    rw [hrest]
    exact mcpChildIndentFromLine_indented hpos rest (by decide) (by decide)
  have htrim : trimEol (entryKey indent) = entryKey indent := by
    rw [entryKey, trimEol, ← List.append_assoc]
    exact List.rdropWhile_concat_neg _ _ _ (by decide)
  have hentry : isIndentedKey (entryKey indent) diffloreKey indent := by
    rw [isIndentedKey, htrim, hindent, entryKey, List.drop_left' (List.length_replicate ..)]
    simp
  constructor
  · rw [next_concat _ _ _ isEol_newline, Scan.next, hkey]
    cases childIndent with
    | none => simp [hline]
    | some first => simp [hchild first rfl]
  · rw [atEntry_concat _ _ _ isEol_newline, Scan.atEntry, hkey]
    simp [hentry]

theorem belongs_indented {indent deeper : Nat} (hdeeper : indent < deeper) {c : Char} (hc : c ≠ ' ')
    (rest : Text) : belongs indent (List.replicate deeper ' ' ++ c :: rest) := by
  rw [belongs, indentOf_replicate_append deeper hc]
  simp [hdeeper]

theorem belongs_entryBody (bin : Text) (indent : Nat) :
    ∀ line ∈ ended (entryBody bin indent), belongs indent line := by
  intro line hline
  obtain ⟨body, hbody, rfl⟩ := List.mem_map.mp hline
  rw [belongs_concat _ _ _ isEol_newline]
  rw [entryBody, List.mem_cons, List.mem_cons, List.mem_singleton] at hbody
  rcases hbody with rfl | rfl | rfl
  · exact belongs_indented (by omega) (by decide : 'c' ≠ ' ') _
  · exact belongs_indented (by omega) (by decide : 'a' ≠ ' ') _
  · exact belongs_indented (by omega) (by decide : '-' ≠ ' ') _

/-! ## A block between kept lines -/

/-- The lines around a block, in an `mcpServers:` mapping that has no entry so far. -/
structure Splice (indent : Nat) (pre post : List Text) : Prop where
  pos : 0 < indent
  pre_ended : ∀ line ∈ pre, Text.Ended line
  post_inclusive : Text.Inclusive post
  before : countEntries .start pre = 0
  state : ∃ childIndent, Scan.start.run pre = ⟨true, childIndent⟩ ∧
    ∀ first ∈ childIndent, first = indent

def spliced (bin : Text) (indent : Nat) (pre post : List Text) : Text :=
  (pre ++ (ended (entryBlock bin indent) ++ post)).flatten

namespace Splice

variable {bin : Text} {indent : Nat} {pre post : List Text}

theorem splitInclusive_eq (hsplice : Splice indent pre post) (hbin : '\n' ∉ bin) :
    splitInclusive (spliced bin indent pre post) =
      pre ++ (ended (entryBlock bin indent) ++ post) := by
  apply Text.Inclusive.splitInclusive_flatten
  apply Text.Inclusive.append hsplice.pre_ended
  apply Text.Inclusive.append _ hsplice.post_inclusive
  exact ended_of_newline_not_mem (newline_not_mem_entryBlock hbin indent)

theorem lines_eq (hsplice : Splice indent pre post) (hbin : Writable bin) :
    Text.lines (spliced bin indent pre post) =
      pre.map stripEol ++ (entryBlock bin indent ++ post.map stripEol) := by
  rw [lines_eq_map_splitInclusive, hsplice.splitInclusive_eq hbin.one_line, List.map_append,
    List.map_append, map_stripEol_ended fun line hline =>
      (entryBlock_plain hbin indent line hline).2]

theorem firstEntry (hsplice : Splice indent pre post) (bin : Text) :
    FirstEntry .start (pre ++ (ended (entryBlock bin indent) ++ post)) pre
      (entryKey indent ++ ['\n']) (ended (entryBody bin indent) ++ post) indent := by
  obtain ⟨childIndent, hrun, hchild⟩ := hsplice.state
  obtain ⟨hnext, hentry⟩ := next_entryKey hsplice.pos hchild
  refine ⟨rfl, hsplice.before, ?_, ?_⟩
  · rw [hrun, hnext]
    exact hentry
  · rw [hrun, hnext]

theorem takeWhile_belongs (bin : Text) (indent : Nat) (post : List Text) :
    (ended (entryBody bin indent) ++ post).takeWhile (belongs indent) =
      ended (entryBody bin indent) ++ post.takeWhile (belongs indent) :=
  List.takeWhile_append_of_pos (belongs_entryBody bin indent)

theorem dropWhile_belongs (bin : Text) (indent : Nat) (post : List Text) :
    (ended (entryBody bin indent) ++ post).dropWhile (belongs indent) =
      post.dropWhile (belongs indent) :=
  List.dropWhile_append_of_pos (belongs_entryBody bin indent)

theorem countEntries_eq (hsplice : Splice indent pre post) (bin : Text) :
    countEntries .start (pre ++ (ended (entryBlock bin indent) ++ post)) =
      1 + countEntries ⟨true, some indent⟩ post := by
  have hfirst := hsplice.firstEntry bin
  obtain ⟨hrun, hcount⟩ := run_belongs hsplice.pos (belongs_entryBody bin indent)
  rw [hfirst.countEntries_eq, hfirst.state, countEntries_append, hcount, hrun, Nat.zero_add]

theorem yamlHas (hsplice : Splice indent pre post) (hbin : '\n' ∉ bin) :
    yamlHasDiffloreUnderMcpServers (spliced bin indent pre post) = true := by
  rw [yamlHas_eq, hsplice.splitInclusive_eq hbin]
  exact (hsplice.firstEntry bin).hasEntry

theorem diffloreBlockLines_eq (hsplice : Splice indent pre post) (hbin : Writable bin) :
    diffloreBlockLines (spliced bin indent pre post) =
      entryBlock bin indent ++ (post.takeWhile (belongs indent)).map stripEol := by
  rw [Install.diffloreBlockLines_eq, hsplice.splitInclusive_eq hbin.one_line,
    (hsplice.firstEntry bin).entryLines_eq, takeWhile_belongs, ← List.cons_append, List.map_append]
  exact congrArg (· ++ _) (map_stripEol_ended fun line hline =>
    (entryBlock_plain hbin indent line hline).2)

theorem trimEol_of_plain {line : Text} (hnewline : '\n' ∉ line) (hreturn : stripCr line = line) :
    trimEol line = line := by
  rcases List.eq_nil_or_concat line with rfl | ⟨init, c, rfl⟩
  · rfl
  · rw [List.concat_eq_append] at hnewline hreturn ⊢
    apply List.rdropWhile_concat_neg
    rw [isEol, Bool.or_eq_true, decide_eq_true_eq, decide_eq_true_eq, not_or]
    constructor
    · rintro rfl
      simp at hnewline
    · rintro rfl
      rw [stripCr_concat] at hreturn
      simp at hreturn

theorem extractGooseBlock_eq (hsplice : Splice indent pre post) (hbin : Writable bin) :
    extractGooseBlock (some (spliced bin indent pre post)) = some (unlines (entryBlock bin indent ++
        (post.takeWhile (belongs indent)).map trimEol)) := by
  have hblock : (entryBlock bin indent).map trimEol = entryBlock bin indent := by
    conv_rhs => rw [← List.map_id (entryBlock bin indent)]
    apply List.map_congr_left
    intro line hline
    obtain ⟨hnewline, hreturn⟩ := entryBlock_plain hbin indent line hline
    exact trimEol_of_plain hnewline hreturn
  have hrest : (post.takeWhile (belongs indent)).map (trimEol ∘ stripEol) =
      (post.takeWhile (belongs indent)).map trimEol :=
    List.map_congr_left fun line _ => trimEol_stripEol line
  rw [extractGooseBlock, Option.bind_some, hsplice.yamlHas hbin.one_line,
    hsplice.diffloreBlockLines_eq hbin,
    List.map_append, hblock, List.map_map, hrest]
  simp [entryBlock]

theorem trimStart_indented (indent : Nat) {c : Char} (hc : isWhitespace c = false) (rest : Text) :
    trimStart (List.replicate indent ' ' ++ c :: rest) = c :: rest := by
  unfold trimStart
  rw [List.dropWhile_append_of_pos, List.dropWhile_cons_of_neg (by simp [hc])]
  intro space hmem
  rw [List.eq_of_mem_replicate hmem]
  decide

theorem probe_installed (hsplice : Splice indent pre post) (hbin : Writable bin)
    (name path : Text) :
    (probeGooseInstall name path (some (spliced bin indent pre post)) bin).state = .installed := by
  have hcommand : trimStart (List.replicate (indent + 2) ' ' ++ commandLine bin) =
      commandLine bin := trimStart_indented _ (by decide : isWhitespace 'c' = false) _
  have harg : trimStart (List.replicate (indent + 4) ' ' ++ argLine) = argLine :=
    trimStart_indented _ (by decide : isWhitespace '-' = false) _
  have hexpected : entryAsExpected (spliced bin indent pre post) bin = true := by
    rw [entryAsExpected, hsplice.diffloreBlockLines_eq hbin, Bool.and_eq_true, List.any_eq_true,
      List.any_eq_true]
    constructor
    · refine ⟨_, List.mem_append_left _ (.tail _ (.head _)), ?_⟩
      exact decide_eq_true hcommand
    · refine ⟨_, List.mem_append_left _ (.tail _ (List.mem_cons_of_mem _
        (.tail _ (.head _)))), ?_⟩
      exact decide_eq_true harg
  rw [probeGooseInstall, hsplice.yamlHas hbin.one_line, hexpected]
  rfl

theorem mergedContent_eq (hsplice : Splice indent pre post) (hbin : Writable bin) :
    mergedContent (spliced bin indent pre post) bin =
      .ok (spliced bin indent pre (post.dropWhile (belongs indent)), true) := by
  have hne : spliced bin indent pre post ≠ [] := by
    intro hnil
    have hhas := hsplice.yamlHas hbin.one_line
    rw [hnil] at hhas
    contradiction
  rw [mergedContent, if_neg hne, if_pos (hsplice.yamlHas hbin.one_line), replaceGooseDiffloreBlock,
    hsplice.splitInclusive_eq hbin.one_line, (hsplice.firstEntry bin).spliceEntry_eq,
    dropWhile_belongs]
  simp [spliced, renderGooseBlockAtIndent_eq, flatten_ended, Except.map]

end Splice

end Difflore.Install

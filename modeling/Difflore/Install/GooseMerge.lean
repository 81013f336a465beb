import Difflore.Install.GooseInstall

/-! # What a Goose install leaves behind

An install is complete if the entry is there once, is read back as it was
rendered, is reported as installed, every other line is kept and a second merge
changes nothing but blank lines. The merge is taken apart by where it splices,
and each way of splicing tells what the config must look like for that.
-/

namespace Difflore.Install

open Foundation Text

def renderIndent (existing : Text) : Nat :=
  if yamlHasDiffloreUnderMcpServers existing then (entryIndent .start (Text.lines existing)).getD 2
  else if hasTopLevelMcpServers existing then (mcpChildIndent existing).getD 2
  else 2

def otherLines (existing : Text) : List Text := nonBlank (outsideEntry .start (Text.lines existing))

def addedHeader (existing : Text) : List Text :=
  if hasTopLevelMcpServers existing then [] else [mcpServersHeader]

structure Installed (existing bin merged : Text) : Prop where
  one_entry : countEntries .start (Text.lines merged) = 1
  extracted : extractGooseBlock (some merged) =
    some (renderGooseBlockAtIndent bin (renderIndent existing))
  probed : ∀ name path, (probeGooseInstall name path (some merged) bin).state = .installed
  kept : ∃ front back, nonBlank (Text.lines merged) =
      front ++ (Text.lines (renderGooseBlockAtIndent bin (renderIndent existing)) ++ back) ∧
    front ++ back = otherLines existing ++ addedHeader existing
  settled : ∃ again, mergeGooseYamlConfig (some merged) bin false = .ok (true, some again) ∧
    nonBlank (Text.lines again) = nonBlank (Text.lines merged)

theorem mergedContent_of_merge {file : Option Text} {bin merged : Text} {replaced : Bool}
    (hmerge : mergeGooseYamlConfig file bin false = .ok (replaced, some merged)) :
    mergedContent (file.getD []) bin = .ok (merged, replaced) := by
  unfold mergeGooseYamlConfig at hmerge
  cases hcontent : mergedContent (file.getD []) bin with
  | error message =>
    rw [hcontent] at hmerge
    contradiction
  | ok content =>
    rw [hcontent] at hmerge
    obtain ⟨rfl, hsome⟩ := Prod.mk.inj (Except.ok.inj hmerge)
    rw [if_neg Bool.false_ne_true] at hsome
    obtain rfl := Option.some.inj hsome
    rfl

theorem lines_renderGooseBlockAtIndent {bin : Text} (hbin : Writable bin) (indent : Nat) :
    Text.lines (renderGooseBlockAtIndent bin indent) = entryBlock bin indent := by
  have hplain := entryBlock_plain hbin indent
  rw [renderGooseBlockAtIndent_eq, lines_unlines fun line hline => (hplain line hline).1]
  conv_rhs => rw [← List.map_id (entryBlock bin indent)]
  exact List.map_congr_left fun line hline => (hplain line hline).2

theorem indented_not_blank (indent : Nat) {c : Char} (hc : isWhitespace c = false) (rest : Text) :
    blank (List.replicate indent ' ' ++ c :: rest) = false := by
  rw [← Bool.not_eq_true, blank_iff]
  intro hall
  have hmem : c ∈ List.replicate indent ' ' ++ c :: rest := by simp
  rw [hall c hmem] at hc
  contradiction

theorem nonBlank_entryBlock (bin : Text) (indent : Nat) :
    nonBlank (entryBlock bin indent) = entryBlock bin indent := by
  apply List.filter_eq_self.mpr
  intro line hline
  rw [entryBlock, entryBody, List.mem_cons, List.mem_cons, List.mem_cons,
    List.mem_singleton] at hline
  rw [Bool.not_eq_true']
  rcases hline with rfl | rfl | rfl | rfl
  · exact indented_not_blank _ (by decide : isWhitespace 'd' = false) _
  · exact indented_not_blank _ (by decide : isWhitespace 'c' = false) _
  · exact indented_not_blank _ (by decide : isWhitespace 'a' = false) _
  · exact indented_not_blank _ (by decide : isWhitespace '-' = false) _

theorem nonBlank_map_stripEol_takeWhile_dropWhile (indent : Nat) (lines : List Text) :
    nonBlank (lines.map stripEol) = nonBlank ((lines.takeWhile (belongs indent)).map stripEol) ++
        nonBlank ((lines.dropWhile (belongs indent)).map stripEol) := by
  rw [← nonBlank_append, ← List.map_append, List.takeWhile_append_dropWhile]

def characters (lines : List Text) : Nat := (lines.map List.length).sum

theorem characters_append (first second : List Text) :
    characters (first ++ second) = characters first + characters second := by
  rw [characters, List.map_append, List.sum_append, characters, characters]

namespace Splice

variable {existing bin : Text} {indent : Nat} {pre post : List Text}

theorem nonBlank_lines (hsplice : Splice indent pre post) (hbin : Writable bin) :
    nonBlank (Text.lines (spliced bin indent pre post)) = nonBlank (pre.map stripEol) ++
        (entryBlock bin indent ++ nonBlank (post.map stripEol)) := by
  rw [hsplice.lines_eq hbin, nonBlank_append, nonBlank_append, nonBlank_entryBlock]

theorem dropWhile (hsplice : Splice indent pre post) :
    Splice indent pre (post.dropWhile (belongs indent)) where
  pos := hsplice.pos
  pre_ended := hsplice.pre_ended
  post_inclusive := by
    have hpost := hsplice.post_inclusive
    rw [← List.takeWhile_append_dropWhile (p := belongs indent) (l := post)] at hpost
    exact hpost.of_append
  before := hsplice.before
  state := hsplice.state

theorem installed (hsplice : Splice indent pre post) (hbin : Writable bin)
    (hindent : renderIndent existing = indent) (hcount : countEntries ⟨true, some indent⟩ post = 0)
    (hnext : post.takeWhile (belongs indent) = [])
    (hkept : nonBlank (pre.map stripEol) ++ nonBlank (post.map stripEol) =
      otherLines existing ++ addedHeader existing) :
    Installed existing bin (spliced bin indent pre post) where
  one_entry := by
    rw [lines_eq_map_splitInclusive, countEntries_map_stripEol,
      hsplice.splitInclusive_eq hbin.one_line, hsplice.countEntries_eq, hcount]
  extracted := by
    rw [hsplice.extractGooseBlock_eq hbin, hnext, hindent, renderGooseBlockAtIndent_eq]
    simp
  probed := hsplice.probe_installed hbin
  kept := by
    refine ⟨_, _, ?_, hkept⟩
    rw [hindent, lines_renderGooseBlockAtIndent hbin, hsplice.nonBlank_lines hbin]
  settled := by
    refine ⟨spliced bin indent pre (post.dropWhile (belongs indent)), ?_, ?_⟩
    · rw [mergeGooseYamlConfig, Option.getD_some, hsplice.mergedContent_eq hbin]
      rfl
    · rw [hsplice.nonBlank_lines hbin, hsplice.dropWhile.nonBlank_lines hbin]
      rw [nonBlank_map_stripEol_takeWhile_dropWhile indent post, hnext]
      rfl

theorem of_installed (hsplice : Splice indent pre post) (hbin : Writable bin)
    (hindent : renderIndent existing = indent)
    (hinstalled : Installed existing bin (spliced bin indent pre post)) :
    countEntries ⟨true, some indent⟩ post = 0 ∧ post.takeWhile (belongs indent) = [] ∧
      characters (nonBlank (pre.map stripEol)) +
          characters (nonBlank (post.map stripEol)) =
        characters (otherLines existing) + characters (addedHeader existing) := by
  refine ⟨?_, ?_, ?_⟩
  · have hone := hinstalled.one_entry
    rw [lines_eq_map_splitInclusive, countEntries_map_stripEol,
      hsplice.splitInclusive_eq hbin.one_line, hsplice.countEntries_eq] at hone
    omega
  · have hextracted := hinstalled.extracted
    rw [hsplice.extractGooseBlock_eq hbin, hindent, renderGooseBlockAtIndent_eq,
      unlines_append, Option.some.injEq, List.append_right_eq_self] at hextracted
    cases hlines : post.takeWhile (belongs indent) with
    | nil => rfl
    | cons line rest => simp [hlines, unlines] at hextracted
  · obtain ⟨front, back, hlines, hkept⟩ := hinstalled.kept
    have htotal := congrArg characters hlines
    have hother := congrArg characters hkept
    rw [hsplice.nonBlank_lines hbin, hindent, lines_renderGooseBlockAtIndent hbin] at htotal
    simp only [characters_append] at htotal hother
    omega

end Splice

theorem mem_lines_of_mem_entryLines {lines : List Text} {line : Text} {scan : Scan}
    (hline : line ∈ entryLines scan lines) : line ∈ lines := by
  induction lines generalizing scan with
  | nil => contradiction
  | cons first rest ih =>
    unfold entryLines at hline
    split at hline
    next =>
      rcases List.mem_cons.mp hline with rfl | hmem
      · exact .head _
      · exact .tail _ ((List.takeWhile_prefix _).subset hmem)
    next => exact .tail _ (ih hline)

theorem newline_not_mem_diffloreBlockLines {yaml line : Text}
    (hline : line ∈ diffloreBlockLines yaml) :
    '\n' ∉ line :=
  newline_not_mem_lines (mem_lines_of_mem_entryLines hline)

theorem mem_yamlEscapeScalar {bin : Text} {c : Char} (hc : c ∈ bin) : c ∈ yamlEscapeScalar bin := by
  unfold yamlEscapeScalar
  split
  next =>
    apply List.mem_cons_of_mem
    apply List.mem_append_left
    refine List.mem_flatMap.mpr ⟨c, hc, ?_⟩
    split
    next hquote => simp [hquote]
    next => exact List.mem_singleton.mpr rfl
  next => exact hc

theorem getLast?_trimEol (line : Text) : ∀ c ∈ (trimEol line).getLast?, isEol c = false := by
  induction line using List.reverseRecOn with
  | nil => simp [trimEol]
  | append_singleton line last ih =>
    by_cases hlast : isEol last
    · rwa [trimEol_concat hlast]
    · rw [trimEol, List.rdropWhile_concat_neg _ _ _ hlast, List.getLast?_concat]
      rintro c ⟨⟩
      simpa using hlast

theorem newline_not_mem_of_probed {bin merged : Text} (hcommand : entryAsExpected merged bin) :
    '\n' ∉ bin := by
  rw [entryAsExpected, Bool.and_eq_true, List.any_eq_true] at hcommand
  obtain ⟨⟨line, hline, hstart⟩, _⟩ := hcommand
  intro hmem
  apply newline_not_mem_diffloreBlockLines hline
  apply (List.dropWhile_suffix isWhitespace).subset
  change '\n' ∈ trimStart line
  rw [of_decide_eq_true hstart, commandLine]
  exact List.mem_append_right _ (mem_yamlEscapeScalar hmem)

theorem entryAsExpected_of_installed {bin merged name path : Text}
    (hprobe : (probeGooseInstall name path (some merged) bin).state = .installed) :
    entryAsExpected merged bin := by
  unfold probeGooseInstall at hprobe
  simp only at hprobe
  split at hprobe
  next => contradiction
  next =>
    split at hprobe
    next hexpected => exact hexpected
    next => contradiction

theorem writable_of_installed {existing bin merged : Text}
    (hinstalled : Installed existing bin merged) : Writable bin := by
  have hnewline : '\n' ∉ bin :=
    newline_not_mem_of_probed (entryAsExpected_of_installed (hinstalled.probed [] []))
  refine ⟨hnewline, ?_⟩
  intro hreturn
  have hextracted := hinstalled.extracted
  unfold extractGooseBlock at hextracted
  rw [Option.bind_some, Option.ite_none_left_eq_some] at hextracted
  have hread : ∀ line ∈ (diffloreBlockLines merged).map trimEol, '\n' ∉ line := by
    intro line hline
    obtain ⟨full, hfull, rfl⟩ := List.mem_map.mp hline
    intro hmem
    exact newline_not_mem_diffloreBlockLines hfull ((List.rdropWhile_prefix _ _).subset hmem)
  have hblock := unlines_injective hread (newline_not_mem_entryBlock hnewline _)
    (Option.some.inj hextracted.2)
  have hcommand : List.replicate (renderIndent existing + 2) ' ' ++ commandLine bin ∈
      entryBlock bin (renderIndent existing) := .tail _ (.head _)
  rw [← hblock] at hcommand
  obtain ⟨full, _, hfull⟩ := List.mem_map.mp hcommand
  have hlast := getLast?_trimEol full '\r'
  rw [hfull, List.getLast?_append_of_ne_nil, getLast?_commandLine] at hlast
  · exact absurd (hlast hreturn) (by decide)
  · exact List.append_ne_nil_of_right_ne_nil _ (yamlEscapeScalar_ne_nil bin)

end Difflore.Install

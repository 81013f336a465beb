import Difflore.Install.GooseServers

/-! # Uninstalling from a Goose config

Removing the entry keeps every other line but headers of mappings that are left
empty, and every other server entry stays in its mapping. Behind a merge, removal
gives back what was there before.
-/

namespace Difflore.Install

open Foundation Text

/-! ## What removal keeps -/

/-- Indentation of the first child behind the first entry, if none stands in front of it. -/
def siblingIndent (scan : Scan) : List Text → Option Nat
  | [] => none
  | line :: rest =>
    if (scan.next line).atEntry line then
      if scan.childIndent.isNone then
        sectionChild (rest.dropWhile (belongs ((scan.next line).childIndent.getD 2)))
      else none
    else siblingIndent (scan.next line) rest

/-- No unindented comment stands between a header and a server entry under it, and
the first child behind the entry is as far indented as the entry. -/
structure Removable (yaml : Text) : Prop where
  headers : headersHold (otherLines yaml)
  sibling : ∀ sibling ∈ siblingIndent .start (splitInclusive yaml),
    entryIndent .start (splitInclusive yaml) = some sibling

structure Removed (yaml content : Text) : Prop where
  lines_kept : HeadersDropped (outsideEntry .start (splitInclusive yaml))
    (splitInclusive content)
  servers_kept : serverEntries .start (splitInclusive content) = otherServers (splitInclusive yaml)

theorem headersHold_outsideEntry {yaml : Text} (hyaml : Removable yaml) :
    headersHold (outsideEntry .start (splitInclusive yaml)) := by
  rw [← headersHold_visible]
  have hheaders := hyaml.headers
  rwa [otherLines, lines_eq_map_splitInclusive, outsideEntry_map_stripEol, ← visible] at hheaders

section Remove

variable {yaml : Text} {lines pre post : List Text} {line : Text} {indent : Nat}

theorem FirstEntry.siblingIndent_eq {scan : Scan}
    (hfirst : FirstEntry scan lines pre line post indent) :
    siblingIndent scan lines =
      if (scan.run pre).childIndent.isNone then sectionChild (post.dropWhile (belongs indent))
      else none := by
  rw [hfirst.scanned siblingIndent (fun _ found => found) fun _ _ _ => rfl, foldr_skip,
    hfirst.child]
  rfl

theorem FirstEntry.otherServers_eq (hfirst : FirstEntry .start lines pre line post indent) :
    otherServers lines = serverEntries .start pre ++
      serverEntries ⟨true, some indent⟩ (post.dropWhile (belongs indent)) := by
  have hpositive : Scan.Positive ((Scan.start.run pre).next line) :=
    positive_next (positive_run positive_start pre) line
  obtain ⟨hserver, hdifflore⟩ := atServer_of_atEntry hpositive hfirst.entry
  have hbelongs : ∀ other ∈ post.takeWhile (belongs indent), belongs indent other :=
    fun other hother => List.mem_takeWhile_imp hother
  have hpost : serverEntries ⟨true, some indent⟩ post =
      serverEntries ⟨true, some indent⟩ (post.dropWhile (belongs indent)) := by
    conv_lhs => rw [← List.takeWhile_append_dropWhile (p := belongs indent) (l := post)]
    rw [serverEntries_append, serverEntries_belongs hbelongs, (run_belongs hfirst.pos hbelongs).1,
      List.nil_append]
  rw [otherServers, hfirst.split, serverEntries_append, serverEntries, if_pos hserver, hfirst.state,
    hpost, List.eraseP_append_right _ (not_diffloreLine_of_countEntries hfirst.before),
    List.eraseP_cons_of_pos hdifflore]

theorem FirstEntry.serverEntries_outside (hfirst : FirstEntry .start lines pre line post indent)
    (hsibling : ∀ sibling ∈ siblingIndent .start lines, entryIndent .start lines = some sibling) :
    serverEntries .start (pre ++ post.dropWhile (belongs indent)) = otherServers lines := by
  rw [hfirst.otherServers_eq, serverEntries_append]
  congr 1
  obtain ⟨childIndent, hrun, hchild⟩ := hfirst.state_before
  rw [hfirst.siblingIndent_eq, hfirst.entryIndent_eq, hrun] at hsibling
  rw [hrun]
  cases childIndent with
  | some first => rw [hchild first rfl]
  | none =>
    apply serverEntries_childIndent
    intro first hfirst
    exact (Option.some.inj (hsibling first hfirst)).symm

theorem splitInclusive_dropEmptyHeaders (hlines : Text.Inclusive lines) :
    splitInclusive (dropEmptyHeaders lines).flatten = dropEmptyHeaders lines :=
  (hlines.sublist (dropEmptyHeaders_sublist lines)).splitInclusive_flatten

theorem removedContent_of_firstEntry
    (hfirst : FirstEntry .start (splitInclusive yaml) pre line post indent) :
    removedContent yaml =
      .ok (some (dropEmptyHeaders (pre ++ post.dropWhile (belongs indent))).flatten) := by
  have hhas : yamlHasDiffloreUnderMcpServers yaml = true := by
    rw [yamlHas_eq]
    exact hfirst.hasEntry
  have hflatten : (pre ++ [] :: post.dropWhile (belongs indent)).flatten =
      (pre ++ post.dropWhile (belongs indent)).flatten := by simp
  have hinclusive : Text.Inclusive (pre ++ post.dropWhile (belongs indent)) :=
    Text.Inclusive.append hfirst.splice.pre_ended hfirst.splice.post_inclusive
  rw [removedContent, if_pos hhas, removeGooseDiffloreBlock, hfirst.spliceEntry_eq]
  simp only [Except.map, dropEmptyMcpServersBlock, hflatten, hinclusive.splitInclusive_flatten]

theorem removed_of_removable (hyaml : Removable yaml) :
    ∃ content, removeGooseYamlConfig (some yaml) false =
      .ok (yamlHasDiffloreUnderMcpServers yaml, some content) ∧ Removed yaml content := by
  cases hhas : yamlHasDiffloreUnderMcpServers yaml with
  | false =>
    refine ⟨yaml, ?_, ?_, ?_⟩
    · rw [removeGooseYamlConfig, removedContent, hhas]
      rfl
    · rw [outsideEntry_of_countEntries]
      · exact .refl _
      · rw [yamlHas_eq, ← Bool.not_eq_true, hasEntry_iff] at hhas
        omega
    · rw [otherServers, List.eraseP_of_forall_not]
      apply not_diffloreLine_of_countEntries
      rw [yamlHas_eq, ← Bool.not_eq_true, hasEntry_iff] at hhas
      omega
  | true =>
    obtain ⟨pre, line, post, indent, hfirst⟩ :=
      exists_firstEntry ((yamlHas_eq yaml).symm.trans hhas)
    have hdropped : HeadersDropped (pre ++ post.dropWhile (belongs indent))
        (dropEmptyHeaders (pre ++ post.dropWhile (belongs indent))) := by
      apply headersDropped_dropEmptyHeaders
      rw [← hfirst.outsideEntry_eq]
      exact headersHold_outsideEntry hyaml
    have hinclusive : Text.Inclusive (pre ++ post.dropWhile (belongs indent)) :=
      Text.Inclusive.append hfirst.splice.pre_ended hfirst.splice.post_inclusive
    refine ⟨(dropEmptyHeaders (pre ++ post.dropWhile (belongs indent))).flatten, ?_, ?_, ?_⟩
    · rw [removeGooseYamlConfig, removedContent_of_firstEntry hfirst]
      rfl
    · rw [splitInclusive_dropEmptyHeaders hinclusive, hfirst.outsideEntry_eq]
      exact hdropped
    · rw [splitInclusive_dropEmptyHeaders hinclusive, hdropped.serverEntries_eq,
        hfirst.serverEntries_outside hyaml.sibling]

end Remove

/-! ## Removal behind a merge -/

/-- The first `mcpServers:` line is ended, and what is read first behind it is not
deeper than an entry at `indent`. -/
def headerParts (indent : Nat) : List Text → Bool
  | [] => true
  | line :: rest =>
    if topLevelKey line = some mcpServers then
      line.getLast? = some '\n' &&
        !(rest.find? fun next => !blank next).any fun next => indent < indentOf next
    else headerParts indent rest

structure Reversible (existing bin : Text) : Prop where
  one_line : '\n' ∉ bin
  header_parts : yamlHasDiffloreUnderMcpServers existing = false →
    headerParts (renderIndent existing) (splitInclusive existing)
  headers : headersHold (otherLines existing)

/-- The lines to be given back: a config that got a header was trimmed. -/
def originalLines (existing : Text) : List Text :=
  if hasTopLevelMcpServers existing then otherLines existing
  else (otherLines existing).dropLast ++ ((otherLines existing).getLast?.map trimEnd).toList

def GivenBack (existing content : Text) : Prop :=
  HeadersDropped (originalLines existing) (nonBlank (Text.lines content))

section RoundTrip

variable {existing bin : Text} {pre post rest : List Text} {header line : Text} {indent : Nat}

theorem removedContent_spliced (hsplice : Splice indent pre post) (hbin : '\n' ∉ bin) :
    removedContent (spliced bin indent pre post) =
      .ok (some (dropEmptyHeaders (pre ++ post.dropWhile (belongs indent))).flatten) := by
  have hfirst := hsplice.firstEntry bin
  rw [← hsplice.splitInclusive_eq hbin] at hfirst
  rw [removedContent_of_firstEntry hfirst, Splice.dropWhile_belongs]

theorem removeGooseYamlConfig_spliced (hsplice : Splice indent pre post) (hbin : '\n' ∉ bin) :
    ∃ content, removeGooseYamlConfig (some (spliced bin indent pre post)) false =
        .ok (true, some content) ∧
      nonBlank (Text.lines content) =
        dropEmptyHeaders (visible (pre ++ post.dropWhile (belongs indent))) := by
  refine ⟨(dropEmptyHeaders (pre ++ post.dropWhile (belongs indent))).flatten, ?_, ?_⟩
  · rw [removeGooseYamlConfig, removedContent_spliced hsplice hbin]
    rfl
  · rw [← visible_splitInclusive, splitInclusive_dropEmptyHeaders, visible_dropEmptyHeaders]
    exact Text.Inclusive.append hsplice.pre_ended hsplice.dropWhile.post_inclusive

theorem visible_dropWhile_belongs {lines : List Text} (hlines :
      (lines.find? fun next => !blank next).any (fun next => indent < indentOf next) = false) :
    visible (lines.dropWhile (belongs indent)) = visible lines := by
  induction lines with
  | nil => rfl
  | cons line rest ih =>
    by_cases hblank : blank line
    · rw [List.find?_cons_of_neg (by simp [hblank])] at hlines
      rw [List.dropWhile_cons_of_pos (by simp [belongs, hblank]), ih hlines,
        visible_cons_of_blank hblank]
    · rw [List.find?_cons_of_pos (by simpa using hblank), Option.any_some] at hlines
      rw [List.dropWhile_cons_of_neg]
      simpa [belongs, hblank] using hlines

theorem FirstHeader.headerParts_eq {lines : List Text} (hheader : FirstHeader lines pre header rest)
    (indent : Nat) :
    headerParts indent lines = (decide (header.getLast? = some '\n') &&
      !(rest.find? fun next => !blank next).any fun next => indent < indentOf next) := by
  obtain ⟨rfl, hbefore, hkey, _⟩ := hheader
  induction pre with
  | nil => rw [List.nil_append, headerParts, if_pos hkey]
  | cons line pre ih =>
    rw [List.cons_append, headerParts, if_neg (hbefore line (.head _))]
    exact ih fun other hother => hbefore other (.tail _ hother)

theorem originalLines_of_hasTopLevel (htop : hasTopLevelMcpServers existing = true) :
    originalLines existing = otherLines existing := if_pos htop

theorem givenBack_of_dropEmptyHeaders {content : Text}
    (htop : hasTopLevelMcpServers existing = true) (hheaders : headersHold (otherLines existing))
    (hcontent : nonBlank (Text.lines content) = dropEmptyHeaders (otherLines existing)) :
    GivenBack existing content := by
  rw [GivenBack, hcontent, originalLines_of_hasTopLevel htop]
  exact headersDropped_dropEmptyHeaders hheaders

theorem Trimmed.dropEmptyHeaders_visible {lines : List Text} (hlines : Trimmed existing lines)
    (htop : hasTopLevelMcpServers existing = false) :
    dropEmptyHeaders (visible (lines ++ [mcpServersHeader ++ ['\n']])) =
      originalLines existing := by
  obtain ⟨front, hfront, htrimmed⟩ := hlines.others
  have hadded : visible [mcpServersHeader ++ ['\n']] = [mcpServersHeader] := by decide
  rw [visible_append, hadded, dropEmptyHeaders_added]
  · rw [originalLines, htop, if_neg Bool.false_ne_true, otherLines_of_hasTopLevel htop, visible,
      htrimmed]
    congr 1
    cases hlast : (nonBlank (Text.lines existing)).getLast? with
    | none =>
      rw [hlast] at hfront
      rw [List.getLast?_eq_none_iff.mp hlast] at hfront ⊢
      simpa using hfront.symm
    | some last =>
      rw [hlast] at hfront
      rw [hfront]
      simp
  · intro line hline
    obtain ⟨full, hfull, rfl⟩ := List.mem_map.mp (List.mem_of_mem_filter hline)
    rw [topLevelKey_stripEol]
    exact hlines.before full hfull

theorem givenBack_of_reversible {file : Option Text} {merged : Text} {replaced : Bool}
    (hmerge : mergeGooseYamlConfig file bin false = .ok (replaced, some merged))
    (hconfig : Reversible (file.getD []) bin) :
    ∃ content, removeGooseYamlConfig (some merged) false = .ok (true, some content) ∧
      GivenBack (file.getD []) content := by
  have hcontent := mergedContent_of_merge hmerge
  generalize file.getD [] = existing at hconfig hcontent ⊢
  cases hhas : yamlHasDiffloreUnderMcpServers existing with
  | true =>
    obtain ⟨pre, line, post, indent, hfirst⟩ :=
      exists_firstEntry ((yamlHas_eq existing).symm.trans hhas)
    rw [mergedContent_of_firstEntry hfirst] at hcontent
    obtain ⟨rfl, rfl⟩ := Prod.mk.inj (Except.ok.inj hcontent)
    obtain ⟨content, hremove, hlines⟩ :=
      removeGooseYamlConfig_spliced hfirst.splice hconfig.one_line
    refine ⟨content, hremove, ?_⟩
    apply givenBack_of_dropEmptyHeaders hfirst.hasTopLevel hconfig.headers
    rw [hlines, List.dropWhile_idempotent, visible_append, ← hfirst.otherLines_eq, visible, visible]
  | false =>
    cases htop : hasTopLevelMcpServers existing with
    | true =>
      obtain ⟨pre, header, rest, hheader, rfl⟩ := mergedContent_insert hhas htop hcontent
      have hparts := hconfig.header_parts hhas
      rw [hheader.headerParts_eq, Bool.and_eq_true, decide_eq_true_eq, Bool.not_eq_true'] at hparts
      have hinclusive := inclusive_splitInclusive existing
      rw [hheader.split] at hinclusive
      have hended : Text.Ended header := by
        cases hinclusive.of_append with
        | last _ hnewline => exact absurd (List.mem_of_getLast? hparts.1) hnewline
        | cons hended _ => exact hended
      rw [spliced_behind]
      obtain ⟨content, hremove, hlines⟩ :=
        removeGooseYamlConfig_spliced (hheader.splice hhas hended) hconfig.one_line
      refine ⟨content, hremove, ?_⟩
      apply givenBack_of_dropEmptyHeaders htop hconfig.headers
      rw [hlines, visible_append, visible_dropWhile_belongs hparts.2, ← hheader.otherLines_eq hhas,
        visible, visible]
    | false =>
      obtain ⟨lines, htrimmed, rfl⟩ := mergedContent_append htop hcontent
      obtain ⟨content, hremove, hlines⟩ :=
        removeGooseYamlConfig_spliced htrimmed.splice hconfig.one_line
      refine ⟨content, hremove, ?_⟩
      rw [List.dropWhile_nil, List.append_nil, htrimmed.dropEmptyHeaders_visible htop] at hlines
      rw [GivenBack, hlines]
      exact .refl _

end RoundTrip

/-- Removal keeps the other lines and the other servers, and undoes a merge up to an
old entry, headers with no server under them and the trimmed end. -/
theorem removeGooseYamlConfig_keeps_others : (∀ yaml, Removable yaml → ∃ content,
      removeGooseYamlConfig (some yaml) false =
          .ok (yamlHasDiffloreUnderMcpServers yaml, some content) ∧
        Removed yaml content) ∧
    ∀ (file : Option Text) (bin merged : Text) (replaced : Bool),
      mergeGooseYamlConfig file bin false = .ok (replaced, some merged) →
        Reversible (file.getD []) bin → ∃ content,
          removeGooseYamlConfig (some merged) false = .ok (true, some content) ∧
            GivenBack (file.getD []) content :=
  ⟨fun _ hyaml => removed_of_removable hyaml,
    fun _ _ _ _ hmerge hconfig => givenBack_of_reversible hmerge hconfig⟩

def commentedConfig : Text :=
  "mcpServers:\n  # servers\n  difflore:\n    command: old\n\n  other:\n    command: x\n".toList

def commentedServer : Text := "mcpServers:\n  # servers\n  other:\n    command: x\n".toList

theorem removeGooseYamlConfig_keeps_commentedServer :
    (∃ content, removeGooseYamlConfig (some commentedConfig) false = .ok (true, some content) ∧
      Removed commentedConfig content) ∧
    ∃ content merged, mergeGooseYamlConfig (some commentedServer) diffloreKey false =
        .ok (false, some merged) ∧
      removeGooseYamlConfig (some merged) false = .ok (true, some content) ∧
        GivenBack commentedServer content := by
  constructor
  · exact removeGooseYamlConfig_keeps_others.1 commentedConfig
      ⟨by decide, by decide⟩
  · obtain ⟨merged, hmerge⟩ :
      ∃ merged, mergeGooseYamlConfig (some commentedServer) diffloreKey false =
        .ok (false, some merged) := ⟨_, by rfl⟩
    obtain ⟨content, hremove, hback⟩ := removeGooseYamlConfig_keeps_others.2 (some commentedServer)
      diffloreKey merged false hmerge ⟨by decide, by decide, by decide⟩
    exact ⟨content, merged, hmerge, hremove, hback⟩

def emptyMapping : Text := "mcpServers:\n".toList

def emptyMappingMerged : Text :=
  "mcpServers:\n  difflore:\n    command: difflore\n    args:\n      - mcp-server\n".toList

theorem empty_mapping_is_not_given_back :
    ¬ ∀ (existing bin merged content : Text) (replaced removed : Bool),
      mergeGooseYamlConfig (some existing) bin false = .ok (replaced, some merged) →
        removeGooseYamlConfig (some merged) false = .ok (removed, some content) →
          nonBlank (Text.lines content) = nonBlank (Text.lines existing) := by
  intro hall
  have hmerge : mergeGooseYamlConfig (some emptyMapping) diffloreKey false =
      .ok (false, some emptyMappingMerged) := by decide
  have hremove : removeGooseYamlConfig (some emptyMappingMerged) false = .ok (true, some []) := by
    decide
  have hlines := hall _ _ _ _ _ _ hmerge hremove
  have hne : nonBlank (Text.lines []) ≠ nonBlank (Text.lines emptyMapping) := by decide
  exact hne hlines

end Difflore.Install

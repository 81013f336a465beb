import Difflore.Export.Writeback

/-! # Exporting again

An export finds the block of the export before it by the markers alone. It can be
exported over exactly if no exported text contains a marker: the fixed texts keep
markers from forming across two of them.
-/

namespace Difflore.Export

open Foundation Text

variable (sha1 : Text → List UInt8)

def exportRequest (path : Text) (blockMeta : ExportBlockMeta) (rules : List ExportRule) :
    MarkerBlockWrite :=
  let body := renderExportBody rules
  { path, block := buildExportBlock sha1 blockMeta body
    contentHash := exportContentHash sha1 body
    dryRun := false }

/-- The next export keeps the block, if it already has the hash, or puts its own in its place. -/
def Reexportable (path : Text) (blockMeta : ExportBlockMeta) (rules : List ExportRule) : Prop :=
  ∀ start outcome written,
    upsertMarkerBlock (.ok ()) start (exportRequest sha1 path blockMeta rules) =
      .ok (outcome, written) →
    outcome.action ≠ .skipped →
    ∃ before block after, written = .file (before ++ (block ++ after)) ∧
      (outcome.action ≠ .unchanged → block = (exportRequest sha1 path blockMeta rules).block) ∧
      ∀ laterMeta laterRules, let later := exportRequest sha1 path laterMeta laterRules
        upsertMarkerBlock (.ok ()) written later =
          if embeddedContentHash block = some later.contentHash then
            .ok (.ok .unchanged, written)
          else .ok (.ok .updated, .file (before ++ (later.block ++ after)))

def MarkerFreeExample (ex : RuleExample) : Prop :=
  Free markers ex.badCode ∧ Free markers ex.goodCode ∧ ∀ desc ∈ ex.description, Free markers desc

structure MarkerFreeRule (rule : ExportRule) : Prop where
  name : Free markers rule.name
  sourceKind : Free markers rule.sourceKind
  repoScope : ∀ scope ∈ rule.repoScope, Free markers scope
  body : Free markers (ruleBody rule.description)
  checkPrompt : ∀ check ∈ rule.checkPrompt, Free markers check
  examples : ∀ ex ∈ rule.examples, MarkerFreeExample ex

/-- No field of the header contains a marker; the last one is read with what closes it. -/
structure MarkerFreeMeta (blockMeta : ExportBlockMeta) : Prop where
  toolVersion : Free markers blockMeta.toolVersion
  generatedAtUtc : Free markers blockMeta.generatedAtUtc
  scopes : Free markers (scopeLabel blockMeta ++ (modeSegment blockMeta ++ " -->"))

/-! ## One rule -/

theorem free_trim_iff (s : Text) : Free markers (trim s) ↔ Free markers s := by
  obtain ⟨front, back, heq, hfront, hback⟩ := exists_eq_trim s
  have hleft : '<' ∉ front := fun hmem => absurd (hfront _ hmem) (by decide)
  have hright : '>' ∉ back := fun hmem => absurd (hback _ hmem) (by decide)
  conv_rhs => rw [heq]
  rw [free_append_of_left_not_mem hleft, free_append_of_right_not_mem hright]

theorem free_nonblank_iff (s : Option Text) :
    (∀ t ∈ nonblank s, Free markers t) ↔ ∀ t ∈ s, Free markers t := by
  cases s with
  | none => rfl
  | some t =>
    simp only [Option.mem_some_iff, forall_eq']
    by_cases ht : trim t = []
    · have hnone : nonblank (some t) = none := by simp [nonblank, ht]
      have hfree : Free markers t := (free_trim_iff t).mp (ht ▸ free_nil)
      simp [hnone, hfree]
    · have hsome : nonblank (some t) = some (trim t) := by simp [nonblank, ht]
      simp only [hsome, Option.mem_some_iff, forall_eq']
      exact free_trim_iff t

theorem fence_newline : Fence markers "\n" := by decide

theorem fence_blankLine : Fence markers "\n\n" := by decide

theorem free_learnedFrom_iff (s : Text) (repoScope : Option Text) (t : Text) :
    Free markers (s ++ (learnedFrom repoScope ++ ("\n\n" ++ t))) ↔
      Free markers s ∧ (∀ scope ∈ repoScope, Free markers scope) ∧ Free markers t := by
  have hfence : Fence markers " ← learned from " := .literal (by decide)
  rw [← free_nonblank_iff, learnedFrom]
  cases nonblank repoScope with
  | none => simpa using fence_blankLine.free_iff
  | some scope =>
    rw [List.append_assoc, hfence.free_iff, fence_blankLine.free_iff]
    simp

theorem free_bodySection_iff (body t : Text) :
    Free markers (bodySection body ++ t) ↔ Free markers body ∧ Free markers t := by
  have hfence : Fence markers "_(no rule body)_\n" := .literal (by decide)
  unfold bodySection
  split
  next hbody => rw [hfence.free_append_iff, hbody, and_iff_right free_nil]
  next => rw [List.append_assoc, fence_newline.free_iff]

theorem free_checkSection_iff (checkPrompt : Option Text) (t : Text) :
    Free markers (checkSection checkPrompt ++ t) ↔
      (∀ check ∈ checkPrompt, Free markers check) ∧ Free markers t := by
  have hfence : Fence markers "\n**Check prompt:** " := .literal (by decide)
  rw [← free_nonblank_iff, checkSection]
  cases nonblank checkPrompt with
  | none => simp
  | some check =>
    rw [List.append_assoc, List.append_assoc, hfence.free_append_iff, fence_newline.free_iff]
    simp

theorem free_exampleDescription_iff (description : Option Text) (t : Text) :
    Free markers (exampleDescription description ++ t) ↔
      (∀ desc ∈ description, Free markers desc) ∧ Free markers t := by
  rw [← free_nonblank_iff, exampleDescription]
  cases nonblank description with
  | none => simp
  | some desc =>
    rw [List.append_assoc, List.append_assoc, fence_newline.free_append_iff, fence_newline.free_iff]
    simp

theorem free_exampleSection_iff (ex : RuleExample) (t : Text) :
    Free markers (exampleSection ex ++ t) ↔ MarkerFreeExample ex ∧ Free markers t := by
  have hbad : Fence markers "\n❌ Bad:\n```\n" := .literal (by decide)
  have hgood : Fence markers "\n```\n\n✅ Good:\n```\n" := .literal (by decide)
  have hclose : Fence markers "\n```\n" := .literal (by decide)
  unfold exampleSection
  rw [List.append_assoc, List.append_assoc, List.append_assoc, List.append_assoc,
    List.append_assoc, hbad.free_append_iff, hgood.free_iff, hclose.free_iff,
    free_exampleDescription_iff, MarkerFreeExample, and_assoc, and_assoc]

theorem free_examples_iff (examples : List RuleExample) :
    Free markers (examples.flatMap exampleSection) ↔ ∀ ex ∈ examples, MarkerFreeExample ex := by
  induction examples with
  | nil => simp
  | cons ex rest ih => rw [List.flatMap_cons, free_exampleSection_iff, ih, List.forall_mem_cons]

theorem free_examplesSection_iff (examples : List RuleExample) :
    Free markers (examplesSection (if examples = [] then none else some examples)) ↔
      ∀ ex ∈ examples, MarkerFreeExample ex := by
  have hfence : Fence markers "\n### Examples\n" := .literal (by decide)
  cases examples with
  | nil => simp [examplesSection]
  | cons ex rest =>
    have hsection : examplesSection (some (ex :: rest)) =
        "\n### Examples\n" ++ (ex :: rest).flatMap exampleSection := rfl
    rw [if_neg (List.cons_ne_nil ex rest), hsection, hfence.free_append_iff, free_examples_iff]

theorem free_renderExportRule_iff (rule : ExportRule) :
    Free markers (renderExportRule rule) ↔ MarkerFreeRule rule := by
  have htitle : Fence markers "## " := .literal (by decide)
  have hsource : Fence markers "Review source: " := .literal (by decide)
  unfold renderExportRule renderRuleExport
  rw [htitle.free_append_iff, free_learnedFrom_iff, hsource.free_append_iff,
    fence_blankLine.free_iff, free_bodySection_iff, free_checkSection_iff,
    free_examplesSection_iff]
  constructor
  · rintro ⟨hname, hscope, hkind, hbody, hcheck, hexamples⟩
    exact ⟨hname, hkind, hscope, hbody, hcheck, hexamples⟩
  · rintro ⟨hname, hkind, hscope, hbody, hcheck, hexamples⟩
    exact ⟨hname, hscope, hkind, hbody, hcheck, hexamples⟩

set_option maxRecDepth 2000 in
theorem free_instructions_iff (t : Text) : Free markers (instructions ++ t) ↔ Free markers t := by
  have hsearch : Fence markers reviewSearchRulesInstruction := .literals (by decide)
  have hgate : Fence markers preSubmitGateInstruction := .literals (by decide)
  unfold instructions
  rw [List.append_assoc, List.append_assoc, List.append_assoc, hsearch.free_append_iff,
    fence_newline.free_append_iff, hgate.free_append_iff, fence_blankLine.free_append_iff]

theorem free_renderExportBody_iff (rules : List ExportRule) :
    Free markers (renderExportBody rules) ↔ ∀ rule ∈ rules, MarkerFreeRule rule := by
  have hrule : Fence markers "\n---\n\n" := .literal (by decide)
  have hnoRules : Fence markers noRulesText := .literals (by decide +kernel)
  unfold renderExportBody
  split
  next hrules =>
    rw [free_instructions_iff, hrules]
    simp [hnoRules.free]
  next =>
    rw [free_instructions_iff, hrule.free_intercalate_iff]
    simp [free_renderExportRule_iff]

theorem hexDigit_ne_left (n : Nat) : hexDigit n ≠ '<' := fun heq =>
  absurd (heq ▸ hexDigit_mem n) (by decide)

theorem free_exportContentHash (body : Text) : Free markers (exportContentHash sha1 body) := by
  apply free_of_left_not_mem
  intro hmem
  obtain ⟨byte, -, hbyte⟩ := List.mem_flatMap.mp hmem
  rcases List.mem_cons.mp hbyte with hhigh | hbyte
  · exact hexDigit_ne_left _ hhigh.symm
  · exact hexDigit_ne_left _ (List.mem_singleton.mp hbyte).symm

theorem free_toDigits (n : Nat) : Free markers (Nat.toDigits 10 n) := by
  apply free_of_left_not_mem
  intro hmem
  have hdigit := Nat.isDigit_of_mem_toDigits (by decide) (by decide) hmem
  contradiction

set_option maxRecDepth 2000 in
theorem free_blockHeader_iff (blockMeta : ExportBlockMeta) (body t : Text) :
    Free markers (blockHeader sha1 blockMeta body ++ t) ↔
      MarkerFreeMeta blockMeta ∧ Free markers t := by
  have hgenerated : Fence markers "\n<!-- AUTO-GENERATED by difflore export v" :=
    .literal (by decide)
  have hedit : Fence markers editNotice := .literals (by decide)
  have hcount : Fence markers " | rules: " := .literal (by decide)
  have hhash : Fence markers " | content-hash: " := .literal (by decide)
  have hscope : Fence markers " | repo-scope: " := .literal (by decide)
  have hsnapshot : Fence markers snapshotNotice := .literals (by decide)
  have hlast : ∀ label mode closing snapshot : Text,
      label ++ (mode ++ (closing ++ (snapshot ++ t))) =
        (label ++ (mode ++ closing)) ++ (snapshot ++ t) := by
    simp only [List.append_assoc, implies_true]
  unfold blockHeader
  simp only [List.append_assoc]
  rw [hgenerated.free_append_iff, hedit.free_iff, hcount.free_iff, hhash.free_iff, hscope.free_iff,
    hlast, hsnapshot.free_iff, and_iff_right (free_toDigits _),
    and_iff_right (free_exportContentHash sha1 body)]
  constructor
  · rintro ⟨hversion, htime, hscopes, ht⟩
    exact ⟨⟨hversion, htime, hscopes⟩, ht⟩
  · rintro ⟨⟨hversion, htime, hscopes⟩, ht⟩
    exact ⟨hversion, htime, hscopes, ht⟩

def blockInner (blockMeta : ExportBlockMeta) (body : Text) : Text :=
  blockHeader sha1 blockMeta body ++ (body ++ "\n")

theorem buildExportBlock_eq_enclose (blockMeta : ExportBlockMeta) (body : Text) :
    buildExportBlock sha1 blockMeta body =
      enclose beginTag endTag (blockInner sha1 blockMeta body) := by
  rw [enclose, symbols_beginTag, symbols_endTag, buildExportBlock, blockInner, List.append_assoc,
    List.append_assoc]

theorem free_blockInner_iff (blockMeta : ExportBlockMeta) (rules : List ExportRule) :
    Free markers (blockInner sha1 blockMeta (renderExportBody rules)) ↔
      MarkerFreeMeta blockMeta ∧ ∀ rule ∈ rules, MarkerFreeRule rule := by
  rw [blockInner, free_blockHeader_iff, fence_newline.append_free_iff, free_renderExportBody_iff]

theorem sentinel_infix_block (blockMeta : ExportBlockMeta) (body : Text) :
    generatedBlockSentinel <:+: buildExportBlock sha1 blockMeta body := by
  have hliteral : generatedBlockSentinel <:+:
      "\n<!-- AUTO-GENERATED by difflore export v" := by decide
  have hheader : generatedBlockSentinel <:+: blockHeader sha1 blockMeta body :=
    hliteral.trans (List.prefix_append ..).isInfix
  exact (hheader.trans (List.prefix_append ..).isInfix).trans (List.suffix_append ..).isInfix

/-! ## The second export -/

variable {sha1} {path : Text} {blockMeta : ExportBlockMeta} {rules : List ExportRule}

theorem block_exportRequest : (exportRequest sha1 path blockMeta rules).block =
    enclose beginTag endTag (blockInner sha1 blockMeta (renderExportBody rules)) :=
  buildExportBlock_eq_enclose sha1 blockMeta (renderExportBody rules)

theorem upsert_generated {file : Managed} (hfile : Generated file) {req : MarkerBlockWrite}
    (hreq : req.dryRun = false) :
    upsertMarkerBlock (.ok ()) (.file file.text) req =
      if embeddedContentHash file.block = some req.contentHash then
        .ok (.ok .unchanged, .file file.text)
      else .ok (.ok .updated, .file (file.before ++ (req.block ++ file.after))) := by
  rw [upsertMarkerBlock, plan_generated hfile]
  split
  next hplan =>
    split at hplan
    next => contradiction
    next => contradiction
  next hplan =>
    split at hplan
    next hhash => rw [if_pos hhash]
    next => contradiction
  next content hplan =>
    split at hplan
    next => contradiction
    next hhash =>
      rw [if_neg hhash, ← Plan.write.inj hplan]
      simp [writeTarget, hreq, Except.map]

theorem upsert_enclosed {block inner before after : Text}
    (hblock : block = enclose beginTag endTag inner)
    (hsentinel : generatedBlockSentinel <:+: block) (hinner : Free markers inner)
    (hbefore : Free markers before) (hafter : Free markers after) {req : MarkerBlockWrite}
    (hreq : req.dryRun = false) :
    upsertMarkerBlock (.ok ()) (.file (before ++ (block ++ after))) req =
      if embeddedContentHash block = some req.contentHash then
        .ok (.ok .unchanged, .file (before ++ (block ++ after)))
      else .ok (.ok .updated, .file (before ++ (req.block ++ after))) := by
  let file : Managed := ⟨before, inner, after, hbefore, hinner, hafter⟩
  have hfile : block = file.block := hblock
  have hgenerated : Generated file := by
    rw [Generated, ← hfile]
    exact hsentinel
  rw [hfile]
  exact upsert_generated hgenerated hreq

theorem upsert_stray_marker {block inner : Text} (hblock : block = enclose beginTag endTag inner)
    (hinner : ¬ Free markers inner) (req : MarkerBlockWrite) :
    ∃ reason, upsertMarkerBlock (.ok ()) (.file (block ++ ['\n'])) req =
      .ok (.skip reason, .file (block ++ ['\n'])) := by
  unfold Free at hinner
  push Not at hinner
  obtain ⟨tag, htag, hin⟩ := hinner
  have hpos := mt (countMatches_eq_zero_iff tag.symbols_ne_nil).mp (not_not.mpr hin)
  have hcount := countMatches_around markers_differ htag [] inner ['\n']
  rw [List.nil_append, ← hblock] at hcount
  have hmany : 1 < countMatches tag.symbols (block ++ ['\n']) := by omega
  obtain ⟨reason, hplan⟩ := @plan_multiple req _ _ htag hmany
  exact ⟨reason, by rw [upsertMarkerBlock, hplan]⟩

theorem upsert_written (hinner : Free markers (blockInner sha1 blockMeta (renderExportBody rules)))
    {before after : Text} (hbefore : Free markers before) (hafter : Free markers after)
    {later : MarkerBlockWrite} (hlater : later.dryRun = false) :
    let block := (exportRequest sha1 path blockMeta rules).block
    upsertMarkerBlock (.ok ()) (.file (before ++ (block ++ after))) later =
      if embeddedContentHash block = some later.contentHash then
        .ok (.ok .unchanged, .file (before ++ (block ++ after)))
      else .ok (.ok .updated, .file (before ++ (later.block ++ after))) :=
  upsert_enclosed block_exportRequest (sentinel_infix_block sha1 blockMeta _) hinner hbefore hafter
    hlater

theorem free_separator (existing : Text) (hexisting : Free markers existing) :
    ∃ before, Free markers before ∧
      ∀ req, appendBlock req existing = before ++ (req.block ++ ['\n']) := by
  unfold appendBlock
  split
  next =>
    refine ⟨existing ++ ['\n'], ?_, fun req => by simp⟩
    exact fence_newline.append_free_iff.mpr hexisting
  next =>
    refine ⟨existing ++ ['\n', '\n'], ?_, fun req => by simp⟩
    exact fence_blankLine.append_free_iff.mpr hexisting

theorem reexportable_of_free
    (hinner : Free markers (blockInner sha1 blockMeta (renderExportBody rules))) :
    Reexportable sha1 path blockMeta rules := by
  have hnewline : Free markers ['\n'] := fence_newline.free
  intro start outcome written hfirst haccepted
  cases start with
  | symlink =>
    obtain ⟨rfl, -⟩ := Prod.mk.inj (Except.ok.inj hfirst)
    exact absurd rfl haccepted
  | directory =>
    obtain ⟨rfl, -⟩ := Prod.mk.inj (Except.ok.inj hfirst)
    exact absurd rfl haccepted
  | unreadable error =>
    obtain ⟨rfl, -⟩ := Prod.mk.inj (Except.ok.inj hfirst)
    exact absurd rfl haccepted
  | unstattable error => contradiction
  | missing =>
    obtain ⟨-, rfl⟩ := Prod.mk.inj (Except.ok.inj hfirst)
    exact ⟨[], _, ['\n'], rfl, fun _ => rfl, fun _ _ =>
      upsert_written hinner free_nil hnewline rfl⟩
  | file existing =>
    have hplan : ∀ reason, plan (exportRequest sha1 path blockMeta rules) existing ≠
        .skip reason := by
      intro reason hskip
      simp only [upsertMarkerBlock, hskip] at hfirst
      obtain ⟨rfl, -⟩ := Prod.mk.inj (Except.ok.inj hfirst)
      exact haccepted rfl
    rcases accepted_cases hplan with ⟨hfree, hwrite⟩ | ⟨file, rfl, hgenerated⟩
    · simp only [upsertMarkerBlock, hwrite] at hfirst
      obtain ⟨-, rfl⟩ := Prod.mk.inj (Except.ok.inj hfirst)
      obtain ⟨before, hbefore, happend⟩ := free_separator existing hfree
      exact ⟨before, _, ['\n'], congrArg Target.file (happend _), fun _ => rfl, fun _ _ => by
        rw [happend]
        exact upsert_written hinner hbefore hnewline rfl⟩
    · rw [upsert_generated hgenerated rfl] at hfirst
      split at hfirst
      next =>
        obtain ⟨rfl, rfl⟩ := Prod.mk.inj (Except.ok.inj hfirst)
        exact ⟨file.before, file.block, file.after, rfl, fun hne => absurd rfl hne,
          fun _ _ => upsert_generated hgenerated rfl⟩
      next =>
        obtain ⟨-, rfl⟩ := Prod.mk.inj (Except.ok.inj hfirst)
        exact ⟨file.before, _, file.after, rfl, fun _ => rfl,
          fun _ _ => upsert_written hinner file.before_free file.after_free rfl⟩

theorem free_of_reexportable (hreexport : Reexportable sha1 path blockMeta rules) :
    Free markers (blockInner sha1 blockMeta (renderExportBody rules)) := by
  by_contra hinner
  obtain ⟨reason, hskip⟩ := upsert_stray_marker (@block_exportRequest sha1 path blockMeta rules)
    hinner (exportRequest sha1 path blockMeta rules)
  obtain ⟨before, block, after, hwritten, -, hnext⟩ :=
    hreexport .missing (.ok .created) _ rfl (by decide)
  have hlater := hnext blockMeta rules
  simp only at hlater
  rw [hskip] at hlater
  split at hlater
  next => simp [WriteOutcome.skip, WriteOutcome.ok] at hlater
  next => simp [WriteOutcome.skip, WriteOutcome.ok] at hlater

/-- An export can be exported over exactly if none of its texts contains a marker. -/
theorem reexportable_iff_markerFree (sha1 : Text → List UInt8) (path : Text)
    (blockMeta : ExportBlockMeta) (rules : List ExportRule) :
    Reexportable sha1 path blockMeta rules ↔
      MarkerFreeMeta blockMeta ∧ ∀ rule ∈ rules, MarkerFreeRule rule := by
  rw [← free_blockInner_iff sha1 blockMeta rules]
  exact ⟨free_of_reexportable, reexportable_of_free⟩

/-- A rule about the export itself, with the digest of the body it is rendered to. -/
def markerRule : ExportRule where
  name := "Keep the export markers"
  description := "Leave <!-- END DIFFLORE RULES --> in AGENTS.md alone."
  sourceKind := "manual"
  repoScope := none
  checkPrompt := none
  examples := []

def markerRuleDigest : List UInt8 :=
  [196, 32, 161, 220, 140, 41, 92, 6, 249, 221, 12, 121, 228, 101, 149, 52, 26, 28, 52, 53]

def markerRuleMeta : ExportBlockMeta where
  toolVersion := "0.1.0"
  generatedAtUtc := "2026-06-11T00:00:00Z"
  ruleCount := 1
  repoScopes := ["acme/widgets"]
  localOnly := false

theorem quoted_marker_blocks_export :
    ¬ Reexportable (fun _ => markerRuleDigest) "AGENTS.md" markerRuleMeta [markerRule] :=
  fun hreexport =>
    have hrules := ((free_blockInner_iff _ _ _).mp (free_of_reexportable hreexport)).2
    absurd (hrules markerRule (.head _)).body (by decide)

end Difflore.Export

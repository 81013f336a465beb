import Difflore.Context.SkillWrites

/-! # The rule index of a project

The index holds the documents of the rules in scope, with their vectors, a mirror for the
full-text search, and what was recorded when it was last built. A call first compares the
record with the fingerprint of the rules in scope; where they differ it rewrites the chunks
in one transaction, and then the record key by key.
-/

namespace Difflore.Context

open Foundation Text Infra

variable {call : IndexCall} {rule : RuleDocument} {skills : SkillTable}

inductive ActiveEmbedderKind
  | cloud
  | byok (providerHost model : Text) (dim : Nat)
  | sha1

def localEmbeddingProfile : Text := "sha1:local:128"

def cloudProfile : Text := "cloud:managed"

def ActiveEmbedderKind.profile : ActiveEmbedderKind → Text
  | .cloud => cloudProfile
  | .byok providerHost model dim =>
    "byok:" ++ (providerHost ++ (':' :: (model ++ (':' :: Nat.toDigits 10 dim))))
  | .sha1 => localEmbeddingProfile

def ActiveEmbedderKind.isSemantic : ActiveEmbedderKind → Bool
  | .cloud | .byok _ _ _ => true
  | .sha1 => false

structure Embedding where
  profile : Text
  text : Text

def embedText (text : Text) : Embedding := ⟨localEmbeddingProfile, text⟩

structure EmbeddedText where
  vector : Embedding
  semantic : Bool

/-- `embed_texts_async_with_timeout`: a text whose batch the provider does not answer gets its
local vector. -/
def embedTexts (embedder : ActiveEmbedderKind) (answered : Nat → Bool) (texts : List Text) :
    List EmbeddedText :=
  texts.mapIdx fun position text =>
    if answered position then ⟨⟨embedder.profile, text⟩, embedder.isSemantic⟩
    else ⟨embedText text, false⟩

def isSemanticProfile (profile : Text) : Bool :=
  "cloud:".toList.isPrefixOf profile || "byok:".toList.isPrefixOf profile

def chunkId (skillId : Text) : Text := "rule-" ++ skillId

/-- A row of `rule_chunks`. Every writer makes its id from the skill id. -/
structure RuleChunk where
  skillId : Text
  content : Text
  embedding : Embedding
  filePatterns : Option Text
  language : Option Text
  repoScope : Option Text

def RuleChunk.id (chunk : RuleChunk) : Text := chunkId chunk.skillId

abbrev Sig : Type := Text × Option Text × Option Text × Option Text

def RuleChunk.sig (chunk : RuleChunk) : Sig :=
  (chunk.content, chunk.filePatterns, chunk.language, chunk.repoScope)

def RuleDocument.sig (rule : RuleDocument) : Sig :=
  (rule.content, rule.filePatterns, rule.language, rule.repoScope)

/-- `rule_index_meta`, a field for each of its keys. -/
structure RuleIndexMeta where
  ruleIndexVersion : Option Text := none
  skillsCount : Option Nat := none
  embeddingProfile : Option Text := none
  skillsScopeSignature : Option Text := none
  skillsMaxUpdatedAt : WithBot Stamp := ⊥

structure RuleIndex where
  chunks : KeyedTable RuleChunk RuleChunk.id
  fts : List (Text × Text)
  recorded : RuleIndexMeta

def RuleIndex.empty : RuleIndex := ⟨.empty, [], {}⟩

inductive RuleIndexEmbeddingMode
  | active
  | localOnly

/-- What a call finds out from the settings and from the provider: the embedder when it
checks the index, when it plans the upsert and when it embeds, whether fallbacks were recent,
and which texts are answered. -/
structure EmbeddingEnv where
  checked : ActiveEmbedderKind
  recentlyDown : Bool
  probed : ActiveEmbedderKind
  embedder : ActiveEmbedderKind
  answered : Nat → Bool

def RuleDocument.chunk (rule : RuleDocument) (embedding : Embedding) : RuleChunk where
  skillId := rule.skillId
  content := rule.content
  embedding := embedding
  filePatterns := rule.filePatterns
  language := rule.language
  repoScope := rule.repoScope

structure RuleChunksUpsert where
  pending : List RuleChunk
  validIds : List Text
  rebuildFts : Bool
  embeddingProfile : Text

def upsertProfile (mode : RuleIndexEmbeddingMode) (env : EmbeddingEnv) : Text :=
  match mode with
  | .active => env.probed.profile
  | .localOnly => localEmbeddingProfile

/-- The rules that are new or changed, or all of them under another profile. -/
def rowsToEmbed (index : RuleIndex) (profile : Text) (rules : List RuleDocument) :
    List RuleDocument :=
  rules.filter fun rule =>
    decide (index.recorded.embeddingProfile ≠ some profile) ||
      (index.chunks.find (chunkId rule.skillId)).map RuleChunk.sig ≠ some rule.sig

def RuleDocument.localChunk (rule : RuleDocument) : RuleChunk := rule.chunk (embedText rule.content)

def embeddedRows (env : EmbeddingEnv) (rules : List RuleDocument) : List EmbeddedText :=
  embedTexts env.embedder env.answered (rules.map RuleDocument.content)

def fallsBack (env : EmbeddingEnv) (rules : List RuleDocument) : Bool :=
  isSemanticProfile env.probed.profile && (embeddedRows env rules).any fun row => !row.semantic

/-- `upsert_rule_chunks_with_mode`, up to its transaction. After a fallback all rules get
local vectors. -/
def planUpsert (mode : RuleIndexEmbeddingMode) (env : EmbeddingEnv) (rules : List RuleDocument)
    (index : RuleIndex) : RuleChunksUpsert :=
  let profile := upsertProfile mode env
  let toEmbed := rowsToEmbed index profile rules
  let plan := fun pending embeddingProfile =>
    { pending
      validIds := rules.map RuleDocument.skillId
      rebuildFts := decide (index.fts.length ≠ index.chunks.rows.length)
      embeddingProfile : RuleChunksUpsert }
  match mode with
  | .localOnly => plan (toEmbed.map RuleDocument.localChunk) profile
  | .active =>
    if fallsBack env toEmbed then plan (rules.map RuleDocument.localChunk) localEmbeddingProfile
    else plan (toEmbed.zipWith (fun rule row => rule.chunk row.vector) (embeddedRows env toEmbed))
      profile

/-- `DO UPDATE SET …`. -/
def RuleChunk.overwrite (chunk old : RuleChunk) : RuleChunk :=
  { old with
    content := chunk.content
    embedding := chunk.embedding
    filePatterns := chunk.filePatterns
    language := chunk.language
    repoScope := chunk.repoScope }

theorem RuleChunk.id_overwrite (chunk old : RuleChunk) : (chunk.overwrite old).id = old.id := rfl

def RuleIndex.writeChunk (index : RuleIndex) (chunk : RuleChunk) : RuleIndex :=
  let stale := if chunk.id ∈ index.chunks.keys then index.fts.filter (·.1 ≠ chunk.id) else index.fts
  { index with
    chunks := index.chunks.upsert chunk chunk.overwrite chunk.id_overwrite
    fts := stale ++ [(chunk.id, chunk.content)] }

def RuleIndex.prune (index : RuleIndex) (validIds : List Text) : RuleIndex :=
  { index with
    chunks := index.chunks.delete fun chunk => chunk.skillId ∉ validIds
    fts := index.fts.filter fun entry =>
      !index.chunks.rows.any fun chunk => chunk.skillId ∉ validIds && chunk.id = entry.1 }

def RuleIndex.rebuildFts (index : RuleIndex) : RuleIndex :=
  { index with fts := index.chunks.rows.map fun chunk => (chunk.id, chunk.content) }

def RuleIndex.commit (index : RuleIndex) (upsert : RuleChunksUpsert) : RuleIndex :=
  let pruned := (upsert.pending.foldl RuleIndex.writeChunk index).prune upsert.validIds
  if upsert.rebuildFts then pruned.rebuildFts else pruned

/-! ## What the transaction leaves -/

def RuleChunk.entry (chunk : RuleChunk) : Text × Sig := (chunk.skillId, chunk.sig)

def RuleDocument.entry (rule : RuleDocument) : Text × Sig := (rule.skillId, rule.sig)

@[simp] theorem RuleDocument.entry_chunk (rule : RuleDocument) (embedding : Embedding) :
    (rule.chunk embedding).entry = rule.entry := rfl

theorem chunkId_injective : Function.Injective chunkId := List.append_right_injective _

theorem RuleChunk.overwrite_of_id {chunk old : RuleChunk} (hid : old.id = chunk.id) :
    chunk.overwrite old = chunk := by
  have hskill : old.skillId = chunk.skillId := chunkId_injective hid
  cases chunk
  simp only [RuleChunk.overwrite, RuleChunk.mk.injEq, and_self, and_true]
  exact hskill

theorem chunks_foldl_writeChunk (pending : List RuleChunk) (index : RuleIndex) :
    (pending.foldl RuleIndex.writeChunk index).chunks =
      pending.foldl (fun chunks chunk => chunks.upsert chunk chunk.overwrite chunk.id_overwrite)
        index.chunks := by
  induction pending generalizing index with
  | nil => rfl
  | cons chunk rest ih => exact ih (index.writeChunk chunk)

theorem chunks_commit (index : RuleIndex) (upsert : RuleChunksUpsert) :
    (index.commit upsert).chunks =
      ((upsert.pending.foldl RuleIndex.writeChunk index).prune upsert.validIds).chunks := by
  unfold RuleIndex.commit
  split
  · rfl
  · rfl

theorem recorded_foldl_writeChunk (pending : List RuleChunk) (index : RuleIndex) :
    (pending.foldl RuleIndex.writeChunk index).recorded = index.recorded := by
  induction pending generalizing index with
  | nil => rfl
  | cons chunk rest ih => exact ih (index.writeChunk chunk)

@[simp] theorem recorded_commit (index : RuleIndex) (upsert : RuleChunksUpsert) :
    (index.commit upsert).recorded = index.recorded := by
  unfold RuleIndex.commit
  split
  · exact recorded_foldl_writeChunk upsert.pending index
  · exact recorded_foldl_writeChunk upsert.pending index

theorem mem_commit {index : RuleIndex} {upsert : RuleChunksUpsert}
    (hnodup : (upsert.pending.map RuleChunk.skillId).Nodup) {chunk : RuleChunk} :
    chunk ∈ (index.commit upsert).chunks.rows ↔ chunk.skillId ∈ upsert.validIds ∧
      (chunk ∈ upsert.pending ∨
        chunk ∈ index.chunks.rows ∧ chunk.skillId ∉ upsert.pending.map RuleChunk.skillId) := by
  have hids : upsert.pending.map RuleChunk.id =
      (upsert.pending.map RuleChunk.skillId).map chunkId := by
    rw [List.map_map]
    rfl
  have hnodupIds : (upsert.pending.map RuleChunk.id).Nodup := by
    rw [hids]
    exact hnodup.map chunkId_injective
  rw [chunks_commit, RuleIndex.prune, KeyedTable.mem_delete, chunks_foldl_writeChunk,
    KeyedTable.mem_foldl_upsert (fun _ _ => RuleChunk.overwrite_of_id) hnodupIds, hids,
    RuleChunk.id, List.mem_map_of_injective chunkId_injective, decide_eq_false_iff_not, not_not,
    and_comm]

/-- The rules that an upsert writes: those that need it, or all of them after a fallback. -/
structure Planned (index : RuleIndex) (rules : List RuleDocument) (upsert : RuleChunksUpsert)
    (covered : List RuleDocument) : Prop where
  entries : upsert.pending.map RuleChunk.entry = covered.map RuleDocument.entry
  validIds : upsert.validIds = rules.map RuleDocument.skillId
  covered : covered = rowsToEmbed index upsert.embeddingProfile rules ∨ covered = rules

theorem length_embeddedRows (env : EmbeddingEnv) (rules : List RuleDocument) :
    (embeddedRows env rules).length = rules.length := by
  simp [embeddedRows, embedTexts]

theorem entries_zipWith {rules : List RuleDocument} {rows : List EmbeddedText}
    (hlength : rows.length = rules.length) :
    (rules.zipWith (fun rule row => rule.chunk row.vector) rows).map RuleChunk.entry =
      rules.map RuleDocument.entry := by
  induction rules generalizing rows with
  | nil => simp
  | cons rule rest ih =>
    cases rows with
    | nil => contradiction
    | cons row rows =>
      simp only [List.zipWith_cons_cons, List.map_cons, RuleDocument.entry_chunk]
      rw [ih (Nat.succ.inj hlength)]

theorem entries_local (rules : List RuleDocument) :
    (rules.map RuleDocument.localChunk).map RuleChunk.entry = rules.map RuleDocument.entry := by
  rw [List.map_map]
  rfl

theorem planned_planUpsert (mode : RuleIndexEmbeddingMode) (env : EmbeddingEnv)
    (rules : List RuleDocument) (index : RuleIndex) :
    ∃ covered, Planned index rules (planUpsert mode env rules index) covered := by
  cases mode with
  | localOnly => exact ⟨_, entries_local _, rfl, .inl rfl⟩
  | active =>
    unfold planUpsert
    dsimp only
    split
    · exact ⟨rules, entries_local rules, rfl, .inr rfl⟩
    · exact ⟨_, entries_zipWith (length_embeddedRows env _), rfl, .inl rfl⟩

section Planned

variable {index : RuleIndex} {rules covered : List RuleDocument} {upsert : RuleChunksUpsert}

section

variable (hplanned : Planned index rules upsert covered)
include hplanned

theorem Planned.subset : covered.Sublist rules := by
  rcases hplanned.covered with rfl | rfl
  · exact List.filter_sublist
  · exact List.Sublist.refl _

theorem Planned.skillIds :
    upsert.pending.map RuleChunk.skillId = covered.map RuleDocument.skillId := by
  have hfirst := congrArg (List.map Prod.fst) hplanned.entries
  simpa [List.map_map, Function.comp_def, RuleChunk.entry, RuleDocument.entry] using hfirst

theorem Planned.kept (hrule : rule ∈ rules) (hkept : rule ∉ covered) :
    index.recorded.embeddingProfile = some upsert.embeddingProfile ∧
      ∃ old, index.chunks.find (chunkId rule.skillId) = some old ∧ old.sig = rule.sig := by
  rcases hplanned.covered with rfl | rfl
  · simpa [rowsToEmbed, hrule, Option.map_eq_some_iff] using hkept
  · exact absurd hrule hkept

theorem Planned.mem_commit (hnodup : (rules.map RuleDocument.skillId).Nodup) {chunk : RuleChunk} :
    chunk ∈ (index.commit upsert).chunks.rows ↔ chunk ∈ upsert.pending ∨
      chunk ∈ index.chunks.rows ∧ ∃ rule ∈ rules, rule ∉ covered ∧
        rule.skillId = chunk.skillId := by
  have hsub : (covered.map RuleDocument.skillId).Sublist (rules.map RuleDocument.skillId) :=
    hplanned.subset.map _
  rw [Context.mem_commit (hplanned.skillIds ▸ hnodup.sublist hsub), hplanned.skillIds,
    hplanned.validIds]
  constructor
  · rintro ⟨hvalid, hpending | ⟨hold, hfresh⟩⟩
    · exact .inl hpending
    · obtain ⟨rule, hrule, hid⟩ := List.mem_map.mp hvalid
      exact .inr ⟨hold, rule, hrule, fun hcovered =>
        hfresh (hid ▸ List.mem_map_of_mem hcovered), hid⟩
  · rintro (hpending | ⟨hold, rule, hrule, hkept, hid⟩)
    · have hcovered : chunk.skillId ∈ covered.map RuleDocument.skillId :=
        hplanned.skillIds ▸ List.mem_map_of_mem hpending
      exact ⟨hsub.subset hcovered, .inl hpending⟩
    · refine ⟨hid ▸ List.mem_map_of_mem hrule, .inr ⟨hold, fun hcovered => ?_⟩⟩
      obtain ⟨other, hother, hsame⟩ := List.mem_map.mp hcovered
      have heq := List.inj_on_of_nodup_map hnodup (hplanned.subset.subset hother) hrule
        (hsame.trans hid.symm)
      exact hkept (heq ▸ hother)

theorem Planned.entries_commit (hnodup : (rules.map RuleDocument.skillId).Nodup) :
    ((index.commit upsert).chunks.rows.map RuleChunk.entry).Perm
      (rules.map RuleDocument.entry) := by
  have hchunks : ((index.commit upsert).chunks.rows.map RuleChunk.entry).Nodup := by
    apply List.Nodup.of_map (fun entry => chunkId entry.1)
    rw [List.map_map]
    exact (index.commit upsert).chunks.nodup
  have hrules : (rules.map RuleDocument.entry).Nodup := by
    apply List.Nodup.of_map Prod.fst
    rw [List.map_map]
    exact hnodup
  apply (List.perm_ext_iff_of_nodup hchunks hrules).mpr
  intro entry
  constructor
  · intro hentry
    obtain ⟨chunk, hchunk, rfl⟩ := List.mem_map.mp hentry
    rcases (hplanned.mem_commit hnodup).mp hchunk with hpending | ⟨hold, rule, hrule, hkept, hid⟩
    · apply (hplanned.subset.map RuleDocument.entry).subset
      exact hplanned.entries ▸ List.mem_map_of_mem hpending
    · obtain ⟨-, old, hfind, hsig⟩ := hplanned.kept hrule hkept
      obtain ⟨hmem, hkey⟩ := KeyedTable.find_eq_some.mp hfind
      have heq : old = chunk := KeyedTable.eq_of_key hmem hold (hkey.trans (congrArg chunkId hid))
      subst heq
      exact List.mem_map.mpr ⟨rule, hrule, Prod.ext hid hsig.symm⟩
  · intro hentry
    obtain ⟨rule, hrule, rfl⟩ := List.mem_map.mp hentry
    by_cases hcovered : rule ∈ covered
    · have hpending : rule.entry ∈ upsert.pending.map RuleChunk.entry :=
        hplanned.entries ▸ List.mem_map_of_mem hcovered
      obtain ⟨chunk, hchunk, hsame⟩ := List.mem_map.mp hpending
      exact List.mem_map.mpr ⟨chunk, (hplanned.mem_commit hnodup).mpr (.inl hchunk), hsame⟩
    · obtain ⟨-, old, hfind, hsig⟩ := hplanned.kept hrule hcovered
      obtain ⟨hmem, hkey⟩ := KeyedTable.find_eq_some.mp hfind
      have hid : old.skillId = rule.skillId := chunkId_injective hkey
      exact List.mem_map.mpr ⟨old, (hplanned.mem_commit hnodup).mpr
        (.inr ⟨hmem, rule, hrule, hcovered, hid.symm⟩), Prod.ext hid hsig⟩

end

end Planned

structure RuleIndexState where
  ruleCount : Nat
  maxUpdatedAt : WithBot Stamp
  embeddingProfile : Text
  scopeSignature : Option Text

/-- `RULE_INDEX_META_VERSION`. -/
def ruleIndexMetaVersion : Text := ['2']

def ruleIndexIsCurrent (index : RuleIndex) (state : RuleIndexState) : Bool :=
  if index.fts.length ≠ index.chunks.rows.length then false
  else if 0 < state.ruleCount && index.chunks.rows.length = 0 then false
  else if index.recorded.ruleIndexVersion ≠ some ruleIndexMetaVersion then false
  else if index.recorded.skillsCount ≠ some state.ruleCount then false
  else if index.recorded.embeddingProfile ≠ some state.embeddingProfile then false
  else if state.scopeSignature.any fun expected =>
      index.recorded.skillsScopeSignature ≠ some expected then false
  else index.recorded.skillsMaxUpdatedAt = state.maxUpdatedAt

inductive IndexStatement
  | commit (upsert : RuleChunksUpsert)
  | ruleIndexVersion (value : Text)
  | skillsCount (value : Nat)
  | embeddingProfile (value : Text)
  | skillsScopeSignature (value : Text)
  | skillsMaxUpdatedAt (value : WithBot Stamp)

/-- `mark_rule_index_current`. A table without active rules has no latest time, and its key is
deleted. -/
def markRuleIndexCurrent (state : RuleIndexState) : List IndexStatement :=
  [.ruleIndexVersion ruleIndexMetaVersion, .skillsCount state.ruleCount,
    .embeddingProfile state.embeddingProfile,
    .skillsScopeSignature (state.scopeSignature.getD []), .skillsMaxUpdatedAt state.maxUpdatedAt]

def RuleIndex.exec (index : RuleIndex) : IndexStatement → RuleIndex
  | .commit upsert => index.commit upsert
  | .ruleIndexVersion value =>
    { index with recorded := { index.recorded with ruleIndexVersion := some value } }
  | .skillsCount value =>
    { index with recorded := { index.recorded with skillsCount := some value } }
  | .embeddingProfile value =>
    { index with recorded := { index.recorded with embeddingProfile := some value } }
  | .skillsScopeSignature value =>
    { index with recorded := { index.recorded with skillsScopeSignature := some value } }
  | .skillsMaxUpdatedAt value =>
    { index with recorded := { index.recorded with skillsMaxUpdatedAt := value } }

/-! ## The call -/

def comparedScopes (repoScopes : List Text) : List Text :=
  (repoScopes.map fun scope => toAsciiLowercase (trim scope)).filter (· ≠ [])

def filterRulesForRepoScopes (rules : List RuleDocument) (repoScopes : List Text) :
    List RuleDocument :=
  if comparedScopes repoScopes = [] then []
  else rules.filter fun rule =>
    rule.repoScope.any fun scope => toAsciiLowercase scope ∈ comparedScopes repoScopes

def freshnessExpectedProfile (activeProfile : Text) (persistedProfile : Option Text)
    (providerRecentlyDown : Bool) : Text :=
  if providerRecentlyDown && !"sha1:".toList.isPrefixOf activeProfile then
    (persistedProfile.filter fun persisted => "sha1:".toList.isPrefixOf persisted).getD
      activeProfile
  else activeProfile

/-- A call; a check that finds the database locked twice counts as stale. -/
structure IndexCall where
  repoScopes : List Text
  mode : RuleIndexEmbeddingMode
  env : EmbeddingEnv
  checkLocked : Bool := false

variable (library : Library)

def IndexCall.rules (call : IndexCall) (skills : SkillTable) : List RuleDocument :=
  filterRulesForRepoScopes (loadRulesFromDb library skills) call.repoScopes

def IndexCall.state (call : IndexCall) (skills : SkillTable) (index : RuleIndex) :
    RuleIndexState where
  ruleCount := (call.rules library skills).length
  maxUpdatedAt := maxUpdatedAt skills
  embeddingProfile := match call.mode with
    | .active => freshnessExpectedProfile call.env.checked.profile
        index.recorded.embeddingProfile call.env.recentlyDown
    | .localOnly => localEmbeddingProfile
  scopeSignature := scopeSignatureFromSkillIds library
    ((call.rules library skills).map RuleDocument.skillId)

def IndexCall.current (call : IndexCall) (skills : SkillTable) (index : RuleIndex) : Bool :=
  !call.checkLocked && ruleIndexIsCurrent index (call.state library skills index)

/-- `ensure_rules_indexed_for_repo_scopes_with_mode`: the statements it executes. -/
def ensureRulesIndexed (call : IndexCall) (skills : SkillTable) (index : RuleIndex) :
    List IndexStatement :=
  let state := call.state library skills index
  if call.current library skills index then []
  else
    let outcome := planUpsert call.mode call.env (call.rules library skills) index
    .commit outcome ::
      markRuleIndexCurrent { state with embeddingProfile := outcome.embeddingProfile }

variable {library}

theorem filterRulesForRepoScopes_sublist (rules : List RuleDocument) (repoScopes : List Text) :
    (filterRulesForRepoScopes rules repoScopes).Sublist rules := by
  unfold filterRulesForRepoScopes
  split
  · exact List.nil_sublist rules
  · exact List.filter_sublist

theorem IndexCall.nodup_rules (call : IndexCall) (skills : SkillTable) :
    ((call.rules library skills).map RuleDocument.skillId).Nodup :=
  (loadRulesFromDb_ids_nodup library skills).sublist
    ((filterRulesForRepoScopes_sublist _ _).map _)

theorem IndexCall.mem_rules (hrule : rule ∈ call.rules library skills) :
    ∃ row ∈ skills.rows, row.served = true ∧ ruleDocument library row = rule :=
  mem_loadRulesFromDb.mp ((filterRulesForRepoScopes_sublist _ _).subset hrule)

theorem IndexCall.rule_of_id (hrule : rule ∈ call.rules library skills) {row : SkillRow}
    (hrow : row ∈ skills.rows) (hid : rule.skillId = row.id) : ruleDocument library row = rule := by
  obtain ⟨source, hsource, -, rfl⟩ := call.mem_rules hrule
  rw [skills.eq_of_key hsource hrow hid]

theorem foldl_markRuleIndexCurrent (state : RuleIndexState) (index : RuleIndex) :
    (markRuleIndexCurrent state).foldl RuleIndex.exec index =
      { index with
        recorded :=
          { ruleIndexVersion := some ruleIndexMetaVersion
            skillsCount := some state.ruleCount
            embeddingProfile := some state.embeddingProfile
            skillsScopeSignature := some (state.scopeSignature.getD [])
            skillsMaxUpdatedAt := state.maxUpdatedAt } } := rfl

theorem ensureRulesIndexed_of_stale {index : RuleIndex}
    (hstale : call.current library skills index = false) :
    (ensureRulesIndexed library call skills index).foldl RuleIndex.exec index =
      { index.commit (planUpsert call.mode call.env (call.rules library skills) index) with
        recorded :=
          { ruleIndexVersion := some ruleIndexMetaVersion
            skillsCount := some (call.rules library skills).length
            embeddingProfile := some
              (planUpsert call.mode call.env (call.rules library skills) index).embeddingProfile
            skillsScopeSignature := some ((scopeSignatureFromSkillIds library
              ((call.rules library skills).map RuleDocument.skillId)).getD [])
            skillsMaxUpdatedAt := maxUpdatedAt skills } } := by
  unfold ensureRulesIndexed
  dsimp only
  rw [hstale, if_neg Bool.false_ne_true, List.foldl_cons, foldl_markRuleIndexCurrent]
  rfl

theorem ensureRulesIndexed_of_current {index : RuleIndex}
    (hcurrent : call.current library skills index = true) :
    ensureRulesIndexed library call skills index = [] := by
  unfold ensureRulesIndexed
  exact if_pos hcurrent

variable (library)

structure IndexWorld where
  skills : SkillTable
  index : RuleIndex

/-- A write of the skills table, or a call. A call that fails has executed some of its
statements. -/
inductive IndexMove
  | write (write : SkillWrite)
  | ensure (call : IndexCall) (failsAfter : Option Nat)

def IndexCall.executed (call : IndexCall) (failsAfter : Option Nat) (world : IndexWorld) :
    List IndexStatement :=
  let statements := ensureRulesIndexed library call world.skills world.index
  failsAfter.elim statements fun count => statements.take count

def IndexWorld.next (world : IndexWorld) : IndexMove → IndexWorld
  | .write write => { world with skills := write.apply library world.skills }
  | .ensure call failsAfter =>
    { world with index :=
      (call.executed library failsAfter world).foldl RuleIndex.exec world.index }

def IndexWorld.step (world : IndexWorld) (move : IndexMove) : Option IndexWorld :=
  some (world.next library move)

def IndexWorld.start (skills : SkillTable) : IndexWorld := ⟨skills, .empty⟩

end Difflore.Context

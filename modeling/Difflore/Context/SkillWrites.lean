import Difflore.Context.RuleSource

/-! # The writers of the skills table

Each writer of the program that inserts, deletes or updates an indexed column, with the
values it binds and the conditions of its statements. A writer that stamps a row uses the
time it read when it began. What a write may leave behind is said once: a row is stamped,
or it has the document and the stamp it had before.
-/

namespace Difflore.Context

open Foundation Text Infra

variable (library : Library)

def claudeOnly : EnabledEngines := { noEngines with claude := true }

def allEngines : EnabledEngines := ⟨true, true, true, true⟩

inductive Engine
  | codex
  | claude
  | gemini
  | cursor

def EnabledEngines.set (enabled : EnabledEngines) (value : Bool) : Engine → EnabledEngines
  | .codex => { enabled with codex := value }
  | .claude => { enabled with claude := value }
  | .gemini => { enabled with gemini := value }
  | .cursor => { enabled with cursor := value }

def githubSource : Text := "github"

def localSource : Text := "local"

def cloudSource : Text := "cloud"

def firstVersion : Text := "1.0.0"

/-! ## Local writers -/

def addSkill (owner repo directory : Text) (now : Stamp) (skills : SkillTable) : SkillTable :=
  skills.insertOrIgnore
    { id := "skill-" ++ (owner ++ '-' :: directory)
      name := directory.map fun c => if c = '-' then ' ' else c
      source := githubSource
      version := firstVersion
      description := "Imported from " ++ (owner ++ '/' :: repo)
      tags := library.printStrings ["github", "imported"]
      enabled := claudeOnly
      installedAt := now
      updatedAt := now }

structure LocalSkill where
  slug : Text
  name : Text
  skillType : Text
  description : Text
  tags : List Text
  trigger : Option Text
  checkPrompt : Option Text

/-- `skills::create_local`. The insert fails on an id that is taken. -/
def createLocal (input : LocalSkill) (now : Stamp) (skills : SkillTable) : SkillTable :=
  skills.insertOrIgnore
    { id := "local-" ++ input.slug
      name := input.name
      source := localSource
      version := firstVersion
      description := input.description
      skillType := input.skillType
      tags := library.printStrings input.tags
      trigger := input.trigger
      checkPrompt := input.checkPrompt
      enabled := claudeOnly
      installedAt := now
      updatedAt := now }

/-- The values `remember` binds for a new rule. -/
structure RememberedRule where
  id : Text
  title : Text
  body : Text
  skillType : Text
  tags : List Text
  filePatterns : List Text
  sourceRepo : Option Text
  confidence : Rat
  origin : Text
  sourceKind : Text
  capturedByClient : Option Text
  contentHash : Text
  hashCreatedAt : Nat
  status : SkillStatus

def filePatternsJson (patterns : List Text) : Option Text :=
  if patterns = [] then none else some (library.printStrings patterns)

def RememberedRule.newRow (input : RememberedRule) (now : Stamp) : SkillRow :=
  { id := input.id
    name := input.title
    source := localSource
    version := firstVersion
    description := input.body
    skillType := input.skillType
    tags := library.printStrings input.tags
    sourceRepo := input.sourceRepo
    enabled := allEngines
    confidence := input.confidence
    filePatterns := filePatternsJson library input.filePatterns
    origin := input.origin
    sourceKind := input.sourceKind
    contentHash := some input.contentHash
    hashCreatedAt := some input.hashCreatedAt
    capturedByClient := input.capturedByClient
    status := input.status
    installedAt := now
    updatedAt := now }

/-- `skills::remember`: the insert of a new rule or rule draft. -/
def rememberRule (input : RememberedRule) (now : Stamp) (skills : SkillTable) : SkillTable :=
  skills.insertOrIgnore (input.newRow library now)

/-- `REMEMBER_CONVERSATION_CONFIDENCE_CAP`. -/
def conversationConfidenceCap : Rat := 7 / 10

/-- `strengthen_existing_remember_rule`. -/
def strengthenRule (id : Text) (now : Stamp) (skills : SkillTable) : SkillTable :=
  skills.update (fun row => row.id = id)
    (fun row => { row with
      confidence := min (row.confidence + 1 / 20) conversationConfidenceCap
      updatedAt := now })
    fun _ => rfl

/-- `sweep_stale_skills`: the rules it found stale lose confidence. -/
def decayRules (ids : List Text) (factor floor : Rat) (now : Stamp) (skills : SkillTable) :
    SkillTable :=
  skills.update (fun row => row.id ∈ ids && floor < row.confidence)
    (fun row => { row with confidence := max (row.confidence * factor) floor, updatedAt := now })
    fun _ => rfl

def backfillSourceKind (id sourceKind previous : Text) (skills : SkillTable) : SkillTable :=
  skills.update (fun row => row.id = id && row.sourceKind = previous)
    (fun row => { row with sourceKind }) fun _ => rfl

/-- A rule that is bound to no repository is bound to this one: the row is not stamped. -/
def attachSourceRepo (id repo : Text) (skills : SkillTable) : SkillTable := skills.update
    (fun row => row.id = id && row.sourceRepo.all fun stored => trimSpaces stored = [])
    (fun row => { row with sourceRepo := some repo }) fun _ => rfl

def toggleEngine (id : Text) (engine : Engine) (enabled : Bool) (now : Stamp)
    (skills : SkillTable) : SkillTable :=
  skills.update (fun row => row.id = id)
    (fun row => { row with enabled := row.enabled.set enabled engine, updatedAt := now })
    fun _ => rfl

def removeSkill (id : Text) (skills : SkillTable) : SkillTable :=
  skills.delete fun row => row.id = id

def prReviewOrigin : Text := "pr_review"

def reviewImportClients : List Text := ["import-reviews", "import-reviews:local-agent"]

def SkillRow.importedReview (row : SkillRow) : Bool :=
  row.source = localSource && row.origin = prReviewOrigin &&
    row.capturedByClient.any (· ∈ reviewImportClients)

/-- `promote_candidate`: the row is not stamped. Drafts of imported reviews are enabled
for all engines. A draft with the content hash of an active rule is refused. -/
def promoteCandidate (id : Text) (skills : SkillTable) : SkillTable := skills.update
    (fun row => row.id = id && row.status = .pending && !row.contentHash.any fun hash =>
      trim hash ≠ [] && skills.rows.any fun other =>
        other.status = .active && other.contentHash = some (trim hash))
    (fun row => { row with
      status := .active
      enabled := if row.importedReview then allEngines else row.enabled })
    fun _ => rfl

def rejectCandidate (id : Text) (skills : SkillTable) : SkillTable :=
  skills.delete fun row => row.id = id && row.status = .pending

def disableRule (id : Text) (now : Stamp) (skills : SkillTable) : SkillTable :=
  skills.update (fun row => row.id = id && row.status = .active)
    (fun row => { row with status := .disabled, updatedAt := now }) fun _ => rfl

def refinePendingDraft (id title description : Text) (filePatterns : List Text) (now : Stamp)
    (skills : SkillTable) : SkillTable :=
  skills.update (fun row => row.id = id && row.status = .pending)
    (fun row => { row with
      name := title
      description := description
      filePatterns := filePatternsJson library filePatterns
      updatedAt := now })
    fun _ => rfl

def convReviewIds : Text := "conv-review-"

def emptyListJson : Text := ['[', ']']

def unguided (row : SkillRow) : Bool :=
  convReviewIds.isPrefixOf (toAsciiLowercase row.id) && row.status = .active &&
    row.filePatterns.all (fun json => json = [] || json = emptyListJson) &&
    row.trigger.all (fun trigger => trigger = [])

/-- `quarantine_unguided_conv_reviews`. -/
def quarantineUnguided (now : Stamp) (skills : SkillTable) : SkillTable :=
  skills.update unguided (fun row => { row with status := .pending, updatedAt := now })
    fun _ => rfl

/-! ## Writers of the cloud -/

def humanKind : Text := "human"

def humanOverrideBotKind : Text := "human_override_bot"

def unknownKind : Text := "bot:unknown"

def botPrefix : Text := "bot:"

def isBotNameChar (c : Char) : Bool := c.isAlphanum || c ∈ ['-', '_', '[', ']', '.']

/-- `normalize_rule_source_kind`: no claim is human, and an unknown claim is a bot. -/
def normalizeRuleSourceKind (input : Option Text) : Text :=
  match (input.map trim).filter (· ≠ []) with
  | none => humanKind
  | some value =>
    if value = humanKind || value = humanOverrideBotKind then value
    else match stripPrefix botPrefix value with
      | none => unknownKind
      | some botName =>
        let normalized := ((trim botName).filter isBotNameChar).take 80
        if normalized = [] then unknownKind else botPrefix ++ normalized

def enableCloudRules (now : Stamp) (skills : SkillTable) : SkillTable := skills.update
    (fun row => row.source = cloudSource && row.status = .active && row.enabled ≠ allEngines)
    (fun row => { row with enabled := allEngines, updatedAt := now }) fun _ => rfl

/-- The two updates of `skills` when a local rule gets its id in the cloud. An id that is
taken fails the transaction. -/
def publishRule (localId newId : Text) (skills : SkillTable) : SkillTable :=
  skills.rekey localId newId (fun row => { row with id := newId, cloudId := some newId })
    fun _ => rfl

structure SyncedRule where
  id : Text
  name : Text
  skillType : Text
  version : Text
  description : Text
  tags : List Text
  trigger : Option Text
  checkPrompt : Option Text
  content : Text
  filePatterns : List Text
  origin : Option Text
  sourceKind : Option Text
  sourceRepo : Option Text

def effectiveDescription (rule : SyncedRule) : Text :=
  if trim rule.content ≠ [] then rule.content else rule.description

/-- The columns a sync writes into a row that is there; the origin and the kind of source
are written by the caller. -/
def SyncedRule.rewrite (rule : SyncedRule) (now : Stamp) (row : SkillRow) : SkillRow :=
  { row with
    name := rule.name
    version := rule.version
    description := effectiveDescription rule
    skillType := rule.skillType
    tags := library.printStrings rule.tags
    trigger := rule.trigger
    checkPrompt := rule.checkPrompt
    filePatterns := filePatternsJson library rule.filePatterns
    status := .active
    updatedAt := now }

/-- The rows a sync may rewrite: those of the cloud, and local ones published under the id. -/
def SyncedRule.owns (rule : SyncedRule) (row : SkillRow) : Bool :=
  row.source = cloudSource || row.cloudId = some rule.id

def SkillRow.ofSync (row : SkillRow) : Bool := row.source = cloudSource || row.cloudId = some row.id

theorem owns_eq_ofSync {rule : SyncedRule} {row : SkillRow} (hid : row.id = rule.id) :
    rule.owns row = row.ofSync := by
  rw [SyncedRule.owns, SkillRow.ofSync, hid]

def SyncedRule.newRow (rule : SyncedRule) (now : Stamp) : SkillRow :=
  { id := rule.id
    name := rule.name
    source := cloudSource
    version := rule.version
    description := effectiveDescription rule
    skillType := rule.skillType
    tags := library.printStrings rule.tags
    trigger := rule.trigger
    checkPrompt := rule.checkPrompt
    enabled := allEngines
    filePatterns := filePatternsJson library rule.filePatterns
    origin := rule.origin.getD cloudSource
    sourceKind := normalizeRuleSourceKind rule.sourceKind
    installedAt := now
    updatedAt := now }

/-- `DO UPDATE SET …` of a created rule. -/
def SyncedRule.recreate (rule : SyncedRule) (now : Stamp) (row : SkillRow) : SkillRow :=
  { rule.rewrite library now row with
    origin := rule.origin.getD cloudSource
    sourceKind := normalizeRuleSourceKind rule.sourceKind }

/-- `INSERT … ON CONFLICT(id) DO UPDATE SET … WHERE` of a created rule. -/
def insertSynced (rule : SyncedRule) (now : Stamp) (skills : SkillTable) : SkillTable :=
  skills.upsert (rule.newRow library now)
    (fun row => if rule.owns row then rule.recreate library now row else row)
    (by intro row; split <;> rfl)

/-- `SET …` of an updated rule. -/
def SyncedRule.overwrite (rule : SyncedRule) (now : Stamp) (row : SkillRow) : SkillRow :=
  { rule.rewrite library now row with
    origin := rule.origin.getD row.origin
    sourceKind := (rule.sourceKind.map fun kind => normalizeRuleSourceKind (some kind)).getD
      row.sourceKind }

theorem SyncedRule.id_overwrite (rule : SyncedRule) (now : Stamp) (row : SkillRow) :
    (rule.overwrite library now row).id = row.id := rfl

/-- `UPDATE … WHERE id = … AND …` of an updated rule. -/
def updateSynced (rule : SyncedRule) (now : Stamp) (skills : SkillTable) : SkillTable :=
  skills.update (fun row => row.id = rule.id && rule.owns row) (rule.overwrite library now)
    (rule.id_overwrite library now)

def sourceRepoOpen (incoming : Text) (sourceRepo : Option Text) : Bool :=
  sourceRepo.all fun stored => trimSpaces stored = [] || stored = incoming

/-- `apply_cloud_source_repo`: the row is not stamped here. -/
def applyCloudSourceRepo (rule : SyncedRule) (skills : SkillTable) : SkillTable :=
  match rule.sourceRepo.bind normalizeCanonicalRepoScope with
  | none => skills
  | some incoming =>
    skills.update
      (fun row => row.id = rule.id && row.source = cloudSource &&
        sourceRepoOpen incoming row.sourceRepo)
      (fun row => { row with sourceRepo := some incoming }) fun _ => rfl

/-- A synced rule with evidence in its tags sets a confidence that is still the default. -/
def stampConfidence (rule : SyncedRule) (skills : SkillTable) : SkillTable :=
  match confidenceFromTags library (library.printStrings rule.tags) with
  | none => skills
  | some confidence =>
    skills.update (fun row => row.id = rule.id && |row.confidence - 7 / 10| < 1 / 1000)
      (fun row => { row with confidence }) fun _ => rfl

structure SyncResult where
  created : List SyncedRule
  updated : List SyncedRule
  deleted : List Text

def applyCreated (now : Stamp) (skills : SkillTable) (rule : SyncedRule) : SkillTable :=
  stampConfidence library rule (applyCloudSourceRepo rule (insertSynced library rule now skills))

def applyUpdated (now : Stamp) (skills : SkillTable) (rule : SyncedRule) : SkillTable :=
  stampConfidence library rule (applyCloudSourceRepo rule (updateSynced library rule now skills))

def applyDeleted (skills : SkillTable) (id : Text) : SkillTable :=
  skills.delete fun row => row.id = id && row.source = cloudSource

def backfillConfidence (skills : SkillTable) : SkillTable :=
  skills.update (fun row => row.status = .active && |row.confidence - 7 / 10| ≤ 1 / 1000)
    (fun row => { row with
      confidence := ((confidenceFromTags library row.tags).filter fun confidence =>
        1 / 1000 ≤ |confidence - row.confidence|).getD row.confidence })
    fun _ => rfl

/-- The transaction of `apply_sync_result`: one time for all its rows. -/
def applySyncRules (result : SyncResult) (now : Stamp) (skills : SkillTable) : SkillTable :=
  result.deleted.foldl applyDeleted
    (result.updated.foldl (applyUpdated library now)
      (result.created.foldl (applyCreated library now) skills))

def applySyncResult (result : SyncResult) (now : Stamp) (skills : SkillTable) : SkillTable :=
  backfillConfidence library (applySyncRules library result now skills)

/-- The values `update_existing_rule` binds. -/
structure RuleUpdate where
  id : Text
  name : Text
  description : Text
  checkPrompt : Option Text
  filePatterns : Text
  contentHash : Text
  repoScopes : List Text

def teamSource : Text := "team"

/-- The `WHERE` of `update_existing_rule`, but for the id. -/
def SkillRow.importable (repoScopes : List Text) (row : SkillRow) : Bool := row.status = .active &&
    toAsciiLowercase (trimSpaces row.source) ∉ [cloudSource, teamSource] &&
    row.cloudId.all (fun id => trimSpaces id = []) &&
    ((trimSpaces row.source = localSource &&
        row.sourceRepo.all fun repo => trimSpaces repo = []) ||
      row.sourceRepo.any fun repo => toAsciiLowercase (trimSpaces repo) ∈ repoScopes)

/-- `SET …` of `update_existing_rule`. -/
def RuleUpdate.write (update : RuleUpdate) (nowMs : Nat) (now : Stamp) (row : SkillRow) :
    SkillRow :=
  { row with
    name := update.name
    description := update.description
    checkPrompt := update.checkPrompt
    filePatterns := some update.filePatterns
    contentHash := some update.contentHash
    hashCreatedAt := some nowMs
    updatedAt := now }

theorem RuleUpdate.id_write (update : RuleUpdate) (nowMs : Nat) (now : Stamp) (row : SkillRow) :
    (update.write nowMs now row).id = row.id := rfl

def updateExistingRule (update : RuleUpdate) (nowMs : Nat) (now : Stamp) (skills : SkillTable) :
    SkillTable :=
  skills.update (fun row => row.id = update.id && row.importable update.repoScopes)
    (update.write nowMs now) (update.id_write nowMs now)

inductive SkillWrite
  | addSkill (owner repo directory : Text) (now : Stamp)
  | createLocal (input : LocalSkill) (now : Stamp)
  | rememberRule (input : RememberedRule) (now : Stamp)
  | strengthenRule (id : Text) (now : Stamp)
  | decayRules (ids : List Text) (factor floor : Rat) (now : Stamp)
  | backfillSourceKind (id sourceKind previous : Text)
  | attachSourceRepo (id repo : Text)
  | toggleEngine (id : Text) (engine : Engine) (enabled : Bool) (now : Stamp)
  | removeSkill (id : Text)
  | promoteCandidate (id : Text)
  | rejectCandidate (id : Text)
  | disableRule (id : Text) (now : Stamp)
  | refinePendingDraft (id title description : Text) (filePatterns : List Text) (now : Stamp)
  | quarantineUnguided (now : Stamp)
  | enableCloudRules (now : Stamp)
  | publishRule (localId newId : Text)
  | applySyncResult (result : SyncResult) (now : Stamp)
  | updateExistingRule (update : RuleUpdate) (nowMs : Nat) (now : Stamp)

def SkillWrite.apply : SkillWrite → SkillTable → SkillTable
  | .addSkill owner repo directory now => Context.addSkill library owner repo directory now
  | .createLocal input now => Context.createLocal library input now
  | .rememberRule input now => Context.rememberRule library input now
  | .strengthenRule id now => Context.strengthenRule id now
  | .decayRules ids factor floor now => Context.decayRules ids factor floor now
  | .backfillSourceKind id sourceKind previous => Context.backfillSourceKind id sourceKind previous
  | .attachSourceRepo id repo => Context.attachSourceRepo id repo
  | .toggleEngine id engine enabled now => Context.toggleEngine id engine enabled now
  | .removeSkill id => Context.removeSkill id
  | .promoteCandidate id => Context.promoteCandidate id
  | .rejectCandidate id => Context.rejectCandidate id
  | .disableRule id now => Context.disableRule id now
  | .refinePendingDraft id title description filePatterns now =>
    Context.refinePendingDraft library id title description filePatterns now
  | .quarantineUnguided now => Context.quarantineUnguided now
  | .enableCloudRules now => Context.enableCloudRules now
  | .publishRule localId newId => Context.publishRule localId newId
  | .applySyncResult result now => Context.applySyncResult library result now
  | .updateExistingRule update nowMs now => Context.updateExistingRule update nowMs now

def SkillWrite.now : SkillWrite → Option Stamp
  | .addSkill _ _ _ now | .createLocal _ now | .rememberRule _ now | .strengthenRule _ now
  | .decayRules _ _ _ now | .toggleEngine _ _ _ now | .disableRule _ now
  | .refinePendingDraft _ _ _ _ now | .quarantineUnguided now | .enableCloudRules now
  | .applySyncResult _ now | .updateExistingRule _ _ now => some now
  | .removeSkill _ | .promoteCandidate _ | .rejectCandidate _ | .publishRule _ _
  | .backfillSourceKind .. | .attachSourceRepo .. => none

/-! ## What a write leaves behind -/

def SameRule (old row : SkillRow) : Prop :=
  old.id = row.id ∧ ruleDocument library old = ruleDocument library row ∧
    old.updatedAt = row.updatedAt

theorem SameRule.refl (row : SkillRow) : SameRule library row row := ⟨rfl, rfl, rfl⟩

theorem SameRule.trans {first second third : SkillRow} (hfirst : SameRule library first second)
    (hsecond : SameRule library second third) : SameRule library first third :=
  ⟨hfirst.1.trans hsecond.1, hfirst.2.1.trans hsecond.2.1, hfirst.2.2.trans hsecond.2.2⟩

/-- Every row is stamped with the time of the write, or a row of the table before it. -/
def WrittenAt (now : Stamp) (before after : SkillTable) : Prop :=
  ∀ row ∈ after.rows, row.updatedAt = now ∨ ∃ old ∈ before.rows, SameRule library old row

variable {library} {now : Stamp} {before skills : SkillTable}

theorem WrittenAt.self : WrittenAt library now before before := by
  intro row hrow
  exact .inr ⟨row, hrow, .refl library row⟩

section

variable (hwritten : WrittenAt library now before skills)
include hwritten

theorem WrittenAt.insertOrIgnore {row : SkillRow}
    (hstamp : row.updatedAt = now) : WrittenAt library now before (skills.insertOrIgnore row) := by
  intro other hother
  rcases KeyedTable.mem_insertOrIgnore hother with hold | rfl
  · exact hwritten other hold
  · exact .inl hstamp

theorem WrittenAt.update {condition : SkillRow → Bool} {set : SkillRow → SkillRow}
    (hset : ∀ row, (set row).id = row.id) (hstamp : ∀ row, (set row).updatedAt = now) :
    WrittenAt library now before (skills.update condition set hset) := by
  intro row hrow
  obtain ⟨old, hold, rfl⟩ := KeyedTable.mem_update.mp hrow
  split
  · exact .inl (hstamp old)
  · exact hwritten old hold

theorem WrittenAt.update_same {condition : SkillRow → Bool} {set : SkillRow → SkillRow}
    (hset : ∀ row, (set row).id = row.id) (hsame : ∀ row, SameRule library row (set row)) :
    WrittenAt library now before (skills.update condition set hset) := by
  intro row hrow
  obtain ⟨old, hold, rfl⟩ := KeyedTable.mem_update.mp hrow
  split
  · rcases hwritten old hold with hstamp | ⟨first, hfirst, hfirstSame⟩
    · exact .inl ((hsame old).2.2 ▸ hstamp)
    · exact .inr ⟨first, hfirst, hfirstSame.trans library (hsame old)⟩
  · exact hwritten old hold

theorem WrittenAt.delete
    (condition : SkillRow → Bool) : WrittenAt library now before (skills.delete condition) :=
  fun row hrow => hwritten row (KeyedTable.mem_delete.mp hrow).1

end

/-- The rows a sync may bind to a repository are those it has just stamped. -/
def StampedByCloud (rule : SyncedRule) (now : Stamp) (skills : SkillTable) : Prop :=
  ∀ row ∈ skills.rows, row.id = rule.id → row.source = cloudSource → row.updatedAt = now

theorem owns_of_cloud {rule : SyncedRule} {row : SkillRow} (hsource : row.source = cloudSource) :
    rule.owns row = true := by
  simp [SyncedRule.owns, hsource]

theorem insertSynced_stamped (rule : SyncedRule) (now : Stamp) (skills : SkillTable) :
    StampedByCloud rule now (insertSynced library rule now skills) := by
  intro row hrow hid hsource
  rcases KeyedTable.mem_upsert.mp hrow with ⟨_, hne⟩ | rfl
  · exact absurd hid hne
  · unfold KeyedTable.upserted at hsource ⊢
    cases hfind : skills.find (rule.newRow library now).id with
    | none => rfl
    | some old =>
      rw [hfind, Option.elim_some] at hsource
      rw [Option.elim_some]
      split
      next => rfl
      next hforeign =>
        rw [if_neg hforeign] at hsource
        exact absurd (owns_of_cloud hsource) hforeign

theorem updateSynced_stamped (rule : SyncedRule) (now : Stamp) (skills : SkillTable) :
    StampedByCloud rule now (updateSynced library rule now skills) := by
  intro row hrow hid hsource
  obtain ⟨old, _, rfl⟩ := KeyedTable.mem_update.mp hrow
  split
  next => rfl
  next hforeign =>
    rw [if_neg hforeign] at hid hsource
    simp [hid, owns_of_cloud hsource] at hforeign

theorem WrittenAt.insertSynced (hwritten : WrittenAt library now before skills)
    (rule : SyncedRule) :
    WrittenAt library now before (Context.insertSynced library rule now skills) := by
  intro row hrow
  rcases KeyedTable.mem_upsert.mp hrow with ⟨hold, _⟩ | rfl
  · exact hwritten row hold
  · unfold KeyedTable.upserted
    cases hfind : skills.find (rule.newRow library now).id with
    | none => exact .inl rfl
    | some old =>
      rw [Option.elim_some]
      split
      · exact .inl rfl
      · exact hwritten old (KeyedTable.find_eq_some.mp hfind).1

theorem WrittenAt.applyCloudSourceRepo (hwritten : WrittenAt library now before skills)
    {rule : SyncedRule} (hstamped : StampedByCloud rule now skills) :
    WrittenAt library now before (Context.applyCloudSourceRepo rule skills) := by
  unfold Context.applyCloudSourceRepo
  split
  next => exact hwritten
  next incoming _ =>
    intro row hrow
    obtain ⟨old, hold, rfl⟩ := KeyedTable.mem_update.mp hrow
    split
    next hcondition =>
      simp only [Bool.and_eq_true, decide_eq_true_eq] at hcondition
      exact .inl (hstamped old hold hcondition.1.1 hcondition.1.2)
    next => exact hwritten old hold

theorem WrittenAt.stampConfidence (hwritten : WrittenAt library now before skills)
    (rule : SyncedRule) :
    WrittenAt library now before (Context.stampConfidence library rule skills) := by
  unfold Context.stampConfidence
  split
  next => exact hwritten
  next =>
    apply hwritten.update_same
    intro row
    exact ⟨rfl, rfl, rfl⟩

theorem WrittenAt.foldl {Item : Type} {apply : SkillTable → Item → SkillTable}
    (happly : ∀ skills item, WrittenAt library now before skills →
      WrittenAt library now before (apply skills item)) (items : List Item)
    (hwritten : WrittenAt library now before skills) :
    WrittenAt library now before (items.foldl apply skills) := by
  induction items generalizing skills with
  | nil => exact hwritten
  | cons item rest ih => exact ih (happly skills item hwritten)

theorem WrittenAt.applySyncRules (hwritten : WrittenAt library now before skills)
    (result : SyncResult) :
    WrittenAt library now before (Context.applySyncRules library result now skills) := by
  apply WrittenAt.foldl
  · intro skills id hwritten
    exact hwritten.delete _
  apply WrittenAt.foldl
  · intro skills rule hwritten
    apply WrittenAt.stampConfidence
    apply WrittenAt.applyCloudSourceRepo
    · apply hwritten.update
      intro row
      rfl
    · exact updateSynced_stamped rule now skills
  apply WrittenAt.foldl
  · intro skills rule hwritten
    apply WrittenAt.stampConfidence
    apply WrittenAt.applyCloudSourceRepo
    · exact hwritten.insertSynced rule
    · exact insertSynced_stamped rule now skills
  exact hwritten

theorem WrittenAt.applySyncResult (hwritten : WrittenAt library now before skills)
    (result : SyncResult) :
    WrittenAt library now before (Context.applySyncResult library result now skills) := by
  unfold Context.applySyncResult backfillConfidence
  apply (hwritten.applySyncRules result).update_same
  intro row
  exact ⟨rfl, rfl, rfl⟩

theorem SkillWrite.writtenAt {write : SkillWrite} (hnow : write.now = some now)
    (skills : SkillTable) : WrittenAt library now skills (write.apply library skills) := by
  cases write with
  | addSkill | createLocal | rememberRule =>
    obtain rfl := Option.some.inj hnow
    exact WrittenAt.self.insertOrIgnore rfl
  | strengthenRule | decayRules | toggleEngine | disableRule | refinePendingDraft
  | quarantineUnguided | enableCloudRules | updateExistingRule =>
    obtain rfl := Option.some.inj hnow
    apply WrittenAt.self.update
    · intro row
      rfl
    · intro row
      rfl
  | applySyncResult result =>
    obtain rfl := Option.some.inj hnow
    exact WrittenAt.self.applySyncResult result
  | removeSkill | promoteCandidate | rejectCandidate | publishRule | backfillSourceKind
  | attachSourceRepo => contradiction

def untaggedLibrary : Library where
  jsonStrings _ := some []
  printStrings _ := emptyListJson
  sha1Hex _ := []

def rememberedRule : RememberedRule where
  id := ['r']
  title := ['t']
  body := ['a']
  skillType := ['s']
  tags := []
  filePatterns := []
  sourceRepo := some ['o', '/', 'w']
  confidence := 1
  origin := ['m']
  sourceKind := ['h']
  capturedByClient := none
  contentHash := ['x']
  hashCreatedAt := 0
  status := .active

def teamRule (id : Text) : SyncedRule where
  id := id
  name := ['n']
  skillType := ['t']
  version := firstVersion
  description := []
  tags := []
  trigger := none
  checkPrompt := none
  content := ['c']
  filePatterns := []
  origin := none
  sourceKind := none
  sourceRepo := none

end Difflore.Context

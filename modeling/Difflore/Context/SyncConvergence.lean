import Difflore.Context.SkillWrites

/-! # The hash of a synced rule

A sync sends a hash of each local rule, over the columns in which the rule is stored, and
the cloud compares it with its hash of the rule it would send. The columns a sync writes
are read back for the hash, but for two: the content is read from the check prompt first,
and the repository may be another spelling, or an older one that was kept.
-/

namespace Difflore.Context

open Foundation Text Infra

variable {found : Option SkillRow} {row : SkillRow} {step : SyncStep} {id : Text}

structure RuleSyncHashPayload where
  content : Text
  filePatterns : List Text
  sourceRepo : Option Text
  tags : List Text
  version : Text
  deriving DecidableEq

def cleanString (value : Option Text) : Option Text := (value.map trim).filter (· ≠ [])

def cleanStringArray (values : List Text) : List Text := values.foldl (fun out value =>
    match cleanString (some value) with
    | none => out
    | some cleaned => if cleaned ∈ out then out else out ++ [cleaned]) []

def cleanVersion (version : Text) : Text := (cleanString (some version)).getD []

def skillContentForHash (row : SkillRow) : Text :=
  row.checkPrompt.getD (if trim row.description = [] then [] else row.description)

def storedPayload (library : Library) (row : SkillRow) : RuleSyncHashPayload where
  content := skillContentForHash row
  filePatterns := cleanStringArray ((row.filePatterns.bind library.jsonStrings).getD [])
  sourceRepo := cleanString row.sourceRepo
  tags := cleanStringArray ((library.jsonStrings row.tags).getD [])
  version := cleanVersion row.version

def SyncedRule.payload (rule : SyncedRule) : RuleSyncHashPayload where
  content := rule.content
  filePatterns := cleanStringArray rule.filePatterns
  sourceRepo := cleanString rule.sourceRepo
  tags := cleanStringArray rule.tags
  version := cleanVersion rule.version

/-- The check prompt, where there is one, is the content; otherwise the content is not
blank, or there is none and no description stands in for it. -/
def SyncedRule.ContentAgrees (rule : SyncedRule) : Prop :=
  match rule.checkPrompt with
  | some checkPrompt => checkPrompt = rule.content
  | none => trim rule.content ≠ [] ∨ rule.content = [] ∧ trim rule.description = []

instance (rule : SyncedRule) : Decidable rule.ContentAgrees := by
  unfold SyncedRule.ContentAgrees
  split <;> infer_instance

def SyncedRule.fillIn (rule : SyncedRule) (source : Text) (sourceRepo : Option Text) :
    Option Text :=
  (rule.sourceRepo.bind normalizeCanonicalRepoScope).filter fun incoming =>
    source = cloudSource && sourceRepoOpen incoming sourceRepo

/-- A repository that is filled in is spelled canonically, and one that is kept is the one
the rule names. -/
def SyncedRule.RepoAgrees (rule : SyncedRule) (source : Text) (sourceRepo : Option Text) : Prop :=
  match rule.fillIn source sourceRepo with
  | some incoming => cleanString (some incoming) = cleanString rule.sourceRepo
  | none => cleanString sourceRepo = cleanString rule.sourceRepo

instance (rule : SyncedRule) (source : Text) (sourceRepo : Option Text) :
    Decidable (rule.RepoAgrees source sourceRepo) := by
  unfold SyncedRule.RepoAgrees
  split <;> infer_instance

/-- In front of the row that was stored under the id; a new row has no repository yet. -/
def SyncedRule.Agrees (rule : SyncedRule) (old : Option SkillRow) : Prop := rule.ContentAgrees ∧
    rule.RepoAgrees ((old.map SkillRow.source).getD cloudSource) (old.bind SkillRow.sourceRepo)

instance (rule : SyncedRule) (old : Option SkillRow) : Decidable (rule.Agrees old) :=
  inferInstanceAs (Decidable (_ ∧ _))

inductive SyncStep
  | created (rule : SyncedRule)
  | updated (rule : SyncedRule)

def SyncStep.rule : SyncStep → SyncedRule
  | .created rule | .updated rule => rule

def SyncStep.apply (library : Library) (now : Stamp) (skills : SkillTable) : SyncStep → SkillTable
  | .created rule => applyCreated library now skills rule
  | .updated rule => applyUpdated library now skills rule

def SyncResult.steps (result : SyncResult) : List SyncStep :=
  result.created.map .created ++ result.updated.map .updated

variable {library : Library} {now : Stamp} {skills : SkillTable}

theorem applySyncRules_eq (result : SyncResult) : applySyncRules library result now skills =
      result.deleted.foldl applyDeleted
        (result.steps.foldl (SyncStep.apply library now) skills) := by
  rw [SyncResult.steps, List.foldl_append, List.foldl_map, List.foldl_map]
  rfl

/-! ## What a step stores -/

theorem find_update_other {condition : SkillRow → Bool} {set : SkillRow → SkillRow}
    (hset : ∀ row, (set row).id = row.id)
    (hother : ∀ row : SkillRow, row.id = id → condition row = false) :
    (skills.update condition set hset).find id = skills.find id := by
  rw [KeyedTable.find_update]
  refine Eq.trans (Option.map_congr fun row hrow => ?_) Option.map_id'
  rw [hother row (KeyedTable.find_eq_some.mp hrow).2]
  rfl

/-- The repository of a row after `apply_cloud_source_repo`. -/
def SyncedRule.boundRepo (rule : SyncedRule) (source : Text) (sourceRepo : Option Text) :
    Option Text :=
  (rule.fillIn source sourceRepo).or sourceRepo

theorem find_applyCloudSourceRepo (rule : SyncedRule) :
    (applyCloudSourceRepo rule skills).find rule.id = (skills.find rule.id).map fun row =>
        { row with sourceRepo := rule.boundRepo row.source row.sourceRepo } := by
  unfold applyCloudSourceRepo SyncedRule.boundRepo SyncedRule.fillIn
  split
  next hnone =>
    rw [hnone]
    exact Option.map_id'.symm
  next incoming hsome =>
    rw [KeyedTable.find_update, hsome]
    apply Option.map_congr
    intro row hrow
    have hid : row.id = rule.id := (KeyedTable.find_eq_some.mp hrow).2
    rw [Option.filter_some, decide_eq_true hid, Bool.true_and]
    split
    next => rfl
    next => rfl

def Reweighed (old row : SkillRow) : Prop := row = { old with confidence := row.confidence }

theorem reweighed_stampConfidence {rule : SyncedRule}
    (hrow : row ∈ (stampConfidence library rule skills).find id) :
    ∃ old ∈ skills.find id, Reweighed old row := by
  unfold stampConfidence at hrow
  split at hrow
  next => exact ⟨row, hrow, rfl⟩
  next =>
    rw [KeyedTable.find_update] at hrow
    obtain ⟨old, hold, rfl⟩ := Option.map_eq_some_iff.mp (Option.mem_def.mp hrow)
    refine ⟨old, hold, ?_⟩
    split <;> rfl

theorem reweighed_backfillConfidence (hrow : row ∈ (backfillConfidence library skills).find id) :
    ∃ old ∈ skills.find id, Reweighed old row := by
  rw [backfillConfidence, KeyedTable.find_update] at hrow
  obtain ⟨old, hold, rfl⟩ := Option.map_eq_some_iff.mp (Option.mem_def.mp hrow)
  refine ⟨old, hold, ?_⟩
  split <;> rfl

theorem find_stampConfidence_other {rule : SyncedRule} (hne : rule.id ≠ id) :
    (stampConfidence library rule skills).find id = skills.find id := by
  unfold stampConfidence
  split
  next => rfl
  next =>
    apply find_update_other
    intro row hrow
    simp [hrow, Ne.symm hne]

theorem find_applyCloudSourceRepo_other {rule : SyncedRule} (hne : rule.id ≠ id) :
    (applyCloudSourceRepo rule skills).find id = skills.find id := by
  unfold applyCloudSourceRepo
  split
  next => rfl
  next =>
    apply find_update_other
    intro row hrow
    simp [hrow, Ne.symm hne]

theorem step_find_other (step : SyncStep) (hne : step.rule.id ≠ id) :
    (step.apply library now skills).find id = skills.find id := by
  cases step with
  | created rule =>
    have hne : rule.id ≠ id := hne
    rw [SyncStep.apply, applyCreated, find_stampConfidence_other hne,
      find_applyCloudSourceRepo_other hne, insertSynced, KeyedTable.find_upsert]
    exact if_neg fun heq => hne heq.symm
  | updated rule =>
    have hne : rule.id ≠ id := hne
    rw [SyncStep.apply, applyUpdated, find_stampConfidence_other hne,
      find_applyCloudSourceRepo_other hne, updateSynced]
    apply find_update_other
    intro row hrow
    have hrule : ¬ id = rule.id := Ne.symm hne
    simp [hrow, hrule]

theorem steps_find_other {steps : List SyncStep} (hother : ∀ step ∈ steps, step.rule.id ≠ id) :
    (steps.foldl (SyncStep.apply library now) skills).find id = skills.find id := by
  induction steps generalizing skills with
  | nil => rfl
  | cons step rest ih =>
    rw [List.foldl_cons, ih fun later hlater => hother later (.tail _ hlater),
      step_find_other step (hother step (.head _))]

structure StoredAs (library : Library) (rule : SyncedRule) (old : Option SkillRow)
    (row : SkillRow) : Prop where
  description : row.description = effectiveDescription rule
  checkPrompt : row.checkPrompt = rule.checkPrompt
  filePatterns : row.filePatterns = filePatternsJson library rule.filePatterns
  tags : row.tags = library.printStrings rule.tags
  version : row.version = rule.version
  sourceRepo : row.sourceRepo =
    rule.boundRepo ((old.map SkillRow.source).getD cloudSource) (old.bind SkillRow.sourceRepo)

theorem StoredAs.reweighed {rule : SyncedRule} {old : SkillRow}
    (hstored : StoredAs library rule found old) (hsame : Reweighed old row) :
    StoredAs library rule found row := by
  obtain ⟨hdescription, hcheckPrompt, hfilePatterns, htags, hversion, hsourceRepo⟩ := hstored
  rw [hsame]
  exact ⟨hdescription, hcheckPrompt, hfilePatterns, htags, hversion, hsourceRepo⟩

theorem Reweighed.ofSync {old : SkillRow} (hsame : Reweighed old row) :
    row.ofSync = old.ofSync := by
  rw [hsame]
  rfl

theorem storedAs_step (hrow : row ∈ (step.apply library now skills).find step.rule.id)
    (hsync : row.ofSync = true) :
    StoredAs library step.rule (skills.find step.rule.id) row := by
  cases step with
  | created rule =>
    obtain ⟨bound, hbound, hsame⟩ := reweighed_stampConfidence hrow
    refine StoredAs.reweighed ?_ hsame
    rw [hsame.ofSync] at hsync
    rw [SyncStep.rule, find_applyCloudSourceRepo] at hbound
    obtain ⟨inserted, hinserted, rfl⟩ := Option.map_eq_some_iff.mp (Option.mem_def.mp hbound)
    have hkey : rule.id = (rule.newRow library now).id := rfl
    rw [insertSynced, KeyedTable.find_upsert, if_pos hkey, KeyedTable.upserted, ← hkey]
      at hinserted
    rw [SyncStep.rule]
    cases hfind : skills.find rule.id with
    | none =>
      rw [hfind, Option.elim_none] at hinserted
      obtain rfl := Option.some.inj hinserted
      exact ⟨rfl, rfl, rfl, rfl, rfl, rfl⟩
    | some old =>
      rw [hfind, Option.elim_some] at hinserted
      obtain rfl := Option.some.inj hinserted
      have hid : old.id = rule.id := (KeyedTable.find_eq_some.mp hfind).2
      have howns : rule.owns old = true := by
        by_contra hforeign
        rw [if_neg hforeign] at hsync
        rw [owns_eq_ofSync hid] at hforeign
        exact hforeign hsync
      rw [if_pos howns]
      exact ⟨rfl, rfl, rfl, rfl, rfl, rfl⟩
  | updated rule =>
    obtain ⟨bound, hbound, hsame⟩ := reweighed_stampConfidence hrow
    refine StoredAs.reweighed ?_ hsame
    rw [hsame.ofSync] at hsync
    rw [SyncStep.rule, find_applyCloudSourceRepo] at hbound
    obtain ⟨written, hwritten, rfl⟩ := Option.map_eq_some_iff.mp (Option.mem_def.mp hbound)
    rw [updateSynced, KeyedTable.find_update] at hwritten
    obtain ⟨old, hfind, rfl⟩ := Option.map_eq_some_iff.mp hwritten
    have hid : old.id = rule.id := (KeyedTable.find_eq_some.mp hfind).2
    rw [SyncStep.rule, hfind]
    split
    next => exact ⟨rfl, rfl, rfl, rfl, rfl, rfl⟩
    next hforeign =>
      rw [if_neg hforeign] at hsync
      rw [owns_eq_ofSync hid, decide_eq_true hid, Bool.true_and] at hforeign
      exact absurd hsync hforeign

/-! ## Equal hashes -/

theorem content_stored_iff {rule : SyncedRule} (hstored : StoredAs library rule found row) :
    skillContentForHash row = rule.content ↔ rule.ContentAgrees := by
  unfold skillContentForHash SyncedRule.ContentAgrees
  rw [hstored.checkPrompt, hstored.description]
  cases rule.checkPrompt with
  | some checkPrompt => rw [Option.getD_some]
  | none =>
    rw [Option.getD_none]
    unfold effectiveDescription
    by_cases hcontent : trim rule.content = []
    · have hblank : ¬ trim rule.content ≠ [] := not_not_intro hcontent
      simp only [if_neg hblank, or_iff_right hblank]
      split
      next hdescription => simp [hdescription, eq_comm]
      next hdescription =>
        constructor
        · intro heq
          rw [heq] at hdescription
          exact absurd hcontent hdescription
        · intro hnothing
          exact absurd hnothing.2 hdescription
    · simp [hcontent]

theorem repo_stored_iff (rule : SyncedRule) (source : Text) (sourceRepo : Option Text) :
    cleanString (rule.boundRepo source sourceRepo) = cleanString rule.sourceRepo ↔
      rule.RepoAgrees source sourceRepo := by
  unfold SyncedRule.boundRepo SyncedRule.RepoAgrees
  split
  next incoming hfill => rw [hfill, Option.some_or]
  next hfill => rw [hfill, Option.none_or]

theorem storedPayload_eq_iff {rule : SyncedRule} (hstored : StoredAs library rule found row)
    (hpatterns : library.jsonStrings (library.printStrings rule.filePatterns) =
      some rule.filePatterns)
    (htags : library.jsonStrings (library.printStrings rule.tags) = some rule.tags) :
    storedPayload library row = rule.payload ↔ rule.Agrees found := by
  have hread : (row.filePatterns.bind library.jsonStrings).getD [] = rule.filePatterns := by
    rw [hstored.filePatterns]
    unfold filePatternsJson
    split
    next hempty => rw [Option.bind_none, Option.getD_none, hempty]
    next => rw [Option.bind_some, hpatterns, Option.getD_some]
  unfold storedPayload SyncedRule.payload SyncedRule.Agrees
  rw [hread, hstored.tags, htags, Option.getD_some, hstored.version, hstored.sourceRepo,
    ← content_stored_iff hstored, ← repo_stored_iff]
  simp

theorem storedAs_of_sync {result : SyncResult} {before after : List SyncStep}
    (hsteps : result.steps = before ++ step :: after)
    (hlast : ∀ later ∈ after, later.rule.id ≠ step.rule.id)
    (hrow : row ∈ (applySyncResult library result now skills).find step.rule.id)
    (hsync : row.ofSync = true) :
    StoredAs library step.rule
      ((before.foldl (SyncStep.apply library now) skills).find step.rule.id) row := by
  obtain ⟨kept, hkept, hsame⟩ := reweighed_backfillConfidence hrow
  refine StoredAs.reweighed ?_ hsame
  rw [hsame.ofSync] at hsync
  have hdeleted : ∀ (ids : List Text) (other : SkillTable),
      kept ∈ (ids.foldl applyDeleted other).find step.rule.id → kept ∈ other.find step.rule.id := by
    intro ids
    induction ids with
    | nil => exact fun _ hother => hother
    | cons id rest ih =>
      intro other hother
      have hmem := ih _ hother
      rw [applyDeleted, KeyedTable.find_delete, Option.mem_def, Option.filter_eq_some_iff] at hmem
      exact hmem.1
  rw [applySyncRules_eq] at hkept
  have hstored := hdeleted _ _ hkept
  rw [hsteps, List.foldl_append, List.foldl_cons, steps_find_other hlast] at hstored
  exact storedAs_step hstored hsync

/-- After a sync, the stored row of a rule hashes as the rule that was sent if and only if
its content and its repository are stored as they were sent. -/
theorem synced_hash_iff {library : Library} {now : Stamp} {skills : SkillTable}
    (payloadHash : RuleSyncHashPayload → Text) {result : SyncResult} {before after : List SyncStep}
    (hsteps : result.steps = before ++ step :: after)
    (hlast : ∀ later ∈ after, later.rule.id ≠ step.rule.id)
    (hrow : row ∈ (applySyncResult library result now skills).find step.rule.id)
    (hsync : row.ofSync = true)
    (hpatterns : library.jsonStrings (library.printStrings step.rule.filePatterns) =
      some step.rule.filePatterns)
    (htags : library.jsonStrings (library.printStrings step.rule.tags) = some step.rule.tags)
    (hcollision : payloadHash (storedPayload library row) = payloadHash step.rule.payload →
      storedPayload library row = step.rule.payload) :
    payloadHash (storedPayload library row) = payloadHash step.rule.payload ↔ step.rule.Agrees
        ((before.foldl (SyncStep.apply library now) skills).find step.rule.id) := by
  rw [← storedPayload_eq_iff (storedAs_of_sync hsteps hlast hrow hsync) hpatterns htags]
  exact ⟨hcollision, congrArg payloadHash⟩

def cloudRule (checkPrompt : Option Text) : SyncedRule :=
  { teamRule ['r'] with checkPrompt, sourceRepo := some ['o', '/', 'w'] }

/-- The digests of its payloads, whose content is the content or the prompt. -/
def cloudRuleDigest (payload : RuleSyncHashPayload) : Text :=
  if payload.content = ['c'] then
    "ff240ecd82b1996c4bfc2c8482b055a40a5189449ed309916608ee40454bedb6"
  else "e6a0df3c5fb715fa6bcca65c7337a738ce841a41b4399d92260cd708a7507cbf"

theorem synced_hash_iff_plainRule :
    ∃ row, (applySyncResult untaggedLibrary ⟨[cloudRule none], [], []⟩ [] .empty).find ['r'] =
      some row ∧
      row.ofSync = true ∧ (cloudRule none).Agrees none ∧
      (cloudRuleDigest (storedPayload untaggedLibrary row) =
        cloudRuleDigest (cloudRule none).payload ↔
        (cloudRule none).Agrees none) := by
  have hstored :
      ((applySyncResult untaggedLibrary ⟨[cloudRule none], [], []⟩ [] .empty).find ['r']).map
      (fun row => (row.ofSync, storedPayload untaggedLibrary row)) =
        some (true, (cloudRule none).payload) := by decide +kernel
  obtain ⟨row, hrow, hshows⟩ := Option.map_eq_some_iff.mp hstored
  obtain ⟨hsync, hpayload⟩ := Prod.mk.inj hshows
  have hsteps : SyncResult.steps ⟨[cloudRule none], [], []⟩ =
      [] ++ .created (cloudRule none) :: [] := rfl
  have hiff := synced_hash_iff cloudRuleDigest hsteps (fun _ hmem => absurd hmem List.not_mem_nil)
    hrow hsync rfl rfl fun _ => hpayload
  exact ⟨row, hrow, hsync, by decide, hiff⟩

/-- A rule with a check prompt is hashed by its prompt. -/
theorem prompt_hashes_otherwise :
    ∃ row,
      (applySyncResult untaggedLibrary ⟨[cloudRule (some ['p'])], [], []⟩ [] .empty).find ['r'] =
        some row ∧ row.ofSync = true ∧
      cloudRuleDigest (storedPayload untaggedLibrary row) ≠
        cloudRuleDigest (cloudRule (some ['p'])).payload := by
  have hstored : ((applySyncResult untaggedLibrary ⟨[cloudRule (some ['p'])], [], []⟩
    [] .empty).find
      ['r']).map (fun row => (row.ofSync, (storedPayload untaggedLibrary row).content)) =
        some (true, ['p']) := by decide +kernel
  obtain ⟨row, hrow, hshows⟩ := Option.map_eq_some_iff.mp hstored
  obtain ⟨hsync, hcontent⟩ := Prod.mk.inj hshows
  refine ⟨row, hrow, hsync, ?_⟩
  have hprompt : ¬ (storedPayload untaggedLibrary row).content = ['c'] := by
    rw [hcontent]
    decide
  have hsent : (cloudRule (some ['p'])).payload.content = ['c'] := rfl
  rw [cloudRuleDigest, cloudRuleDigest, if_neg hprompt, if_pos hsent]
  decide

end Difflore.Context

import Difflore.Package.Rules

/-! # Importing a package

An import plans an operation for each rule of the package, in front of the stored row, and
updates the rows whose fields changed. The update stores trimmed texts, and it has its own
condition on the row, which fails the import where it does not hold.
-/

namespace Difflore.Package

open Foundation Text Infra Context Export

variable (formats : Formats) (repoScopes : List Text)

variable {dryRun : Bool} {time : ImportTime} {rules : List PackageRule} {nowMs : Nat}
  {rule : PackageRule} {parsed : ParsedPackage} {row : SkillRow} {skills after : SkillTable}
  {now : Stamp}

inductive RejectionReason
  | pending
  | notActive
  | teamSynced
  | cloudSynced
  | crossRepo
  | notImportable

def importRejectionReason (existing : SkillRow) : Option RejectionReason :=
  if existing.status ≠ .active then
    some (if existing.status = .pending then .pending else .notActive)
  else
    let source := trim existing.source
    if eqIgnoreAsciiCase source teamSource then some .teamSynced
    else if eqIgnoreAsciiCase source cloudSource then some .cloudSynced
    else if normalizeOptional existing.cloudId ≠ none then some .cloudSynced
    else if repoScopeMatches (repoScopeFromSourceRepo existing.sourceRepo) repoScopes ||
        isExplicitLocalRule source existing.sourceRepo then none
    else if normalizeOptional existing.sourceRepo ≠ none then some .crossRepo
    else some .notImportable

inductive Planned
  | missing
  | rejected (reason : RejectionReason)
  | unchanged
  | update (changed : List ChangedField)

/-- What an import does with a rule, given the row stored under its id. -/
def planned (existing : Option SkillRow) (rule : PackageRule) : Planned :=
  match existing with
  | none => .missing
  | some existing =>
    match importRejectionReason repoScopes existing with
    | some reason => .rejected reason
    | none =>
      let changed := changedFields formats existing rule
      if changed = [] then .unchanged else .update changed

def Planned.updates : Planned → Bool
  | .update _ => true
  | .missing | .rejected _ | .unchanged => false

/-! ## The import -/

def normalizedRepoScopes : List Text :=
  (((repoScopes.filterMap normalizeCanonicalRepoScope).map toAsciiLowercase).insertionSort
    (· ≤ ·)).destutter (· ≠ ·)

def PackageRule.update (rule : PackageRule) : RuleUpdate where
  id := rule.id
  name := trim rule.name
  description := trim rule.description
  checkPrompt := normalizeOptional rule.checkPrompt
  filePatterns := formats.printStrings (normalizeFilePatterns rule.filePatterns)
  contentHash := rememberRuleContentHash formats.toRememberLibrary rule.name rule.description
    (some rule.filePatterns)
  repoScopes := normalizedRepoScopes repoScopes

inductive ImportAction
  | missing
  | rejected
  | unchanged
  | wouldUpdate
  | updated
  deriving DecidableEq

structure ImportOperation where
  id : Text
  action : ImportAction
  changed : List ChangedField
  reason : Option RejectionReason
  path : Option Text

def operation (dryRun : Bool) (rule : PackageRule) : Planned → ImportOperation
  | .missing => ⟨rule.id, .missing, [], none, rule.path⟩
  | .rejected reason => ⟨rule.id, .rejected, [], some reason, rule.path⟩
  | .unchanged => ⟨rule.id, .unchanged, [], none, rule.path⟩
  | .update changed =>
    ⟨rule.id, if dryRun then .wouldUpdate else .updated, changed, none, rule.path⟩

def refusedUpdate (rule : PackageRule) : Text := "refusing to update rule " ++ (quoted rule.id ++
    " because it is no longer active/importable for this repo")

structure ImportTime where
  now : Stamp
  nowMs : Nat

/-- `update_existing_rule`: an update that changes no row is an error. -/
def updateRule (time : ImportTime) (skills : SkillTable) (rule : PackageRule) :
    Except Text SkillTable :=
  if (skills.find rule.id).any fun row => row.importable (normalizedRepoScopes repoScopes) then
    .ok (updateExistingRule (rule.update formats repoScopes) time.nowMs time.now skills)
  else .error (refusedUpdate rule)

def importRule (dryRun : Bool) (time : ImportTime) (skills : SkillTable) (rule : PackageRule) :
    Except Text (SkillTable × ImportOperation) :=
  let plan := planned formats repoScopes (skills.find rule.id) rule
  if plan.updates && !dryRun then
    (updateRule formats repoScopes time skills rule).map fun skills =>
      (skills, operation dryRun rule plan)
  else .ok (skills, operation dryRun rule plan)

def importRules (dryRun : Bool) (time : ImportTime) :
    SkillTable → List PackageRule → Except Text (SkillTable × List ImportOperation)
  | skills, [] => .ok (skills, [])
  | skills, rule :: rest => do
      let (skills, operation) ← importRule formats repoScopes dryRun time skills rule
      let (skills, operations) ← importRules dryRun time skills rest
      return (skills, operation :: operations)

structure ImportPackageReport where
  dryRun : Bool
  format : PackageFormat
  schemaVersion : Text
  version : Nat
  packageHash : Text
  currentHash : Text
  changedSinceExport : Bool
  rules : Nat
  updated : Nat
  unchanged : Nat
  missing : Nat
  rejected : Nat
  operations : List ImportOperation

def importReport (dryRun : Bool) (parsed : ParsedPackage) (operations : List ImportOperation) :
    ImportPackageReport where
  dryRun
  format := parsed.package.manifest.format
  schemaVersion := parsed.package.schemaVersion
  version := parsed.package.version
  packageHash := parsed.package.hash
  currentHash := parsed.currentHash
  changedSinceExport := parsed.changedSinceExport
  rules := parsed.package.rules.length
  updated := operations.countP fun operation => operation.action ∈ [.wouldUpdate, .updated]
  unchanged := operations.countP fun operation => operation.action = .unchanged
  missing := operations.countP fun operation => operation.action = .missing
  rejected := operations.countP fun operation => operation.action = .rejected
  operations

/-- An import of a package that has been read: it is validated, and its changes are
committed at the end. -/
def importPackage (dryRun : Bool) (time : ImportTime) (parsed : ParsedPackage)
    (skills : SkillTable) : Except Text (SkillTable × ImportPackageReport) := do
  validatePackage parsed.package
  let (skills, operations) ←
    importRules formats repoScopes dryRun time skills parsed.package.rules
  return (skills, importReport dryRun parsed operations)

def ImportPackageReport.updates (report : ImportPackageReport) : List Text :=
  (report.operations.filter fun operation => operation.action ∈ [.wouldUpdate, .updated]).map
    ImportOperation.id

def SecondImportIdle (parsed : ParsedPackage) (skills : SkillTable) : Prop :=
  ∀ time after report, importPackage formats repoScopes false time parsed skills =
      .ok (after, report) →
    ∀ dryRun again, ∃ second, importPackage formats repoScopes dryRun again parsed after =
      .ok (after, second) ∧ second.updates = []

/-- A real import updates the rules a dry run announces, and no others. -/
def DryRunTold (parsed : ParsedPackage) (skills : SkillTable) : Prop :=
  ∀ time after announced, importPackage formats repoScopes true time parsed skills =
      .ok (after, announced) →
    ∃ written report, importPackage formats repoScopes false time parsed skills =
        .ok (written, report) ∧ report.updates = announced.updates ∧
      (∀ rule ∈ parsed.package.rules, rule.id ∈ announced.updates →
        written.find rule.id = (skills.find rule.id).map
          ((rule.update formats repoScopes).write time.nowMs time.now)) ∧
      ∀ id ∉ announced.updates, written.find id = skills.find id

/-- Every rule that would be updated is trimmed, and its row meets the condition of the
update. -/
def UpdatesAgree (parsed : ParsedPackage) (skills : SkillTable) : Prop :=
  validatePackage parsed.package = .ok () → ∀ rule ∈ parsed.package.rules,
    ∀ row ∈ skills.find rule.id, (planned formats repoScopes (some row) rule).updates = true →
      row.importable (normalizedRepoScopes repoScopes) = true ∧
        trim rule.name = rule.name ∧ trim rule.description = rule.description

theorem nodup_of_validatePackage {package : MemoryPackage}
    (hvalid : validatePackage package = .ok ()) : (package.rules.map PackageRule.id).Nodup := by
  obtain ⟨_, _, _, _, hnodup, _⟩ := validatePackage_eq_ok.mp hvalid
  exact hnodup

variable {formats : Formats} {repoScopes : List Text}

theorem importRejectionReason_write (update : RuleUpdate) (nowMs : Nat) (now : Stamp)
    (row : SkillRow) : importRejectionReason repoScopes (update.write nowMs now row) =
      importRejectionReason repoScopes row := rfl

theorem normalizeOptional_idem (value : Option Text) :
    normalizeOptional (normalizeOptional value) = normalizeOptional value := by
  cases value with
  | none => rfl
  | some text =>
    by_cases hblank : trim text = []
    · have hnone : normalizeOptional (some text) = none := by simp [normalizeOptional, hblank]
      rw [hnone]
      rfl
    · have hsome : normalizeOptional (some text) = some (trim text) := by
        simp [normalizeOptional, hblank]
      have hagain : normalizeOptional (some (trim text)) = some (trim text) := by
        simp [normalizeOptional, trim_trim, hblank]
      rw [hsome, hagain]

theorem changedFields_write
    (hjson : formats.jsonStrings (formats.printStrings (normalizeFilePatterns rule.filePatterns)) =
      some (normalizeFilePatterns rule.filePatterns)) :
    changedFields formats ((rule.update formats repoScopes).write nowMs now row) rule = [] ↔
      trim rule.name = rule.name ∧ trim rule.description = rule.description := by
  have hpatterns : parseFilePatterns formats
      (some (formats.printStrings (normalizeFilePatterns rule.filePatterns))) =
        normalizeFilePatterns rule.filePatterns := by
    rw [parseFilePatterns, Option.bind_some, hjson, Option.map_some, Option.getD_some]
    exact sortedPatterns_idem rule.filePatterns
  have hprompt := normalizeOptional_idem rule.checkPrompt
  rw [changedFields_eq_nil]
  constructor
  · rintro ⟨hname, hdescription, _, _⟩
    exact ⟨hname, hdescription⟩
  · rintro ⟨hname, hdescription⟩
    exact ⟨hname, hdescription, hprompt, hpatterns⟩

theorem updates_planned : (planned formats repoScopes (some row) rule).updates = true ↔
      importRejectionReason repoScopes row = none ∧ changedFields formats row rule ≠ [] := by
  simp only [planned]
  cases importRejectionReason repoScopes row with
  | some reason => simp [Planned.updates]
  | none =>
    by_cases hchanged : changedFields formats row rule = [] <;>
      simp [Planned.updates, hchanged]

def plannedIn (formats : Formats) (repoScopes : List Text) (skills : SkillTable)
    (rule : PackageRule) : Planned :=
  planned formats repoScopes (skills.find rule.id) rule

theorem exists_row_of_updates
    (hupdates : (plannedIn formats repoScopes skills rule).updates = true) :
    ∃ row, skills.find rule.id = some row ∧ importRejectionReason repoScopes row = none ∧
      changedFields formats row rule ≠ [] := by
  unfold plannedIn at hupdates
  cases hfind : skills.find rule.id with
  | none => simp [hfind, planned, Planned.updates] at hupdates
  | some row =>
    rw [hfind] at hupdates
    exact ⟨row, rfl, updates_planned.mp hupdates⟩

theorem importRule_unwritten
    (hidle : dryRun = true ∨ (plannedIn formats repoScopes skills rule).updates = false) :
    importRule formats repoScopes dryRun time skills rule =
      .ok (skills, operation dryRun rule (plannedIn formats repoScopes skills rule)) := by
  have hcondition : ((plannedIn formats repoScopes skills rule).updates && !dryRun) = false := by
    rcases hidle with rfl | hidle
    · simp
    · simp [hidle]
  rw [plannedIn] at hcondition
  simp [importRule, plannedIn, hcondition]

theorem updateRule_eq (hfind : skills.find rule.id = some row) :
    updateRule formats repoScopes time skills rule =
      if row.importable (normalizedRepoScopes repoScopes) = true then
        .ok (updateExistingRule (rule.update formats repoScopes) time.nowMs time.now skills)
      else .error (refusedUpdate rule) := by
  rw [updateRule, hfind, Option.any_some]

theorem find_updateExistingRule (update : RuleUpdate) (nowMs : Nat) (now : Stamp)
    (skills : SkillTable) (id : Text) :
    (updateExistingRule update nowMs now skills).find id = (skills.find id).map fun row =>
      if row.id = update.id && row.importable update.repoScopes then update.write nowMs now row
      else row := by
  rw [updateExistingRule, KeyedTable.find_update]

theorem find_updateExistingRule_other {update : RuleUpdate} {id : Text} (hother : id ≠ update.id) :
    (updateExistingRule update nowMs now skills).find id = skills.find id := by
  rw [find_updateExistingRule]
  cases hfind : skills.find id with
  | none => rfl
  | some row =>
    have hid : row.id ≠ update.id := (KeyedTable.find_eq_some.mp hfind).2.symm ▸ hother
    simp [hid]

theorem find_updateExistingRule_self {update : RuleUpdate}
    (hfind : skills.find update.id = some row)
    (himportable : row.importable update.repoScopes = true) :
    (updateExistingRule update nowMs now skills).find update.id =
      some (update.write nowMs now row) := by
  have hid : row.id = update.id := (KeyedTable.find_eq_some.mp hfind).2
  rw [find_updateExistingRule, hfind]
  simp [hid, himportable]

/-! ## All rules -/

theorem importRules_unwritten (hidle : ∀ rule ∈ rules,
      dryRun = true ∨ (plannedIn formats repoScopes skills rule).updates = false) :
    importRules formats repoScopes dryRun time skills rules = .ok (skills, rules.map fun rule =>
      operation dryRun rule (plannedIn formats repoScopes skills rule)) := by
  induction rules with
  | nil => rfl
  | cons rule rest ih =>
    have hrest := ih fun other hother => hidle other (.tail _ hother)
    rw [importRules, importRule_unwritten (hidle rule (.head _))]
    simp [bind, Except.bind, hrest, pure, Except.pure]

structure Imported (formats : Formats) (repoScopes : List Text) (time : ImportTime)
    (rules : List PackageRule) (skills after : SkillTable) : Prop where
  updated : ∀ rule ∈ rules, (plannedIn formats repoScopes skills rule).updates = true →
    ∃ row, skills.find rule.id = some row ∧
      row.importable (normalizedRepoScopes repoScopes) = true ∧
      after.find rule.id = some ((rule.update formats repoScopes).write time.nowMs time.now row)
  kept : ∀ id, (∀ rule ∈ rules, rule.id = id →
      (plannedIn formats repoScopes skills rule).updates = false) →
    after.find id = skills.find id

theorem Imported.nil : Imported formats repoScopes time [] skills skills where
  updated _ hmem := absurd hmem List.not_mem_nil
  kept _ _ := rfl

theorem Imported.cons_unwritten {rest : List PackageRule}
    (himported : Imported formats repoScopes time rest skills after)
    (hidle : (plannedIn formats repoScopes skills rule).updates = false) :
    Imported formats repoScopes time (rule :: rest) skills after where
  updated other hother hupdates := by
    rcases List.mem_cons.mp hother with rfl | htail
    · simp [hidle] at hupdates
    · exact himported.updated other htail hupdates
  kept id hkept := himported.kept id fun other hother =>
    hkept other (.tail _ hother)

theorem plannedIn_updated {other : PackageRule} (hid : other.id ≠ rule.id) :
    plannedIn formats repoScopes (updateExistingRule (rule.update formats repoScopes) time.nowMs
      time.now skills) other = plannedIn formats repoScopes skills other := by
  have hother : other.id ≠ (rule.update formats repoScopes).id := hid
  rw [plannedIn, find_updateExistingRule_other hother, plannedIn]

theorem Imported.cons_written {rest : List PackageRule} (hfind : skills.find rule.id = some row)
    (hupdates : (plannedIn formats repoScopes skills rule).updates = true)
    (himportable : row.importable (normalizedRepoScopes repoScopes) = true)
    (hfresh : ∀ other ∈ rest, other.id ≠ rule.id) (himported : Imported formats repoScopes time rest
      (updateExistingRule (rule.update formats repoScopes) time.nowMs time.now skills) after) :
    Imported formats repoScopes time (rule :: rest) skills after where
  updated other hother hplanned := by
    rcases List.mem_cons.mp hother with rfl | htail
    · refine ⟨row, hfind, himportable, ?_⟩
      rw [himported.kept other.id fun later hlater hid => absurd hid (hfresh later hlater)]
      have hself : skills.find (other.update formats repoScopes).id = some row := hfind
      exact find_updateExistingRule_self hself himportable
    · have hid := hfresh other htail
      rw [← plannedIn_updated hid] at hplanned
      obtain ⟨found, hfound, hrest⟩ := himported.updated other htail hplanned
      have hother : other.id ≠ (rule.update formats repoScopes).id := hid
      rw [find_updateExistingRule_other hother] at hfound
      exact ⟨found, hfound, hrest⟩
  kept id hkept := by
    have hne : id ≠ (rule.update formats repoScopes).id := by
      intro heq
      have hidle := hkept rule (.head _) heq.symm
      simp [hidle] at hupdates
    have hrest := himported.kept id fun other htail hid =>
      (congrArg Planned.updates (plannedIn_updated (hfresh other htail))).trans
        (hkept other (.tail _ htail) hid)
    exact hrest.trans (find_updateExistingRule_other hne)

theorem importRule_written (hfind : skills.find rule.id = some row)
    (hupdates : (plannedIn formats repoScopes skills rule).updates = true) :
    importRule formats repoScopes false time skills rule =
      if row.importable (normalizedRepoScopes repoScopes) = true then
        .ok (updateExistingRule (rule.update formats repoScopes) time.nowMs time.now skills,
          operation false rule (plannedIn formats repoScopes skills rule))
      else .error (refusedUpdate rule) := by
  rw [plannedIn] at hupdates
  simp only [importRule, hupdates, updateRule_eq hfind, plannedIn, Bool.not_false, Bool.and_true,
    if_true]
  split <;> rfl

theorem imported_of_importRules {operations : List ImportOperation}
    (hnodup : (rules.map PackageRule.id).Nodup)
    (himport : importRules formats repoScopes false time skills rules = .ok (after, operations)) :
    Imported formats repoScopes time rules skills after ∧ operations = rules.map fun rule =>
        operation false rule (plannedIn formats repoScopes skills rule) := by
  induction rules generalizing skills operations with
  | nil =>
    simp only [importRules, Except.ok.injEq, Prod.mk.injEq] at himport
    obtain ⟨rfl, rfl⟩ := himport
    exact ⟨.nil, rfl⟩
  | cons rule rest ih =>
    rw [List.map_cons, List.nodup_cons] at hnodup
    have hfresh : ∀ other ∈ rest, other.id ≠ rule.id :=
      fun other hother hid => hnodup.1 (hid ▸ List.mem_map_of_mem hother)
    rw [importRules] at himport
    cases hupdates : (plannedIn formats repoScopes skills rule).updates with
    | false =>
      rw [importRule_unwritten (.inr hupdates)] at himport
      cases hrest : importRules formats repoScopes false time skills rest with
      | error err => simp [hrest, bind, Except.bind] at himport
      | ok result =>
        simp only [bind, Except.bind, hrest, pure, Except.pure, Except.ok.injEq,
          Prod.mk.injEq] at himport
        obtain ⟨rfl, rfl⟩ := himport
        obtain ⟨himported, hoperations⟩ := ih hnodup.2 hrest
        rw [List.map_cons, ← hoperations]
        exact ⟨himported.cons_unwritten hupdates, rfl⟩
    | true =>
      obtain ⟨row, hfind, _⟩ := exists_row_of_updates hupdates
      rw [importRule_written hfind hupdates] at himport
      split at himport
      next himportable =>
        simp only [bind, Except.bind] at himport
        split at himport
        next => cases himport
        next result hrest =>
          simp only [pure, Except.pure, Except.ok.injEq, Prod.mk.injEq] at himport
          obtain ⟨rfl, rfl⟩ := himport
          obtain ⟨himported, hoperations⟩ := ih hnodup.2 hrest
          refine ⟨himported.cons_written hfind hupdates himportable hfresh, ?_⟩
          rw [List.map_cons, hoperations]
          congr 1
          apply List.map_congr_left
          intro other hother
          rw [plannedIn_updated (hfresh other hother)]
      next => cases himport

theorem importRules_ok (time : ImportTime) (hnodup : (rules.map PackageRule.id).Nodup)
    (himportable : ∀ rule ∈ rules, ∀ row, skills.find rule.id = some row →
      (plannedIn formats repoScopes skills rule).updates = true →
        row.importable (normalizedRepoScopes repoScopes) = true) :
    ∃ result, importRules formats repoScopes false time skills rules = .ok result := by
  induction rules generalizing skills with
  | nil => exact ⟨_, rfl⟩
  | cons rule rest ih =>
    rw [List.map_cons, List.nodup_cons] at hnodup
    have hfresh : ∀ other ∈ rest, other.id ≠ rule.id :=
      fun other hother hid => hnodup.1 (hid ▸ List.mem_map_of_mem hother)
    rw [importRules]
    cases hupdates : (plannedIn formats repoScopes skills rule).updates with
    | false =>
      obtain ⟨result, hrest⟩ := ih hnodup.2 fun other hother =>
        himportable other (.tail _ hother)
      rw [importRule_unwritten (.inr hupdates)]
      exact ⟨_, by simp only [bind, Except.bind, hrest]; rfl⟩
    | true =>
      obtain ⟨row, hfind, _⟩ := exists_row_of_updates hupdates
      have hrow := himportable rule (.head _) row hfind hupdates
      have hlater : ∀ other ∈ rest, ∀ found,
          (updateExistingRule (rule.update formats repoScopes) time.nowMs time.now skills).find
            other.id = some found →
          (plannedIn formats repoScopes (updateExistingRule (rule.update formats repoScopes)
            time.nowMs time.now skills) other).updates = true →
          found.importable (normalizedRepoScopes repoScopes) = true := by
        intro other hother found hfound hplanned
        rw [plannedIn_updated (hfresh other hother)] at hplanned
        have hne : other.id ≠ (rule.update formats repoScopes).id := hfresh other hother
        rw [find_updateExistingRule_other hne] at hfound
        exact himportable other (.tail _ hother) found hfound hplanned
      obtain ⟨result, hrest⟩ := ih hnodup.2 hlater
      rw [importRule_written hfind hupdates, if_pos hrow]
      exact ⟨_, by simp only [bind, Except.bind, hrest]; rfl⟩

theorem operation_updates {plan : Planned} :
    (operation dryRun rule plan).action ∈ [ImportAction.wouldUpdate, .updated] ↔
      plan.updates = true := by
  cases plan <;> cases dryRun <;> simp [operation, Planned.updates]

theorem operation_id {plan : Planned} : (operation dryRun rule plan).id = rule.id := by
  cases plan <;> rfl

theorem updates_importReport : (importReport dryRun parsed (parsed.package.rules.map fun rule =>
      operation dryRun rule (plannedIn formats repoScopes skills rule))).updates =
      (parsed.package.rules.filter fun rule =>
        (plannedIn formats repoScopes skills rule).updates).map PackageRule.id := by
  simp only [ImportPackageReport.updates, importReport, List.filter_map, List.map_map]
  have hfilter : ((fun operation : ImportOperation =>
      decide (operation.action ∈ [ImportAction.wouldUpdate, .updated])) ∘ fun rule =>
        operation dryRun rule (plannedIn formats repoScopes skills rule)) =
      fun rule => (plannedIn formats repoScopes skills rule).updates := by
    funext rule
    rw [Function.comp_apply, Bool.eq_iff_iff, decide_eq_true_eq, operation_updates]
  rw [hfilter]
  apply List.map_congr_left
  intro rule _
  exact operation_id

theorem importPackage_eq_ok {report : ImportPackageReport} :
    importPackage formats repoScopes dryRun time parsed skills = .ok (after, report) ↔
      validatePackage parsed.package = .ok () ∧ ∃ operations,
        importRules formats repoScopes dryRun time skills parsed.package.rules =
          .ok (after, operations) ∧ importReport dryRun parsed operations = report := by
  unfold importPackage
  cases validatePackage parsed.package with
  | error err => simp [bind, Except.bind]
  | ok _ =>
    cases importRules formats repoScopes dryRun time skills parsed.package.rules with
    | error err => simp [bind, Except.bind]
    | ok result =>
      obtain ⟨written, operations⟩ := result
      simp [bind, Except.bind, pure, Except.pure]

theorem importPackage_dryRun {announced : ImportPackageReport}
    (hdry : importPackage formats repoScopes true time parsed skills = .ok (after, announced)) :
    announced.updates = (parsed.package.rules.filter fun rule =>
      (plannedIn formats repoScopes skills rule).updates).map PackageRule.id := by
  obtain ⟨_, operations, himport, rfl⟩ := importPackage_eq_ok.mp hdry
  rw [importRules_unwritten fun _ _ => .inl rfl, Except.ok.injEq, Prod.mk.injEq] at himport
  obtain ⟨rfl, rfl⟩ := himport
  exact updates_importReport

/-! ## Convergence -/

theorem UpdatesAgree.importable (hagree : UpdatesAgree formats repoScopes parsed skills)
    (hvalid : validatePackage parsed.package = .ok ()) (hrule : rule ∈ parsed.package.rules)
    (hfind : skills.find rule.id = some row)
    (hupdates : (plannedIn formats repoScopes skills rule).updates = true) :
    row.importable (normalizedRepoScopes repoScopes) = true ∧
      trim rule.name = rule.name ∧ trim rule.description = rule.description := by
  rw [plannedIn, hfind] at hupdates
  exact hagree hvalid rule hrule row hfind hupdates

theorem planned_again (himported : Imported formats repoScopes time rules skills after)
    (hrule : rule ∈ rules)
    (hjson : formats.jsonStrings (formats.printStrings (normalizeFilePatterns rule.filePatterns)) =
      some (normalizeFilePatterns rule.filePatterns))
    (hupdates : (plannedIn formats repoScopes skills rule).updates = true) :
    (plannedIn formats repoScopes after rule).updates = false ↔
      trim rule.name = rule.name ∧ trim rule.description = rule.description := by
  obtain ⟨row, hfind, _, hwritten⟩ := himported.updated rule hrule hupdates
  obtain ⟨found, hfound, hreason, _⟩ := exists_row_of_updates hupdates
  obtain rfl : row = found := Option.some.inj (hfind.symm.trans hfound)
  have hchanged : changedFields formats ((rule.update formats repoScopes).write time.nowMs time.now
      row) rule = [] ↔ _ := changedFields_write hjson
  rw [plannedIn, hwritten, ← hchanged, ← Bool.not_eq_true, updates_planned,
    importRejectionReason_write]
  simp [hreason]

theorem planned_kept (hnodup : (rules.map PackageRule.id).Nodup)
    (himported : Imported formats repoScopes time rules skills after) (hrule : rule ∈ rules)
    (hidle : (plannedIn formats repoScopes skills rule).updates = false) :
    plannedIn formats repoScopes after rule = plannedIn formats repoScopes skills rule := by
  have hkept : after.find rule.id = skills.find rule.id := by
    apply himported.kept
    intro other hother hid
    rwa [List.inj_on_of_nodup_map hnodup hother hrule hid]
  rw [plannedIn, hkept, plannedIn]

theorem secondImportIdle_of_agree (hjson : ∀ rule ∈ parsed.package.rules,
      formats.jsonStrings (formats.printStrings (normalizeFilePatterns rule.filePatterns)) =
        some (normalizeFilePatterns rule.filePatterns))
    (hagree : UpdatesAgree formats repoScopes parsed skills) :
    SecondImportIdle formats repoScopes parsed skills := by
  intro time after report himport dryRun again
  obtain ⟨hvalid, operations, hrules, _⟩ := importPackage_eq_ok.mp himport
  have hnodup := nodup_of_validatePackage hvalid
  obtain ⟨himported, _⟩ := imported_of_importRules hnodup hrules
  have hidle : ∀ rule ∈ parsed.package.rules,
      (plannedIn formats repoScopes after rule).updates = false := by
    intro rule hrule
    cases hupdates : (plannedIn formats repoScopes skills rule).updates with
    | false => rw [planned_kept hnodup himported hrule hupdates, hupdates]
    | true =>
      obtain ⟨row, hfind, _⟩ := exists_row_of_updates hupdates
      exact (planned_again himported hrule (hjson rule hrule) hupdates).mpr
        (hagree.importable hvalid hrule hfind hupdates).2
  refine ⟨_, importPackage_eq_ok.mpr ⟨hvalid, _,
    importRules_unwritten fun rule hrule => .inr (hidle rule hrule), rfl⟩, ?_⟩
  rw [updates_importReport, List.map_eq_nil_iff, List.filter_eq_nil_iff]
  intro rule hrule
  rw [hidle rule hrule]
  exact Bool.false_ne_true

theorem dryRunTold_of_agree (hagree : UpdatesAgree formats repoScopes parsed skills) :
    DryRunTold formats repoScopes parsed skills := by
  intro time after announced hdry
  have hannounced := importPackage_dryRun hdry
  obtain ⟨hvalid, _⟩ := importPackage_eq_ok.mp hdry
  have hnodup := nodup_of_validatePackage hvalid
  obtain ⟨⟨written, operations⟩, hrules⟩ := importRules_ok time hnodup
    fun rule hrule row hfind hupdates => (hagree.importable hvalid hrule hfind hupdates).1
  obtain ⟨himported, rfl⟩ := imported_of_importRules hnodup hrules
  refine ⟨written, _, importPackage_eq_ok.mpr ⟨hvalid, _, hrules, rfl⟩, ?_, ?_, ?_⟩
  · rw [updates_importReport, hannounced]
  · intro rule hrule hmem
    rw [hannounced] at hmem
    obtain ⟨other, hother, hid⟩ := List.mem_map.mp hmem
    rw [List.mem_filter] at hother
    obtain rfl := List.inj_on_of_nodup_map hnodup hother.1 hrule hid
    obtain ⟨row, hfind, _, hwritten⟩ := himported.updated other hrule hother.2
    rw [hwritten, hfind, Option.map_some]
  · intro id hmem
    apply himported.kept
    rintro rule hrule rfl
    rw [hannounced] at hmem
    rw [← Bool.not_eq_true]
    intro hupdates
    exact hmem (List.mem_map_of_mem (List.mem_filter.mpr ⟨hrule, hupdates⟩))

/-- An import that succeeded stays idle, and a dry run tells what an import does, if and
only if the comparison, the normalization and the condition of the update agree. -/
theorem importConverges_iff (hjson : ∀ rule ∈ parsed.package.rules,
      formats.jsonStrings (formats.printStrings (normalizeFilePatterns rule.filePatterns)) =
        some (normalizeFilePatterns rule.filePatterns)) :
    SecondImportIdle formats repoScopes parsed skills ∧
        DryRunTold formats repoScopes parsed skills ↔
      UpdatesAgree formats repoScopes parsed skills := by
  constructor
  · rintro ⟨hidle, htold⟩ hvalid rule hrule row hfind hplanned
    have hupdates : (plannedIn formats repoScopes skills rule).updates = true := by
      rw [plannedIn, Option.mem_def.mp hfind]
      exact hplanned
    have hnodup := nodup_of_validatePackage hvalid
    obtain ⟨written, report, hreal, _⟩ := htold ⟨[], 0⟩ skills _ (importPackage_eq_ok.mpr
      ⟨hvalid, _, importRules_unwritten fun _ _ => .inl rfl, rfl⟩)
    obtain ⟨_, operations, hrules, _⟩ := importPackage_eq_ok.mp hreal
    obtain ⟨himported, _⟩ := imported_of_importRules hnodup hrules
    obtain ⟨found, hfound, himportable, _⟩ := himported.updated rule hrule hupdates
    obtain rfl : row = found := Option.some.inj (hfind.symm.trans hfound)
    obtain ⟨second, hsecond, hnone⟩ := hidle ⟨[], 0⟩ written report hreal true ⟨[], 0⟩
    rw [importPackage_dryRun hsecond, List.map_eq_nil_iff, List.filter_eq_nil_iff] at hnone
    refine ⟨himportable, (planned_again himported hrule (hjson rule hrule) hupdates).mp ?_⟩
    rw [← Bool.not_eq_true]
    exact hnone rule hrule
  · intro hagree
    exact ⟨secondImportIdle_of_agree hjson hagree, dryRunTold_of_agree hagree⟩

def bareFormats : Formats where
  jsonStrings _ := some []
  printStrings _ := emptyListJson
  sha1Hex _ := []
  redactSecrets input := input
  sha256Hex _ := "90e2745b03f34114bae46a1809fc4ae8c1aeef4558b7d857fd2917335e118878"
  printPackage _ := []
  parsePackage _ := .error []
  printMeta _ := []
  parseMeta _ := .error []
  printRuleMaterial _ := []
  printPackageMaterial _ _ := []

def handWrittenRule (description : Text) : PackageRule where
  schemaVersion := ruleSchemaVersion
  version := packageVersion
  id := ['r']
  name := ['n']
  description := description
  ruleType := ['t']
  source := localSource
  origin := ['m']
  sourceRepo := none
  checkPrompt := none
  filePatterns := []
  hash := []
  path := none

def handWritten (description : Text) : ParsedPackage where
  package :=
    { schemaVersion := packageSchemaVersion
      version := packageVersion
      hash := []
      manifest :=
        { packageId := []
          exportedAtUtc := []
          diffloreVersion := []
          format := .json
          repoScopes := []
          ruleCount := 1
          totalRules := 1
          truncated := false
          hashAlgorithm }
      rules := [handWrittenRule description] }
  currentHash := []

def oneRule (sourceRepo : Option Text) : SkillTable := KeyedTable.empty.insertOrIgnore
    { id := ['r']
      name := ['n']
      source := localSource
      version := firstVersion
      description := ['o']
      sourceRepo
      installedAt := []
      updatedAt := [] }

def updatesOf (repoScopes : List Text) (dryRun : Bool) (parsed : ParsedPackage)
    (skills : SkillTable) : Option (List Text) :=
  match importPackage bareFormats repoScopes dryRun ⟨[], 0⟩ parsed skills with
  | .ok (_, report) => some report.updates
  | .error _ => none

def updatesAgain (repoScopes : List Text) (parsed : ParsedPackage) (skills : SkillTable) :
    Option (List Text) :=
  match importPackage bareFormats repoScopes false ⟨[], 0⟩ parsed skills with
  | .ok (after, _) => updatesOf repoScopes true parsed after
  | .error _ => none

theorem importConverges_iff_trimmed :
    updatesOf [] true (handWritten ['d']) (oneRule none) = some [['r']] ∧
      UpdatesAgree bareFormats [] (handWritten ['d']) (oneRule none) ∧
      (SecondImportIdle bareFormats [] (handWritten ['d']) (oneRule none) ∧
          DryRunTold bareFormats [] (handWritten ['d']) (oneRule none) ↔
        UpdatesAgree bareFormats [] (handWritten ['d']) (oneRule none)) := by
  have hagree : UpdatesAgree bareFormats [] (handWritten ['d']) (oneRule none) := by
    intro _ rule hrule row hfind _
    obtain rfl := List.mem_singleton.mp hrule
    have hfound : (oneRule none).find ['r'] = some row := hfind
    obtain rfl := Option.some.inj hfound
    decide
  refine ⟨by decide, hagree, importConverges_iff ?_⟩
  intro rule hrule
  obtain rfl := List.mem_singleton.mp hrule
  decide

def spelledRepo : Text := "acme/widgets.git"

/-- A description with a blank is updated at every import, and a row with another spelling
of its repository fails an import that a dry run announced. -/
theorem imports_disagree :
    ¬ SecondImportIdle bareFormats [] (handWritten [' ', 'd']) (oneRule none) ∧
      ¬ DryRunTold bareFormats ["acme/widgets"] (handWritten ['d'])
        (oneRule (some spelledRepo)) := by
  constructor
  · intro hidle
    have hagain : updatesAgain [] (handWritten [' ', 'd']) (oneRule none) = some [['r']] := by
      decide
    unfold updatesAgain at hagain
    split at hagain
    next after report himport =>
      obtain ⟨second, hsecond, hnone⟩ := hidle _ after report himport true ⟨[], 0⟩
      simp [updatesOf, hsecond, hnone] at hagain
    next => cases hagain
  · intro htold
    have hannounced : updatesOf ["acme/widgets"] true (handWritten ['d'])
        (oneRule (some spelledRepo)) = some [['r']] := by decide
    have hfails : updatesOf ["acme/widgets"] false (handWritten ['d'])
        (oneRule (some spelledRepo)) = none := by decide
    unfold updatesOf at hannounced
    split at hannounced
    next after announced hdry =>
      obtain ⟨written, report, hreal, _⟩ := htold _ after announced hdry
      rw [updatesOf, hreal] at hfails
      cases hfails
    next => cases hannounced

end Difflore.Package

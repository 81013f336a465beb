import Difflore.Context.SkillWrites
import Difflore.Foundation.Run

/-! # Disabled rules

The user disables an active rule. The local writers make only pending drafts active, but a
sync activates every row it rewrites, and every rule it creates.
-/

namespace Difflore.Context

open Foundation

variable {condition : SkillRow → Bool} {now : Stamp}

def SkillWrite.byUser : SkillWrite → Bool
  | .addSkill .. | .createLocal .. | .removeSkill _ | .publishRule .. => true
  | _ => false

def SkillWrite.freshFor (ids : List Text) : SkillWrite → Bool
  | .rememberRule input _ => input.id ∉ ids
  | _ => true

structure RuleHistory where
  skills : SkillTable
  disabled : List Text

def RuleHistory.disabledBy (history : RuleHistory) : SkillWrite → List Text
  | .disableRule id _ =>
    if (history.skills.find id).any (·.status = .active) then id :: history.disabled
    else history.disabled
  | _ => history.disabled

/-- Review imports, runs of the autopilot and package imports are sequences of these steps. -/
def RuleHistory.step (library : Library) (history : RuleHistory) (write : SkillWrite) :
    Option RuleHistory :=
  if write.byUser || !write.freshFor history.disabled then none
  else some ⟨write.apply library history.skills, history.disabledBy write⟩

def DisabledStay (history : RuleHistory) : Prop :=
  ∀ id ∈ history.disabled, ∀ row ∈ history.skills.find id, row.status = .disabled

/-- A created rule with this id meets a row the sync leaves alone, and an updated one meets
no other. -/
def SyncResult.Spares (result : SyncResult) (skills : SkillTable) (id : Text) : Prop :=
  (∀ rule ∈ result.created, rule.id = id → ∃ row ∈ skills.find id, row.ofSync = false) ∧
    ∀ rule ∈ result.updated, rule.id = id → ∀ row ∈ skills.find id, row.ofSync = false

instance (result : SyncResult) (skills : SkillTable) (id : Text) :
    Decidable (result.Spares skills id) :=
  inferInstanceAs (Decidable (_ ∧ _))

def SyncSpares (history : RuleHistory) : SkillWrite → Prop
  | .applySyncResult result _ => ∀ id ∈ history.disabled, result.Spares history.skills id
  | _ => True

instance (history : RuleHistory) : (write : SkillWrite) → Decidable (SyncSpares history write)
  | .applySyncResult result _ =>
    inferInstanceAs (Decidable (∀ id ∈ history.disabled, result.Spares history.skills id))
  | .addSkill .. | .createLocal .. | .rememberRule .. | .strengthenRule .. | .decayRules ..
  | .backfillSourceKind .. | .attachSourceRepo .. | .toggleEngine .. | .removeSkill _
  | .promoteCandidate _ | .rejectCandidate _ | .disableRule .. | .refinePendingDraft ..
  | .quarantineUnguided _ | .enableCloudRules _ | .publishRule .. | .updateExistingRule .. =>
    isTrue trivial

variable {library : Library} {skills : SkillTable} {id : Text}

theorem disabled_update {set : SkillRow → SkillRow} (hset : ∀ row, (set row).id = row.id)
    (hdisabled : ∀ row ∈ skills.find id, row.status = .disabled)
    (hkeeps : ∀ row : SkillRow, row.status = .disabled → condition row = true →
      (set row).status = .disabled) :
    ∀ row ∈ (skills.update condition set hset).find id, row.status = .disabled := by
  intro row hrow
  rw [KeyedTable.find_update] at hrow
  obtain ⟨old, hold, rfl⟩ := Option.map_eq_some_iff.mp (Option.mem_def.mp hrow)
  split
  next hcondition => exact hkeeps old (hdisabled old hold) hcondition
  next => exact hdisabled old hold

theorem disabled_delete (hdisabled : ∀ row ∈ skills.find id, row.status = .disabled) :
    ∀ row ∈ (skills.delete condition).find id, row.status = .disabled := by
  intro row hrow
  rw [KeyedTable.find_delete, Option.mem_def, Option.filter_eq_some_iff] at hrow
  exact hdisabled row hrow.1

theorem disabled_of_local {write : SkillWrite} (huser : write.byUser = false)
    (hlocal : ∀ result now, write ≠ .applySyncResult result now) {ids : List Text}
    (hfresh : write.freshFor ids = true) (hid : id ∈ ids)
    (hdisabled : ∀ row ∈ skills.find id, row.status = .disabled) :
    ∀ row ∈ (write.apply library skills).find id, row.status = .disabled := by
  cases write with
  | addSkill | createLocal | removeSkill | publishRule => contradiction
  | applySyncResult result now => exact absurd rfl (hlocal result now)
  | rememberRule input now =>
    have hne : ¬ id = (input.newRow library now).id := by
      rintro rfl
      simp only [SkillWrite.freshFor, decide_eq_true_eq] at hfresh
      exact hfresh hid
    intro row hrow
    rw [SkillWrite.apply, rememberRule, KeyedTable.find_insertOrIgnore, if_neg hne] at hrow
    exact hdisabled row hrow
  | rejectCandidate => exact disabled_delete hdisabled
  | promoteCandidate =>
    refine disabled_update ?_ hdisabled ?_
    · intro row
      rfl
    · intro row hrow hpending
      simp [hrow] at hpending
  | quarantineUnguided =>
    refine disabled_update ?_ hdisabled ?_
    · intro row
      rfl
    · intro row hrow hactive
      simp [unguided, hrow] at hactive
  | disableRule =>
    refine disabled_update ?_ hdisabled ?_
    · intro row
      rfl
    · intro row _ _
      rfl
  | strengthenRule | decayRules | backfillSourceKind | attachSourceRepo | toggleEngine
  | refinePendingDraft | enableCloudRules | updateExistingRule =>
    refine disabled_update ?_ hdisabled ?_
    · intro row
      rfl
    · intro row hrow _
      exact hrow

/-! ## Syncs -/

/-- What decides about a row: its status, and whether a sync rewrites it. -/
def exposure (skills : SkillTable) (id : Text) : Option (SkillStatus × Bool) :=
  (skills.find id).map fun row => (row.status, row.ofSync)

theorem exposure_update {set : SkillRow → SkillRow} {hset : ∀ row, (set row).id = row.id}
    (hsame : ∀ row ∈ skills.find id, condition row = true →
      (set row).status = row.status ∧ (set row).ofSync = row.ofSync) :
    exposure (skills.update condition set hset) id = exposure skills id := by
  unfold exposure
  rw [KeyedTable.find_update, Option.map_map]
  apply Option.map_congr
  intro row hrow
  rw [Function.comp_apply]
  split
  next hcondition => rw [(hsame row hrow hcondition).1, (hsame row hrow hcondition).2]
  next => rfl

theorem exposure_applyCloudSourceRepo (rule : SyncedRule) :
    exposure (applyCloudSourceRepo rule skills) id = exposure skills id := by
  unfold applyCloudSourceRepo
  split
  next => rfl
  next => exact exposure_update fun row _ _ => ⟨rfl, rfl⟩

theorem exposure_stampConfidence (rule : SyncedRule) :
    exposure (stampConfidence library rule skills) id = exposure skills id := by
  unfold stampConfidence
  split
  next => rfl
  next => exact exposure_update fun row _ _ => ⟨rfl, rfl⟩

theorem ofSync_of_exposure {status : SkillStatus}
    (hexposure : exposure skills id = some (status, false)) :
    ∃ row ∈ skills.find id, row.ofSync = false := by
  obtain ⟨row, hrow, heq⟩ := Option.map_eq_some_iff.mp hexposure
  exact ⟨row, hrow, (Prod.mk.inj heq).2⟩

theorem exists_of_exposure {other : SkillTable} {row : SkillRow}
    (hsame : exposure other id = exposure skills id) (hfind : row ∈ other.find id) :
    ∃ old ∈ skills.find id, old.status = row.status ∧ old.ofSync = row.ofSync := by
  have hmapped : exposure other id = some (row.status, row.ofSync) := by
    rw [exposure, Option.mem_def.mp hfind, Option.map_some]
  rw [hsame] at hmapped
  obtain ⟨old, hold, heq⟩ := Option.map_eq_some_iff.mp hmapped
  exact ⟨old, hold, Prod.mk.inj heq⟩

theorem exposure_applyCreated {rule : SyncedRule}
    (hspared : rule.id = id → ∃ row ∈ skills.find id, row.ofSync = false) :
    exposure (applyCreated library now skills rule) id = exposure skills id := by
  unfold applyCreated
  rw [exposure_stampConfidence, exposure_applyCloudSourceRepo]
  unfold exposure insertSynced
  rw [KeyedTable.find_upsert]
  split
  next hid =>
    obtain ⟨row, hfind, hforeign⟩ := hspared hid.symm
    have hkey : row.id = id := (KeyedTable.find_eq_some.mp hfind).2
    have howns : rule.owns row = false := by
      rw [owns_eq_ofSync (hkey.trans hid)]
      exact hforeign
    have hfound : skills.find (rule.newRow library now).id = some row := hid ▸ hfind
    rw [KeyedTable.upserted, hfound, Option.elim_some, howns, Option.mem_def.mp hfind]
    rfl
  next => rfl

theorem exposure_applyUpdated {rule : SyncedRule}
    (hspared : rule.id = id → ∀ row ∈ skills.find id, row.ofSync = false) :
    exposure (applyUpdated library now skills rule) id = exposure skills id := by
  unfold applyUpdated
  rw [exposure_stampConfidence, exposure_applyCloudSourceRepo]
  apply exposure_update
  intro row hfind hcondition
  obtain ⟨hid, howns⟩ := Bool.and_eq_true_iff.mp hcondition
  have hrule : row.id = rule.id := of_decide_eq_true hid
  have hkey : row.id = id := (KeyedTable.find_eq_some.mp hfind).2
  rw [owns_eq_ofSync hrule, hspared (hrule.symm.trans hkey) row hfind] at howns
  contradiction

theorem exposure_foldl {Item : Type} {apply : SkillTable → Item → SkillTable} {items : List Item}
    (happly : ∀ item ∈ items, ∀ other : SkillTable, exposure other id = exposure skills id →
      exposure (apply other item) id = exposure skills id) :
    exposure (items.foldl apply skills) id = exposure skills id := by
  have hfold : ∀ rest ⊆ items, ∀ other : SkillTable, exposure other id = exposure skills id →
      exposure (rest.foldl apply other) id = exposure skills id := by
    intro rest
    induction rest with
    | nil => exact fun _ other hother => hother
    | cons item rest ih =>
      intro hsub other hother
      apply ih fun next hnext => hsub (.tail _ hnext)
      exact happly item (hsub (.head _)) other hother
  exact hfold items (List.Subset.refl items) skills rfl

theorem exposure_synced {result : SyncResult} (now : Stamp) (hspares : result.Spares skills id) :
    exposure (result.updated.foldl (applyUpdated library now)
      (result.created.foldl (applyCreated library now) skills)) id = exposure skills id := by
  obtain ⟨hcreated, hupdated⟩ := hspares
  have hafterCreated : exposure (result.created.foldl (applyCreated library now) skills) id =
      exposure skills id := by
    apply exposure_foldl
    intro rule hrule other hother
    rw [exposure_applyCreated, hother]
    intro hid
    obtain ⟨row, hfind, hforeign⟩ := hcreated rule hrule hid
    apply ofSync_of_exposure
    rw [hother, exposure, Option.mem_def.mp hfind, Option.map_some, hforeign]
  rw [exposure_foldl, hafterCreated]
  intro rule hrule other hother
  rw [hafterCreated] at hother
  rw [exposure_applyUpdated, hother, hafterCreated]
  intro hid row hfind
  obtain ⟨old, hold, heq⟩ := exists_of_exposure hother hfind
  rw [← heq.2]
  exact hupdated rule hrule hid old hold

theorem disabled_of_sync {result : SyncResult} (hspares : result.Spares skills id)
    (hdisabled : ∀ row ∈ skills.find id, row.status = .disabled) :
    ∀ row ∈ (applySyncResult library result now skills).find id, row.status = .disabled := by
  have hdeleted : ∀ (ids : List Text) (other : SkillTable),
      (∀ row ∈ other.find id, row.status = .disabled) →
        ∀ row ∈ (ids.foldl applyDeleted other).find id, row.status = .disabled := by
    intro ids
    induction ids with
    | nil => exact fun _ hother => hother
    | cons first rest ih => exact fun other hother => ih _ (disabled_delete hother)
  unfold applySyncResult backfillConfidence
  refine disabled_update ?_ ?_ fun row hrow _ => hrow
  apply hdeleted
  intro row hfind
  obtain ⟨old, hold, heq⟩ := exists_of_exposure (exposure_synced now hspares) hfind
  rw [← heq.1]
  exact hdisabled old hold

theorem DisabledStay.step {history next : RuleHistory} {write : SkillWrite}
    (hstay : DisabledStay history) (hspares : SyncSpares history write)
    (hstep : history.step library write = some next) : DisabledStay next := by
  unfold RuleHistory.step at hstep
  split at hstep
  next => contradiction
  next hallowed =>
    obtain rfl := Option.some.inj hstep
    simp only [Bool.or_eq_true, Bool.not_eq_true', not_or, Bool.not_eq_true,
      Bool.not_eq_false] at hallowed
    obtain ⟨huser, hfresh⟩ := hallowed
    have hkept : ∀ id ∈ history.disabled,
        ∀ row ∈ (write.apply library history.skills).find id, row.status = .disabled := by
      intro id hid
      by_cases hsync : ∃ result now, write = .applySyncResult result now
      · obtain ⟨result, now, rfl⟩ := hsync
        exact disabled_of_sync (hspares id hid) (hstay id hid)
      · apply disabled_of_local huser _ hfresh hid (hstay id hid)
        intro result now heq
        exact hsync ⟨result, now, heq⟩
    intro id hid
    cases write with
    | disableRule target now =>
      simp only [RuleHistory.disabledBy] at hid
      split at hid
      next hactive =>
        rcases List.mem_cons.mp hid with rfl | hold
        · intro row hrow
          simp only [SkillWrite.apply, disableRule] at hrow
          rw [KeyedTable.find_update] at hrow
          obtain ⟨old, hfind, rfl⟩ := Option.map_eq_some_iff.mp (Option.mem_def.mp hrow)
          rw [hfind, Option.any_some] at hactive
          have hkey : old.id = id := (KeyedTable.find_eq_some.mp hfind).2
          simp [hkey, of_decide_eq_true hactive]
        · exact hkept id hold
      next => exact hkept id hid
    | _ => exact hkept id hid

/-- In every history whose syncs spare what the user has disabled, it stays disabled. -/
theorem disabled_stays_of_run {library : Library} {start : SkillTable} {writes : List SkillWrite}
    {history : RuleHistory}
    (hrun : Run (RuleHistory.step library) SyncSpares ⟨start, []⟩ writes history) :
    DisabledStay history := by
  apply hrun.invariant
  · intro history write next hstay hspares hstep
    exact hstay.step hspares hstep
  · exact fun id hid => absurd hid List.not_mem_nil

def disabledTeamRule : List SkillWrite :=
  [.applySyncResult ⟨[teamRule ['r']], [], []⟩ [], .disableRule ['r'] []]

def RuleHistory.outcome (history : RuleHistory) : List Text × List (Text × SkillStatus) :=
  (history.disabled, history.skills.rows.map fun row => (row.id, row.status))

/-- A rule of the user's own has the id that a sync lists among the created and the updated. -/
def disabledOwnRule : List SkillWrite :=
  [.rememberRule rememberedRule [], .disableRule rememberedRule.id [],
    .applySyncResult
      ⟨[teamRule rememberedRule.id, teamRule ['s']], [teamRule rememberedRule.id], []⟩ []]

theorem disabled_stays_of_run_own_rule :
    ∃ history, Run (RuleHistory.step untaggedLibrary) SyncSpares ⟨.empty, []⟩ disabledOwnRule
        history ∧
      history.outcome = ([rememberedRule.id], [(rememberedRule.id, .disabled), (['s'], .active)]) ∧
      DisabledStay history := by
  have houtcome : (execute (RuleHistory.step untaggedLibrary) SyncSpares ⟨.empty, []⟩
      disabledOwnRule).map RuleHistory.outcome =
        some ([rememberedRule.id], [(rememberedRule.id, .disabled), (['s'], .active)]) := by
    decide +kernel
  obtain ⟨history, hexecute, hshows⟩ := Option.map_eq_some_iff.mp houtcome
  have hrun := Run.of_execute hexecute
  exact ⟨history, hrun, hshows, disabled_stays_of_run hrun⟩

/-- The next sync of the rule makes it active again. -/
theorem sync_revives_disabled_rule : ¬ ∀ library start writes history,
      Run (RuleHistory.step library) (fun _ _ => True) ⟨start, []⟩ writes history →
      DisabledStay history := by
  intro hall
  have houtcome : (execute (RuleHistory.step untaggedLibrary) (fun _ _ => True) ⟨.empty, []⟩
      (disabledTeamRule ++ [.applySyncResult ⟨[], [teamRule ['r']], []⟩ []])).map
        (fun history => (history.disabled,
          (history.skills.find ['r']).map SkillRow.status)) = some ([['r']], some .active) := by
    decide +kernel
  obtain ⟨history, hexecute, hshows⟩ := Option.map_eq_some_iff.mp houtcome
  obtain ⟨hdisabled, hstatus⟩ := Prod.mk.inj hshows
  obtain ⟨row, hrow, hactive⟩ := Option.map_eq_some_iff.mp hstatus
  have hstay := hall _ _ _ history (Run.of_execute hexecute) ['r'] (by simp [hdisabled]) row hrow
  rw [hactive] at hstay
  contradiction

end Difflore.Context

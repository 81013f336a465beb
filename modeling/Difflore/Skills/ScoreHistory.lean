import Difflore.Skills.LadderRows
import Difflore.Skills.ScoreRuns
import Difflore.Skills.ScoreStamps

/-! # Histories of scores

Five writers change the score of a rule. A strengthening does not go above the cap of
conversations, feedback is clamped, a sweep has a floor, and a sync and the backfill replace a score
that looks like the default. A history runs them one after another, and knows which scores a user
set last.
-/

namespace Difflore.Skills

open Foundation Text Infra Context

/-- The arguments of `remember_inner`. -/
structure RememberCall where
  clock : CallClock
  input : RememberRuleInput
  confidenceOverride : Option Rat
  status : RuleStatus
  sourceRepo : Option RepoScope
  sourceKind : Option Text

inductive ScoreWrite
  | remember (call : RememberCall)
  | updateConfidence (id raw : Text)
  | sweep (opts : SweepOpts)
  | applySyncResult (result : SyncResult) (now : Stamp)
  | backfill

variable (library : RememberLibrary)

def RememberCall.run (call : RememberCall) (store : RuleStore) :
    Except Text (RuleStore × RememberOutcome) :=
  rememberInner library call.clock call.input call.confidenceOverride call.status call.sourceRepo
    call.sourceKind store

/-- A call on the rules. The store does not record feedback, which no count of captures reads. -/
def RuleStore.runScore (store : RuleStore) (call : ScoreCall) : RuleStore :=
  { store with skills := (call.run ⟨store.skills, []⟩).skills }

def ScoreWrite.apply (store : RuleStore) : ScoreWrite → RuleStore
  | .remember call =>
    match call.run library store with
    | .ok (after, _) => after
    | .error _ => store
  | .updateConfidence id raw => store.runScore (.updateConfidence id raw)
  | .sweep opts => store.runScore (.sweep opts)
  | .applySyncResult result now =>
    { store with skills := Context.applySyncResult library.toLibrary result now store.skills }
  | .backfill => { store with skills := backfillConfidence library.toLibrary store.skills }

def RememberCall.strengthens (call : RememberCall) (store : RuleStore) : Option SkillRow :=
  match validateRememberInput call.input, safeSlug (trim call.input.title),
    enforceRememberRateLimit call.clock call.input.originOf store with
  | .ok _, some slug, .ok _ =>
    match findExisting library call.clock call.input call.status
      (call.sourceRepo.map RepoScope.value) slug call.input.originOf
      (rememberSignatureHash library call.input) store.skills with
    | some (.strengthen row _ _) => some row
    | _ => none
  | _, _, _ => none

def SweepOpts.decays (opts : SweepOpts) (row : SkillRow) : Bool :=
  opts.stale row && !opts.dryRun && opts.minFloor < row.confidence

structure ScoreHistory where
  store : RuleStore
  userScored : List Text

/-- The rule of a feedback that is accepted is the user's. A rule that is strengthened or decayed is
not, and neither is one whose score or row a sync or the backfill takes away. -/
def ScoreWrite.userScored (history : ScoreHistory) : ScoreWrite → List Text
  | .remember call =>
    history.userScored.filter fun id =>
      !(call.strengthens library history.store).any fun row => row.id = id
  | .updateConfidence id raw =>
    match ConfidenceSignal.parse raw, history.store.skills.find id with
    | .ok _, some _ => id :: history.userScored
    | _, _ => history.userScored
  | .sweep opts =>
    history.userScored.filter fun id =>
      !(history.store.skills.find id).any opts.decays
  | write =>
    history.userScored.filter fun id =>
      scoreOf id (write.apply library history.store).skills = scoreOf id history.store.skills

def ScoreHistory.step (history : ScoreHistory) (write : ScoreWrite) : ScoreHistory where
  store := write.apply library history.store
  userScored := write.userScored library history

def ScoresInRange (skills : SkillTable) : Prop := ∀ row ∈ skills.rows, InRange row.confidence

def ScoreWrite.Restamps : ScoreWrite → Prop
  | .applySyncResult .. | .backfill => True
  | _ => False

def ScoreWrite.Remembers : ScoreWrite → Prop
  | .remember _ => True
  | _ => False

/-- Scores stay in range. To remember a rule lowers no score, and raises none above the cap or
itself. A sync and the backfill leave the scores that a user set last. -/
structure ScoresKept (history : ScoreHistory) (write : ScoreWrite) : Prop where
  range : ScoresInRange (write.apply library history.store).skills
  strengthened : write.Remembers → ∀ id before after,
    scoreOf id history.store.skills = some before →
      scoreOf id (write.apply library history.store).skills = some after →
        before ≤ after ∧ after ≤ max before conversationConfidenceCap
  kept : write.Restamps → ∀ id ∈ history.userScored, ∀ before after,
    scoreOf id history.store.skills = some before →
      scoreOf id (write.apply library history.store).skills = some after → after = before

def SweepOpts.Bounded (opts : SweepOpts) (score : Rat) : Prop :=
  score * opts.decayFactor ≤ 1 ∧ opts.minFloor ≤ 1 ∧
    (0 ≤ score * opts.decayFactor ∨ 0 ≤ opts.minFloor)

/-- The sync deletes the row, or all the evidence it has for the row is the score of the row. -/
def SyncAgrees (result : SyncResult) (row : SkillRow) : Prop :=
  (row.id ∈ result.deleted ∧ row.source = cloudSource) ∨
    (LooksDefault row.confidence → ∀ rule ∈ rulesOf result row.id,
      ∀ evidence ∈ evidenceOf library rule, evidence = row.confidence) ∧
    ∀ tags ∈ tagsAfter library (rulesOf result row.id) row, TagsAgree library row.confidence tags

/-- A strengthened row is not above the cap; a decay stays in range; and the scores that a user set
last do not look like the default, or the tags agree with them. -/
def Unspoiled (history : ScoreHistory) : ScoreWrite → Prop
  | .remember call =>
    ∀ row ∈ call.strengthens library history.store, row.confidence ≤ conversationConfidenceCap
  | .updateConfidence .. => True
  | .sweep opts => ∀ row ∈ history.store.skills.rows, opts.decays row → opts.Bounded row.confidence
  | .applySyncResult result _ =>
    ∀ row ∈ history.store.skills.rows, row.id ∈ history.userScored → SyncAgrees library result row
  | .backfill =>
    ∀ row ∈ history.store.skills.rows, row.id ∈ history.userScored →
      ∀ tags ∈ activeTags row, TagsAgree library row.confidence tags

/-! ## What a write does to the scores -/

section Writes

variable {library} {store : RuleStore} {skills after : SkillTable}

theorem scoresInRange_map {f : SkillRow → SkillRow}
    (hfind : ∀ id, after.find id = (skills.find id).map f) :
    ScoresInRange after ↔ ∀ row ∈ skills.rows, InRange (f row).confidence := by
  constructor
  · intro hrange row hrow
    have hafter : after.find row.id = some (f row) := by
      rw [hfind, KeyedTable.find_eq_some.mpr ⟨hrow, rfl⟩, Option.map_some]
    exact hrange _ (KeyedTable.find_eq_some.mp hafter).1
  · intro hrange row hrow
    have hafter := KeyedTable.find_eq_some.mpr ⟨hrow, rfl⟩
    rw [hfind] at hafter
    obtain ⟨old, hold, rfl⟩ := Option.map_eq_some_iff.mp hafter
    exact hrange old (KeyedTable.find_eq_some.mp hold).1

theorem scoresInRange_runScore (call : ScoreCall) : ScoresInRange (store.runScore call).skills ↔
      ∀ row ∈ store.skills.rows, InRange (call.effect row).confidence :=
  scoresInRange_map fun id => find_run call ⟨store.skills, []⟩ id

theorem inRange_apply (signal : ConfidenceSignal) (before : Rat) : InRange (signal.apply before) :=
  ⟨le_min (le_max_right _ _) zero_le_one, min_le_right _ _⟩

theorem InRange.strengthened {score : Rat} (hrange : InRange score) :
    InRange (strengthenedConfidence score) := by
  unfold strengthenedConfidence conversationConfidenceCap
  constructor
  · exact le_min (by linarith [hrange.1]) (by norm_num)
  · exact (min_le_right _ _).trans (by norm_num)

theorem find_strengthened (id : Text) (now : Stamp) (rule : Text) :
    (strengthenRule id now skills).find rule = (skills.find rule).map (strengthened id now) := by
  rw [strengthenRule, KeyedTable.find_update]
  simp only [decide_eq_true_eq]
  rfl

theorem ScoresInRange.strengthenRule (hrange : ScoresInRange skills) (id : Text) (now : Stamp) :
    ScoresInRange (Context.strengthenRule id now skills) := by
  rw [scoresInRange_map (find_strengthened id now)]
  intro row hrow
  rw [Skills.strengthened]
  split
  · exact (hrange row hrow).strengthened
  · exact hrange row hrow

theorem raised_strengthenRule_iff {row : SkillRow} (hrow : row ∈ skills.rows) (now : Stamp) :
    (∀ id before score, scoreOf id skills = some before →
        scoreOf id (strengthenRule row.id now skills) = some score →
          before ≤ score ∧ score ≤ max before conversationConfidenceCap) ↔
      row.confidence ≤ conversationConfidenceCap := by
  have hown : (strengthened row.id now row).confidence = strengthenedConfidence row.confidence := by
    rw [strengthened, if_pos rfl]
    rfl
  have hstored := KeyedTable.find_eq_some.mpr ⟨hrow, rfl⟩
  constructor
  · intro hraised
    have hown' : scoreOf row.id (strengthenRule row.id now skills) =
        some (strengthenedConfidence row.confidence) := by
      rw [scoreOf, find_strengthened, hstored, Option.map_some, Option.map_some, hown]
    have hbefore : scoreOf row.id skills = some row.confidence := by
      rw [scoreOf, hstored, Option.map_some]
    exact (hraised row.id _ _ hbefore hown').1.trans (min_le_right _ _)
  · intro hcap id before score hbefore hscore
    obtain ⟨old, hold, rfl⟩ := Option.map_eq_some_iff.mp hbefore
    rw [scoreOf, find_strengthened, hold, Option.map_some, Option.map_some] at hscore
    obtain rfl := Option.some.inj hscore
    by_cases hid : old.id = row.id
    · obtain rfl := KeyedTable.eq_of_key (KeyedTable.find_eq_some.mp hold).1 hrow hid
      rw [hown]
      exact ⟨le_min (by linarith) hcap, (min_le_right _ _).trans (le_max_right _ _)⟩
    · rw [strengthened, if_neg hid]
      exact ⟨le_rfl, le_max_left _ _⟩

theorem inRange_seedConfidence (confidenceOverride : Option Rat) :
    InRange (seedConfidence confidenceOverride) := by
  cases confidenceOverride with
  | none => exact ⟨by norm_num [seedConfidence], by norm_num [seedConfidence]⟩
  | some seed =>
    unfold seedConfidence conversationConfidenceCap
    exact ⟨le_min (le_max_right _ _) (by norm_num), (min_le_right _ _).trans (by norm_num)⟩

theorem inRange_decayed_iff (opts : SweepOpts) (score : Rat) :
    InRange (opts.decayed score) ↔ opts.Bounded score := by
  unfold InRange SweepOpts.decayed SweepOpts.Bounded
  rw [le_max_iff, max_le_iff, and_comm, and_assoc]

/-- A call strengthens a row, or it inserts one in range, or it leaves the rules. -/
inductive Remembered (library : RememberLibrary) (call : RememberCall) (store : RuleStore)
    (after : SkillTable) : Prop
  | strengthened (row : SkillRow) (hrow : row ∈ store.skills.rows)
      (hcall : call.strengthens library store = some row)
      (hafter : after = strengthenRule row.id call.clock.now store.skills)
  | inserted (rule : RememberedRule) (hcall : call.strengthens library store = none)
      (hfresh : rule.id ∉ store.skills.keys) (hrange : InRange rule.confidence)
      (hafter : after = rememberRule library.toLibrary rule call.clock.now store.skills)
  | unchanged (hcall : call.strengthens library store = none) (hafter : after = store.skills)

theorem run_of_checked {call : RememberCall} {slug : Text}
    (hvalid : validateRememberInput call.input = .ok ())
    (hslug : safeSlug (trim call.input.title) = some slug)
    (hlimit : enforceRememberRateLimit call.clock call.input.originOf store = .ok ()) :
    call.run library store = match findExisting library call.clock call.input call.status
      (call.sourceRepo.map RepoScope.value) slug call.input.originOf
      (rememberSignatureHash library call.input) store.skills with
    | some rung => rung.apply call.clock call.status call.input.originOf store
    | none => insertFresh library call.clock call.input call.status call.input.originOf
        (freshRule library call.clock call.input call.confidenceOverride call.status
          (call.sourceRepo.map RepoScope.value) call.sourceKind slug call.input.originOf
          (rememberSignatureHash library call.input)) store := by
  rw [RememberRuleInput.originOf] at hlimit ⊢
  simp only [RememberCall.run, rememberInner, hvalid, hslug, hlimit, bind, Except.bind] <;> rfl

theorem strengthens_of_checked {call : RememberCall} {slug : Text}
    (hvalid : validateRememberInput call.input = .ok ())
    (hslug : safeSlug (trim call.input.title) = some slug)
    (hlimit : enforceRememberRateLimit call.clock call.input.originOf store = .ok ()) :
    call.strengthens library store = match findExisting library call.clock call.input
      call.status (call.sourceRepo.map RepoScope.value) slug call.input.originOf
      (rememberSignatureHash library call.input) store.skills with
    | some (.strengthen row _ _) => some row
    | _ => none := by
  simp only [RememberCall.strengthens, hvalid, hslug, hlimit]

theorem remembered_of_checked {call : RememberCall} {slug : Text}
    (hvalid : validateRememberInput call.input = .ok ())
    (hslug : safeSlug (trim call.input.title) = some slug)
    (hlimit : enforceRememberRateLimit call.clock call.input.originOf store = .ok ()) :
    Remembered library call store (ScoreWrite.apply library store (.remember call)).skills := by
  have hrun : call.run library store = _ := run_of_checked hvalid hslug hlimit
  have hcall : call.strengthens library store = _ := strengthens_of_checked hvalid hslug hlimit
  unfold ScoreWrite.apply
  cases hfind : findExisting library call.clock call.input call.status
      (call.sourceRepo.map RepoScope.value) slug call.input.originOf
      (rememberSignatureHash library call.input) store.skills with
  | none =>
    simp only [hfind] at hrun hcall
    simp only [hrun]
    cases hinsert : insertFresh library call.clock call.input call.status call.input.originOf
        (freshRule library call.clock call.input call.confidenceOverride call.status
          (call.sourceRepo.map RepoScope.value) call.sourceKind slug call.input.originOf
          (rememberSignatureHash library call.input)) store with
    | error err => exact .unchanged hcall rfl
    | ok result =>
      obtain ⟨hfresh, hafter, -⟩ := insertFresh_eq_ok hinsert
      exact .inserted _ hcall hfresh (inRange_seedConfidence _) hafter
  | some rung =>
    have hof := allOf_findExisting call.clock call.input call.status _ slug _ _ rung hfind
    simp only [hfind] at hrun hcall
    simp only [hrun]
    cases rung with
    | matchedActive row =>
      refine .unchanged hcall ?_
      have hfetch := fetchSkillRowById_eq_ok.mpr (KeyedTable.find_eq_some.mpr ⟨hof.1, rfl⟩)
      simp only [Rung.apply, hfetch, bind, Except.bind, pure, Except.pure]
    | strengthen row reason windowHit =>
      refine .strengthened row hof.1 hcall ?_
      have hfetch := fetchSkillRowById_eq_ok.mpr (find_strengthenRule hof.1 call.clock.now)
      simp only [Rung.apply, strengthenExisting, hfetch, bind, Except.bind, pure, Except.pure]

variable (library store) in
theorem remembered_apply (call : RememberCall) :
    Remembered library call store (ScoreWrite.apply library store (.remember call)).skills := by
  cases hvalid : validateRememberInput call.input with
  | error err =>
    refine .unchanged (by simp only [RememberCall.strengthens, hvalid]) ?_
    simp only [ScoreWrite.apply, RememberCall.run, rememberInner, hvalid, bind, Except.bind]
  | ok _ =>
    cases hslug : safeSlug (trim call.input.title) with
    | none =>
      refine .unchanged (by simp only [RememberCall.strengthens, hvalid, hslug]) ?_
      simp only [ScoreWrite.apply, RememberCall.run, rememberInner, hvalid, hslug, bind,
        Except.bind, throw, throwThe, MonadExceptOf.throw]
    | some slug =>
      cases hlimit : enforceRememberRateLimit call.clock call.input.originOf store with
      | error err =>
        refine .unchanged (by simp only [RememberCall.strengthens, hvalid, hslug, hlimit]) ?_
        rw [RememberRuleInput.originOf] at hlimit
        simp only [ScoreWrite.apply, RememberCall.run, rememberInner, hvalid, hslug, hlimit,
          bind, Except.bind]
      | ok _ => exact remembered_of_checked hvalid hslug hlimit

end Writes

section Restamped

variable {library} {skills : SkillTable}

section

variable (hrange : ScoresInRange skills)
include hrange

theorem ScoresInRange.backfill :
    ScoresInRange (backfillConfidence library.toLibrary skills) := by
  rw [scoresInRange_map find_backfillConfidence]
  exact fun row hrow => (hrange row hrow).backfillScore library

theorem ScoresInRange.update
    {condition : SkillRow → Bool} {set : SkillRow → SkillRow} {hset : ∀ row, (set row).id = row.id}
    (hscore : ∀ row, InRange row.confidence → InRange (set row).confidence) :
    ScoresInRange (skills.update condition set hset) := by
  intro row hrow
  obtain ⟨old, hold, rfl⟩ := KeyedTable.mem_update.mp hrow
  split
  · exact hscore old (hrange old hold)
  · exact hrange old hold

theorem ScoresInRange.stored (rule : SyncedRule) :
    ScoresInRange (stampConfidence library.toLibrary rule (applyCloudSourceRepo rule skills)) := by
  have hbound : ScoresInRange (applyCloudSourceRepo rule skills) := by
    unfold applyCloudSourceRepo
    split
    · exact hrange
    · exact hrange.update fun _ hscore => hscore
  unfold stampConfidence
  split
  · exact hbound
  next confidence hsome =>
    exact hbound.update fun _ _ => (isEvidence_confidenceFromTags hsome).1

theorem ScoresInRange.syncStep (now : Stamp)
    (step : SyncStep) : ScoresInRange (step.apply library.toLibrary now skills) := by
  cases step with
  | created rule =>
    refine ScoresInRange.stored ?_ rule
    intro row hrow
    rcases KeyedTable.mem_upsert.mp hrow with ⟨hold, -⟩ | rfl
    · exact hrange row hold
    · unfold KeyedTable.upserted
      cases hfind : skills.find (rule.newRow library.toLibrary now).id with
      | none => exact ⟨by norm_num [SyncedRule.newRow], by norm_num [SyncedRule.newRow]⟩
      | some old =>
        have hscore := hrange old (KeyedTable.find_eq_some.mp hfind).1
        rw [Option.elim_some]
        split
        · exact hscore
        · exact hscore
  | updated rule =>
    have hupdated : ScoresInRange (updateSynced library.toLibrary rule now skills) :=
      hrange.update fun _ hscore => hscore
    exact hupdated.stored rule

theorem ScoresInRange.applySyncResult (result : SyncResult) (now : Stamp) :
    ScoresInRange (Context.applySyncResult library.toLibrary result now skills) := by
  rw [Context.applySyncResult, applySyncRules_eq]
  refine ScoresInRange.backfill ?_
  have hsteps : ∀ steps : List SyncStep,
      ScoresInRange (steps.foldl (SyncStep.apply library.toLibrary now) skills) := by
    intro steps
    induction steps using List.reverseRecOn with
    | nil => exact hrange
    | append_singleton steps step ih =>
      rw [List.foldl_append]
      exact ih.syncStep now step
  intro row hrow
  have hfind := KeyedTable.find_eq_some.mpr ⟨hrow, rfl⟩
  rw [find_deleted] at hfind
  exact hsteps _ row (KeyedTable.find_eq_some.mp (Option.filter_eq_some_iff.mp hfind).1).1

end

variable (library) in
theorem scoreOf_applySyncResult (result : SyncResult) (now : Stamp)
    {row : SkillRow} (hrow : row ∈ skills.rows) :
    scoreOf row.id (Context.applySyncResult library.toLibrary result now skills) =
      if row.id ∈ result.deleted ∧ row.source = cloudSource then none
      else some (backfillScore library (tagsAfter library (rulesOf result row.id) row)
        (((rulesOf result row.id).map (evidenceOf library)).foldl stampScore row.confidence)) := by
  obtain ⟨stored, hstored, hsynced⟩ := syncedOnto_steps library now result.steps
    (KeyedTable.find_eq_some.mpr ⟨hrow, rfl⟩)
  rw [Context.applySyncResult, scoreOf, find_backfillConfidence, applySyncRules_eq, find_deleted,
    hstored, Option.filter_some, hsynced.source]
  by_cases hdeleted : row.id ∈ result.deleted ∧ row.source = cloudSource
  · rw [if_pos hdeleted, decide_eq_true hdeleted.1, decide_eq_true hdeleted.2]
    rfl
  · rw [if_neg hdeleted, if_pos (by simpa [not_and_or] using not_and_or.mp hdeleted),
      Option.map_some, Option.map_some, hsynced.tags, hsynced.confidence]
    rfl

theorem kept_iff {after : SkillTable} {left : SkillRow → Option Rat} (userScored : List Text)
    (hleft : ∀ row ∈ skills.rows, scoreOf row.id after = left row) :
    (∀ id ∈ userScored, ∀ before score, scoreOf id skills = some before →
        scoreOf id after = some score → score = before) ↔
      ∀ row ∈ skills.rows, row.id ∈ userScored → ∀ score ∈ left row, score = row.confidence := by
  constructor
  · intro hkept row hrow huser score hscore
    have hstored := KeyedTable.find_eq_some.mpr ⟨hrow, rfl⟩
    exact hkept row.id huser row.confidence score (by rw [scoreOf, hstored, Option.map_some])
      ((hleft row hrow).trans hscore)
  · intro hkept id huser before score hbefore hscore
    obtain ⟨row, hfind, rfl⟩ := Option.map_eq_some_iff.mp hbefore
    obtain ⟨hrow, rfl⟩ := KeyedTable.find_eq_some.mp hfind
    exact hkept row hrow huser score ((hleft row hrow).symm.trans hscore)

end Restamped

/-! ## The promise of each write -/

variable {library}

section Promise

variable {history : ScoreHistory}

section

variable (hrange : ScoresInRange history.store.skills)
include hrange

theorem scoresKept_remember_iff (call : RememberCall) :
    ScoresKept library history (.remember call) ↔ Unspoiled library history (.remember call) := by
  rw [Unspoiled]
  cases remembered_apply library history.store call with
  | strengthened row hrow hcall hafter =>
    have hcap := raised_strengthenRule_iff hrow call.clock.now
    rw [← hafter] at hcap
    simp only [hcall, Option.mem_some_iff, forall_eq']
    rw [← hcap]
    constructor
    · exact fun hkept => hkept.strengthened trivial
    · intro hraised
      refine ⟨?_, fun _ => hraised, False.elim⟩
      rw [hafter]
      exact hrange.strengthenRule row.id call.clock.now
  | inserted rule hcall hfresh hseed hafter =>
    refine iff_of_true ⟨?_, ?_, False.elim⟩ (by simp [hcall])
    · intro row hrow
      rw [hafter, rows_rememberRule hfresh, List.mem_append, List.mem_singleton] at hrow
      rcases hrow with hold | rfl
      · exact hrange row hold
      · exact hseed
    · intro _ id before after hbefore hafter'
      obtain ⟨old, hold, rfl⟩ := Option.map_eq_some_iff.mp hbefore
      rw [hafter, scoreOf, rememberRule, KeyedTable.find_insertOrIgnore, hold] at hafter'
      have hsame : after = old.confidence := by
        split at hafter' <;> exact (Option.some.inj hafter').symm
      rw [hsame]
      exact ⟨le_rfl, le_max_left _ _⟩
  | unchanged hcall hafter =>
    refine iff_of_true ⟨?_, ?_, False.elim⟩ (by simp [hcall])
    · rw [hafter]
      exact hrange
    · intro _ id before after hbefore hafter'
      rw [hafter, hbefore] at hafter'
      obtain rfl := Option.some.inj hafter'
      exact ⟨le_rfl, le_max_left _ _⟩

theorem scoresKept_updateConfidence (id raw : Text) :
    ScoresKept library history (.updateConfidence id raw) := by
  refine ⟨?_, False.elim, False.elim⟩
  rw [ScoreWrite.apply, scoresInRange_runScore]
  intro row hrow
  simp only [ScoreCall.effect]
  cases ConfidenceSignal.parse raw with
  | error message => exact hrange row hrow
  | ok signal =>
    dsimp only
    split
    · exact inRange_apply signal row.confidence
    · exact hrange row hrow

theorem scoresKept_sweep_iff (opts : SweepOpts) :
    ScoresKept library history (.sweep opts) ↔ Unspoiled library history (.sweep opts) := by
  have hrow : ∀ row ∈ history.store.skills.rows,
      InRange ((ScoreCall.sweep opts).effect row).confidence ↔
        (opts.decays row → opts.Bounded row.confidence) := by
    intro row hrow
    simp only [ScoreCall.effect, SweepOpts.decays]
    split
    next hdecays =>
      rw [forall_prop_of_true hdecays]
      exact inRange_decayed_iff opts row.confidence
    next hspared => exact iff_of_true (hrange row hrow) fun hdecays => absurd hdecays hspared
  rw [Unspoiled, ← forall₂_congr hrow, ← scoresInRange_runScore]
  exact ⟨fun hkept => hkept.range, fun hafter => ⟨hafter, False.elim, False.elim⟩⟩

theorem scoresKept_backfill_iff :
    ScoresKept library history .backfill ↔ Unspoiled library history .backfill := by
  have hleft : ∀ row ∈ history.store.skills.rows,
      scoreOf row.id (ScoreWrite.apply library history.store .backfill).skills =
        some (backfillScore library (activeTags row) row.confidence) := by
    intro row hrow
    have hstored := KeyedTable.find_eq_some.mpr ⟨hrow, rfl⟩
    rw [ScoreWrite.apply, scoreOf, find_backfillConfidence, hstored]
    rfl
  have hagree := kept_iff history.userScored hleft
  simp only [Option.mem_some_iff, forall_eq', backfillScore_eq_iff] at hagree
  rw [Unspoiled, ← hagree]
  exact ⟨fun hkept => hkept.kept trivial,
    fun hkept => ⟨hrange.backfill, False.elim, fun _ => hkept⟩⟩

theorem scoresKept_applySyncResult_iff (result : SyncResult) (now : Stamp) :
    ScoresKept library history (.applySyncResult result now) ↔
      Unspoiled library history (.applySyncResult result now) := by
  have hagree := kept_iff history.userScored fun row (hrow : row ∈ history.store.skills.rows) =>
    scoreOf_applySyncResult library result now hrow
  have hrow : ∀ row ∈ history.store.skills.rows, row.id ∈ history.userScored →
      ((∀ score ∈ (if row.id ∈ result.deleted ∧ row.source = cloudSource then none
        else some (backfillScore library (tagsAfter library (rulesOf result row.id) row)
          (((rulesOf result row.id).map (evidenceOf library)).foldl stampScore row.confidence)) :
            Option Rat), score = row.confidence) ↔ SyncAgrees library result row) := by
    intro row _ _
    have hstamps : ∀ stamp ∈ (rulesOf result row.id).map (evidenceOf library),
        ∀ e ∈ stamp, IsEvidence e := by
      intro stamp hstamp e he
      obtain ⟨rule, _, rfl⟩ := List.mem_map.mp hstamp
      exact isEvidence_confidenceFromTags he
    unfold SyncAgrees
    by_cases hdeleted : row.id ∈ result.deleted ∧ row.source = cloudSource
    · simp [hdeleted]
    · rw [if_neg hdeleted, or_iff_right hdeleted]
      simp only [Option.mem_some_iff, forall_eq', restamped_eq_iff library hstamps,
        List.forall_mem_map]
  rw [forall₃_congr hrow] at hagree
  rw [Unspoiled, ← hagree]
  exact ⟨fun hkept => hkept.kept trivial,
    fun hkept => ⟨hrange.applySyncResult result now, False.elim, fun _ => hkept⟩⟩

theorem scoresKept_iff (write : ScoreWrite) :
    ScoresKept library history write ↔ Unspoiled library history write := by
  cases write with
  | remember call => exact scoresKept_remember_iff hrange call
  | updateConfidence id raw => exact iff_of_true (scoresKept_updateConfidence hrange id raw) trivial
  | sweep opts => exact scoresKept_sweep_iff hrange opts
  | applySyncResult result now => exact scoresKept_applySyncResult_iff hrange result now
  | backfill => exact scoresKept_backfill_iff hrange

end

end Promise

/-- A history that starts with scores in range keeps what it promises in each write exactly if no
write is spoiled. -/
theorem scores_kept_iff {store : RuleStore} (hrange : ScoresInRange store.skills)
    (writes : List ScoreWrite) :
    EachStep (ScoreHistory.step library) (ScoresKept library) ⟨store, []⟩ writes ↔
      EachStep (ScoreHistory.step library) (Unspoiled library) ⟨store, []⟩ writes := by
  have hstep : ∀ (history : ScoreHistory) (write : ScoreWrite),
      ScoresInRange history.store.skills → ScoresKept library history write →
        ScoresInRange (history.step library write).store.skills :=
    fun _ _ _ hkept => hkept.range
  exact EachStep.iff_of_invariant hstep (fun _ write hrange => scoresKept_iff hrange write) hrange
    writes

def clusterTags : RememberLibrary :=
  { twoLetters with
    jsonStrings := fun json =>
      if json = "[\"cluster-size:5\"]" then some ["cluster-size:5"] else none }

/-- A reviewed rule at the default, with the evidence of a cluster. -/
def clusterStore : RuleStore where
  skills := KeyedTable.empty.insertOrIgnore
    { id := ['r']
      name := ['t']
      source := localSource
      version := firstVersion
      description := ['b']
      tags := "[\"cluster-size:5\"]"
      origin := prReviewOrigin
      contentHash := some (twoLetters.sha256Hex [])
      installedAt := []
      updatedAt := [] }
  events := []
  examples := []
  rejected := []

def reviewCall : RememberCall where
  clock := noon
  input := reviewInput
  confidenceOverride := none
  status := .active
  sourceRepo := none
  sourceKind := none

def accept : ScoreWrite := .updateConfidence ['r'] "accept"

def reject : ScoreWrite := .updateConfidence ['r'] "reject"

def sweepBy (decayFactor : Rat) : SweepOpts where
  old _ := true
  served _ := false
  accepted _ := false
  decayFactor
  dryRun := false
  minFloor := 1 / 20
  now := []

theorem scoresInRange_clusterStore : ScoresInRange clusterStore.skills := by
  have hscores : ∀ row ∈ clusterStore.skills.rows, 0 ≤ row.confidence ∧ row.confidence ≤ 1 := by
    decide +kernel
  exact hscores

/-- The user rejects a rule and accepts it twice, and the backfill takes the score for the default.
An accepted rule is remembered again, and loses the acceptance. A decay by two leaves the range. -/
theorem scores_not_kept : ScoresInRange clusterStore.skills ∧
      (¬ EachStep (ScoreHistory.step clusterTags) (ScoresKept clusterTags) ⟨clusterStore, []⟩
        [reject, accept, accept, .backfill]) ∧
      (¬ EachStep (ScoreHistory.step clusterTags) (ScoresKept clusterTags) ⟨clusterStore, []⟩
        [accept, .remember reviewCall]) ∧
      ¬ EachStep (ScoreHistory.step clusterTags) (ScoresKept clusterTags) ⟨clusterStore, []⟩
        [.sweep (sweepBy 2)] := by
  refine ⟨scoresInRange_clusterStore, ?_, ?_, ?_⟩
  · rintro ⟨-, -, -, hkept, -⟩
    have hsame : (9 / 10 : Rat) = 7 / 10 := hkept.kept trivial ['r'] (by decide +kernel) (7 / 10)
      (9 / 10) (by decide +kernel) (by decide +kernel)
    norm_num at hsame
  · rintro ⟨-, hkept, -⟩
    have hraised : (3 / 4 : Rat) ≤ 7 / 10 := (hkept.strengthened trivial ['r'] (3 / 4) (7 / 10)
      (by decide +kernel) (by decide +kernel)).1
    norm_num at hraised
  · rintro ⟨hkept, -⟩
    have hscores : ∃ row ∈
        ((ScoreWrite.sweep (sweepBy 2)).apply clusterTags clusterStore).skills.rows,
          1 < row.confidence := by
      decide +kernel
    obtain ⟨row, hrow, habove⟩ := hscores
    exact absurd (hkept.range row hrow).2 (not_le.mpr habove)

theorem scores_kept_rejected : ScoresInRange clusterStore.skills ∧
      EachStep (ScoreHistory.step clusterTags) (ScoresKept clusterTags) ⟨clusterStore, []⟩
        [reject, .backfill, .remember reviewCall] := by
  refine ⟨scoresInRange_clusterStore,
    (scores_kept_iff scoresInRange_clusterStore _).mpr ⟨trivial, ?_, ?_, trivial⟩⟩
  · intro row hrow _ tags _ hnear
    have hscores : ∀ row ∈ (reject.apply clusterTags clusterStore).skills.rows,
        row.confidence = 3 / 5 := by
      decide +kernel
    rw [hscores row hrow] at hnear
    norm_num [abs_le] at hnear
  · intro row hrow
    have hscores : ∀ row ∈ reviewCall.strengthens clusterTags
        (ScoreWrite.backfill.apply clusterTags (reject.apply clusterTags clusterStore)),
          row.confidence = 3 / 5 := by
      decide +kernel
    rw [hscores row hrow]
    norm_num [conversationConfidenceCap]

end Difflore.Skills

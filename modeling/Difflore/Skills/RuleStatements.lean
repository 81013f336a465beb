import Difflore.Skills.RepoCapture
import Difflore.Skills.ScoreCalls

/-! # Promotion and capture by statements

A promotion and an active capture read, decide and write by statements of their own. Run alone they
are the promotion and the capture of the sequential model.
-/

namespace Difflore.Skills

open Foundation Text Infra Context

variable {clock : CallClock} {row : SkillRow} {origin : Text}

inductive RuleQuery
  | draft (id : Text)
  | statusOf (id : Text)
  | activeContent (hash : Text)
  /-- The transaction of `promote_candidate`. -/
  | activate (id : Text)
  | captures (clock : CallClock) (origin : Text)
  | content (hash : Text) (repo : Option Text)
  | window (clock : CallClock) (hash : Text)
  | titled (slug : Text)
  | score (id : Text)
  | setScore (id : Text) (score : Rat) (now : Stamp)
  | recordEvent (event : RuleEvent)
  | insert (rule : RememberedRule) (now : Stamp)
  | attach (examples : List RuleExample)
  | fetch (id : Text)

def RuleQuery.Answer : RuleQuery → Type
  | .draft _ => Option SkillRow
  | .statusOf _ => Option SkillStatus
  | .activeContent _ => Option SkillRow
  | .activate _ => Option SkillRow
  | .captures .. => Nat
  | .content .. => Option SkillRow
  | .window .. => Option SkillRow
  | .titled _ => List SkillRow
  | .score _ => Option Rat
  | .setScore .. => Unit
  | .recordEvent _ => Unit
  | .insert .. => Bool
  | .attach _ => Unit
  | .fetch _ => Option SkillRow

def activeWith (hash : Text) (row : SkillRow) : Bool :=
  row.status = .active && row.contentHash = some hash

theorem id_activated (row : SkillRow) : ({ row with
    status := .active
    enabled := if row.importedReview then allEngines else row.enabled } : SkillRow).id = row.id :=
  rfl

/-- `UPDATE skills SET status = 'active', … WHERE id AND status = 'pending'`. -/
def activateDraft (id : Text) (skills : SkillTable) : SkillTable :=
  skills.update (fun row => row.id = id && row.status = .pending)
    (fun row => { row with
      status := .active
      enabled := if row.importedReview then allEngines else row.enabled })
    id_activated

def titledRows (slug : Text) (skills : SkillTable) : List SkillRow :=
  (query oldestInstall (ofSlug slug .active) skills).take slugLimit

variable (library : RememberLibrary)

def serveRule (store : RuleStore) : (query : RuleQuery) → query.Answer × RuleStore
  | .draft id => ((store.skills.find id).filter fun row => row.status = .pending, store)
  | .statusOf id => ((store.skills.find id).map SkillRow.status, store)
  | .activeContent hash => ((query oldestInstall (activeWith hash) store.skills).head?, store)
  | .activate id =>
    if (store.skills.find id).any fun row => row.status = .pending then
      let after := activateDraft id store.skills
      (after.find id, { store with skills := after })
    else (none, store)
  | .captures clock origin => (countCapturesToday clock origin store, store)
  | .content hash repo => (findByContentHash hash .active repo store.skills, store)
  | .window clock hash => (findInWindow clock hash .active store.skills, store)
  | .titled slug => (titledRows slug store.skills, store)
  | .score id => (scoreOf id store.skills, store)
  | .setScore id score now => ((), { store with skills := setScore id score now store.skills })
  | .recordEvent event => ((), { store with events := store.events ++ [event] })
  | .insert rule now =>
    if rule.id ∈ store.skills.keys then (false, store)
    else (true, { store with skills := rememberRule library.toLibrary rule now store.skills })
  | .attach examples => ((), { store with examples := store.examples ++ examples })
  | .fetch id => (store.skills.find id, store)

/-! ## Programs -/

inductive RuleResult
  | promoted (skill : SkillRow)
  | refused (activeId : Text)
  | remembered (outcome : RememberOutcome)
  | missing
  | failed (message : Text)

abbrev RuleProgram := Program RuleQuery RuleQuery.Answer RuleResult

def explainDraft (id : Text) : RuleProgram :=
  .ask (.statusOf id) fun (status : Option SkillStatus) =>
    .done (.failed (if status = some .active then alreadyActiveError id else unknownDraftError id))

def activateProgram (id : Text) : RuleProgram := .ask (.activate id) fun
    | some skill => .done (.promoted skill)
    | none => explainDraft id

def draftHash (row : SkillRow) : Option Text := (row.contentHash.map trim).filter (· ≠ [])

/-- `promote_candidate`; `duplicateDraftError` is the text of a refusal. -/
def promoteProgram (id : Text) : RuleProgram := .ask (.draft id) fun
    | none => explainDraft id
    | some row =>
      match draftHash row with
      | none => activateProgram id
      | some hash =>
        .ask (.activeContent hash) fun
          | some active => .done (.refused active.id)
          | none => activateProgram id

/-- `count_captures_today` asks for conversations only. -/
def countCaptures (clock : CallClock) (origin : Text) (next : Nat → RuleProgram) : RuleProgram :=
  if origin ≠ conversation then next 0 else .ask (.captures clock origin) next

def fetchRule (id : Text) (next : SkillRow → RuleProgram) : RuleProgram := .ask (.fetch id) fun
    | none => .done (.failed (missingSkill id))
    | some skill => next skill

/-- `strengthen_dedup_outcome`. -/
def strengthenRow (clock : CallClock) (origin : Text) (row : SkillRow) (reason : Text)
    (windowHit : Bool) : RuleProgram :=
  .ask (.score row.id) fun
    | none => .done .missing
    | some before =>
      .ask (.setScore row.id (strengthenedConfidence before) clock.now) fun _ =>
        .ask (.recordEvent
          { skillId := row.id
            kind := .feedbackAccept
            confidenceBefore := some before
            confidenceAfter := some (strengthenedConfidence before)
            reason
            status := .active
            createdAt := clock.now }) fun _ =>
          fetchRule row.id fun skill => countCaptures clock origin fun capturesToday =>
            .done (.remembered
              { skill
                deduped := true
                dedupWindowHit := windowHit
                matchedExistingActive := false
                confidenceAfter := strengthenedConfidence before
                capturesToday })

def insertRule (clock : CallClock) (origin : Text) (rule : RememberedRule)
    (examples : List RuleExample) : RuleProgram :=
  .ask (.insert rule clock.now) fun
    | false => .done (.failed (takenIdError rule.id))
    | true =>
      .ask (.recordEvent
        { skillId := rule.id
          kind := .captureProvenance
          confidenceBefore := none
          confidenceAfter := none
          reason := captureReason .active
          status := .active
          createdAt := clock.now }) fun _ =>
        .ask (.attach examples) fun _ =>
          fetchRule rule.id fun skill => countCaptures clock origin fun capturesToday =>
            .done (.remembered
              { skill
                deduped := false
                dedupWindowHit := false
                matchedExistingActive := false
                confidenceAfter := rule.confidence
                capturesToday })

/-- An active call of `remember_inner`. -/
structure ActiveCapture where
  clock : CallClock
  input : RememberRuleInput
  confidenceOverride : Option Rat
  sourceRepo : Option RepoScope
  sourceKind : Option Text

def ActiveCapture.repo (capture : ActiveCapture) : Option Text :=
  capture.sourceRepo.map RepoScope.value

def ActiveCapture.rule (capture : ActiveCapture) (slug : Text) : RememberedRule :=
  freshRule library capture.clock capture.input capture.confidenceOverride .active capture.repo
    capture.sourceKind slug capture.input.originOf (rememberSignatureHash library capture.input)

def ActiveCapture.windowProgram (capture : ActiveCapture) (slug : Text) : RuleProgram :=
  .ask (.window capture.clock (rememberSignatureHash library capture.input)) fun
    | some row => strengthenRow capture.clock capture.input.originOf row windowReason true
    | none =>
      .ask (.titled slug) fun rows =>
        match rows.find? (similar library (canonicalFilePatternsCsv capture.input.filePatterns)
            (sanitizedBody library capture.input.body)) with
        | some row => strengthenRow capture.clock capture.input.originOf row titleReason false
        | none =>
          insertRule capture.clock capture.input.originOf (capture.rule library slug)
            (newExamples library capture.input (capture.rule library slug).id
              capture.input.originOf)

def ActiveCapture.ladderProgram (capture : ActiveCapture) (slug : Text) : RuleProgram :=
  if capture.input.originOf ≠ conversation then
    .ask (.content (rememberSignatureHash library capture.input) capture.repo) fun
      | some row =>
        strengthenRow capture.clock capture.input.originOf row importHashReason false
      | none => capture.windowProgram library slug
  else capture.windowProgram library slug

/-- `remember_inner` for an active rule. -/
def ActiveCapture.program (capture : ActiveCapture) : RuleProgram :=
  match validateRememberInput capture.input with
  | .error message => .done (.failed message)
  | .ok _ =>
    match safeSlug (trim capture.input.title) with
    | none => .done (.failed emptySlugError)
    | some slug =>
      countCaptures capture.clock capture.input.originOf fun captures =>
        if capture.input.originOf = conversation && dailyLimit ≤ captures then
          .done (.failed (dailyCapError captures))
        else capture.ladderProgram library slug

/-! ## Alone -/

section Alone

variable {library} {store : RuleStore} {id : Text}

theorem ext_rows {first second : SkillTable} (hrows : first.rows = second.rows) :
    first = second := by
  cases first
  cases second
  cases hrows
  rfl

theorem activateProgram_run (store : RuleStore) (id : Text) :
    ((activateProgram id).run (serveRule library) store).2 =
      (serveRule library store (.activate id)).2 := by
  simp only [activateProgram, Program.run]
  split
  · rfl
  · rfl

theorem activeDuplicate_eq (row : SkillRow) (skills : SkillTable) : activeDuplicate row skills =
    (draftHash row).bind fun hash => (query oldestInstall (activeWith hash) skills).head? := rfl

theorem mem_draftHash {hash : Text} :
    hash ∈ draftHash row ↔ ∃ stored ∈ row.contentHash, trim stored = hash ∧ hash ≠ [] := by
  simp only [draftHash, Option.mem_def, Option.filter_eq_some_iff, Option.map_eq_some_iff,
    decide_eq_true_eq]
  constructor
  · rintro ⟨⟨stored, hstored, htrim⟩, hne⟩
    exact ⟨stored, hstored, htrim, hne⟩
  · rintro ⟨stored, hstored, htrim, hne⟩
    exact ⟨⟨stored, hstored, htrim⟩, hne⟩

theorem activeDuplicate_congr {skills base : SkillTable} (hactive :
      skills.rows.filter (·.status = .active) = base.rows.filter (·.status = .active))
    {row draft : SkillRow} (hhash : row.contentHash = draft.contentHash) :
    activeDuplicate row skills = activeDuplicate draft base := by
  have hquery : ∀ (hash : Text) (table : SkillTable), query oldestInstall (activeWith hash) table =
      ((table.rows.filter (·.status = .active)).filter (activeWith hash)).insertionSort
        (oldestInstall · ·) := by
    intro hash table
    rw [List.filter_filter, query]
    congr 2
    funext row
    by_cases hactive : row.status = .active <;> simp [activeWith, hactive]
  rw [activeDuplicate_eq, activeDuplicate_eq, draftHash, draftHash, hhash]
  simp only [hquery, hactive]

theorem activateDraft_eq (hrow : store.skills.find id = some row)
    (hnone : activeDuplicate row store.skills = none) :
    activateDraft id store.skills = promoteCandidate id store.skills := by
  refine ext_rows (List.map_congr_left fun other hother => ?_)
  by_cases hid : other.id = id
  · obtain rfl : other = row := by
      rw [← hid, KeyedTable.find_eq_some.mpr ⟨hother, rfl⟩] at hrow
      exact Option.some.inj hrow
    have hfree : (other.contentHash.any fun hash => trim hash ≠ [] &&
        store.skills.rows.any fun active =>
          active.status = .active && active.contentHash = some (trim hash)) = false := by
      rw [Option.any_eq_false]
      intro stored hstored
      by_cases hblank : trim stored = []
      · simp [hblank]
      · have hhash : draftHash other = some (trim stored) :=
          mem_draftHash.mpr ⟨stored, hstored, rfl, hblank⟩
        rw [activeDuplicate_eq, hhash, Option.bind_some, head?_query_eq_none] at hnone
        rw [Bool.and_eq_false_iff, List.any_eq_false]
        exact .inr hnone
    simp only [hfree, Bool.not_false, Bool.and_true]
  · simp only [hid, decide_false, Bool.false_and]

/-- The promotion of the sequential model is the program, run alone. -/
theorem promoteProgram_run (store : RuleStore) (id : Text) :
    ((promoteProgram id).run (serveRule library) store).2 = tryPromote store id := by
  simp only [promoteProgram, tryPromote, promoteDraft, Program.run, serveRule]
  cases hfind : store.skills.find id with
  | none => rfl
  | some row =>
    by_cases hpending : row.status = .pending
    · have hactivate : (serveRule library store (.activate id)).2 =
          { store with skills := activateDraft id store.skills } := by
        simp [serveRule, hfind, hpending]
      simp only [Option.filter_some, hpending, decide_true, if_true]
      cases hhash : draftHash row with
      | none =>
        have hnone : activeDuplicate row store.skills = none := by
          rw [activeDuplicate_eq, hhash, Option.bind_none]
        simp only [hnone, Except.toOption, Option.getD_some]
        rw [activateProgram_run, hactivate, activateDraft_eq hfind hnone]
      | some hash =>
        simp only [Program.run, serveRule]
        have hdup : activeDuplicate row store.skills =
            (query oldestInstall (activeWith hash) store.skills).head? := by
          rw [activeDuplicate_eq, hhash, Option.bind_some]
        rw [hdup]
        cases hactive : (query oldestInstall (activeWith hash) store.skills).head? with
        | some active => rfl
        | none =>
          simp only [Except.toOption, Option.getD_some]
          rw [activateProgram_run, hactivate, activateDraft_eq hfind (hdup.trans hactive)]
    · simp only [Option.filter_some, hpending, decide_false, Bool.false_eq_true, if_false]
      by_cases hactive : row.status = .active
      · simp only [hactive, if_true, Except.toOption]
        rfl
      · simp only [hactive, if_false, Except.toOption]
        rfl

theorem countCaptures_run (clock : CallClock) (origin : Text) (next : Nat → RuleProgram)
    (store : RuleStore) : (countCaptures clock origin next).run (serveRule library) store =
      (next (countCapturesToday clock origin store)).run (serveRule library) store := by
  by_cases horigin : origin = conversation
  · rw [countCaptures, if_neg (not_not.mpr horigin)]
    rfl
  · rw [countCaptures, if_pos horigin, countCapturesToday, if_pos horigin]

theorem fetchRule_run {next : SkillRow → RuleProgram} (hfind : store.skills.find id = some row) :
    (fetchRule id next).run (serveRule library) store =
      (next row).run (serveRule library) store := by
  simp only [fetchRule, Program.run, serveRule, hfind]

theorem strengthenRow_run {reason : Text} {windowHit : Bool} (hrow : row ∈ store.skills.rows) :
    ((strengthenRow clock origin row reason windowHit).run (serveRule library) store).2 =
      strengthenExisting clock row reason .active store := by
  have hfind : store.skills.find row.id = some row := KeyedTable.find_eq_some.mpr ⟨hrow, rfl⟩
  have hset : setScore row.id (strengthenedConfidence row.confidence) clock.now store.skills =
      strengthenRule row.id clock.now store.skills := by
    refine ext_rows (List.map_congr_left fun other hother => ?_)
    by_cases hid : other.id = row.id
    · obtain rfl := KeyedTable.eq_of_key hother hrow hid
      rfl
    · simp only [hid, decide_false, Bool.false_eq_true, if_false]
  simp only [strengthenRow, Program.run, serveRule, scoreOf, hfind, Option.map_some]
  have hread : (setScore row.id (strengthenedConfidence row.confidence) clock.now
      store.skills).find row.id = some (SkillRow.strengthened row clock.now) := by
    rw [hset, find_strengthenRule hrow]
  rw [fetchRule_run hread, countCaptures_run]
  simp only [Program.run, strengthenExisting, hset]

theorem find_rememberRule {rule : RememberedRule} {now : Stamp} {skills : SkillTable}
    (hfresh : rule.id ∉ skills.keys) :
    (rememberRule library.toLibrary rule now skills).find rule.id =
      some (rule.newRow library.toLibrary now) := by
  rw [KeyedTable.find_eq_some, rows_rememberRule hfresh]
  exact ⟨List.mem_append_right _ (List.mem_singleton_self _), rfl⟩

theorem insertRule_run {rule : RememberedRule} {input : RememberRuleInput} (store : RuleStore) :
    ((insertRule clock origin rule (newExamples library input rule.id origin)).run
      (serveRule library) store).2 =
      storeAfter store (insertFresh library clock input .active origin rule store) := by
  simp only [insertRule, Program.run, serveRule]
  by_cases htaken : rule.id ∈ store.skills.keys
  · simp only [htaken, if_true, insertFresh, Program.run]
    rfl
  · simp only [htaken, if_false, insertFresh, Program.run, serveRule]
    rw [fetchRule_run (find_rememberRule htaken), countCaptures_run]
    simp only [Program.run, fetchSkillRowById, find_rememberRule htaken]
    rfl

theorem storeAfter_strengthen {reason : Text} {windowHit : Bool} (hrow : row ∈ store.skills.rows) :
    storeAfter store ((Rung.strengthen row reason windowHit).apply clock .active origin store) =
      strengthenExisting clock row reason .active store := by
  have hfind : (strengthenExisting clock row reason .active store).skills.find row.id =
      some (SkillRow.strengthened row clock.now) := find_strengthenRule hrow clock.now
  simp only [Rung.apply, fetchSkillRowById, hfind]
  rfl

theorem ladderProgram_run (capture : ActiveCapture) (slug : Text) (store : RuleStore) :
    ((capture.ladderProgram library slug).run (serveRule library) store).2 =
      storeAfter store (match findExisting library capture.clock capture.input .active capture.repo
          slug capture.input.originOf (rememberSignatureHash library capture.input) store.skills with
        | some rung => rung.apply capture.clock .active capture.input.originOf store
        | none => insertFresh library capture.clock capture.input .active capture.input.originOf
            (capture.rule library slug) store) := by
  have hplain : PlainCall capture.input .active := fun hreview => absurd hreview.2 (by decide)
  have hwindow : ((capture.windowProgram library slug).run (serveRule library) store).2 =
      storeAfter store (match ((findInWindow capture.clock
            (rememberSignatureHash library capture.input) .active store.skills).map fun row =>
              Rung.strengthen row windowReason true).or
          ((findByTitle library slug (canonicalFilePatternsCsv capture.input.filePatterns)
            (sanitizedBody library capture.input.body) .active store.skills).map fun row =>
              .strengthen row titleReason false) with
        | some rung => rung.apply capture.clock .active capture.input.originOf store
        | none => insertFresh library capture.clock capture.input .active capture.input.originOf
            (capture.rule library slug) store) := by
    simp only [ActiveCapture.windowProgram, Program.run, serveRule]
    cases hfind : findInWindow capture.clock (rememberSignatureHash library capture.input) .active
        store.skills with
    | some row =>
      have hrow := (findInWindow_eq_some.mp hfind).mem
      simp only [Option.map_some, Option.some_or]
      rw [strengthenRow_run hrow, storeAfter_strengthen hrow]
    | none =>
      simp only [Option.map_none, Option.none_or, Program.run, serveRule]
      have htitle : (titledRows slug store.skills).find?
          (similar library (canonicalFilePatternsCsv capture.input.filePatterns)
            (sanitizedBody library capture.input.body)) =
          findByTitle library slug (canonicalFilePatternsCsv capture.input.filePatterns)
            (sanitizedBody library capture.input.body) .active store.skills := rfl
      rw [htitle]
      cases hfound : findByTitle library slug (canonicalFilePatternsCsv capture.input.filePatterns)
          (sanitizedBody library capture.input.body) .active store.skills with
      | some row =>
        have hrow := (findByTitle_eq_some.mp hfound).1.mem
        simp only [Option.map_some]
        rw [strengthenRow_run hrow, storeAfter_strengthen hrow]
      | none => exact insertRule_run store
  rw [findExisting_eq hplain, ActiveCapture.ladderProgram]
  by_cases horigin : capture.input.originOf = conversation
  · simp only [horigin, ne_eq, not_true_eq_false, if_false, Option.map_none, Option.none_or]
    rw [hwindow, horigin]
  · simp only [horigin, ne_eq, not_false_eq_true, if_true, Program.run, serveRule]
    cases hfind : findByContentHash (rememberSignatureHash library capture.input) .active capture.repo
        store.skills with
    | some row =>
      have hrow := (findByContentHash_eq_some.mp hfind).mem
      simp only [Option.map_some, Option.some_or]
      rw [strengthenRow_run hrow, storeAfter_strengthen hrow]
    | none => exact hwindow

theorem captureProgram_run (capture : ActiveCapture) (store : RuleStore) :
    ((capture.program library).run (serveRule library) store).2 =
      storeAfter store (rememberInner library capture.clock capture.input
        capture.confidenceOverride .active capture.sourceRepo capture.sourceKind store) := by
  unfold ActiveCapture.program rememberInner
  cases hvalid : validateRememberInput capture.input with
  | error message => rfl
  | ok _ =>
    cases hslug : safeSlug (trim capture.input.title) with
    | none => rfl
    | some slug =>
      simp only [countCaptures_run]
      by_cases hlimit : capture.input.originOf = conversation &&
          decide (dailyLimit ≤ countCapturesToday capture.clock capture.input.originOf store)
      · have hrefused : enforceRememberRateLimit capture.clock capture.input.originOf store =
            .error (dailyCapError (countCapturesToday capture.clock capture.input.originOf store)) :=
          if_pos hlimit
        rw [if_pos hlimit]
        simp only [RememberRuleInput.originOf] at hrefused
        simp only [hrefused]
        rfl
      · have hallowed : enforceRememberRateLimit capture.clock capture.input.originOf store =
            .ok () := if_neg hlimit
        rw [if_neg hlimit, ladderProgram_run]
        simp only [RememberRuleInput.originOf] at hallowed ⊢
        simp only [hallowed]
        rfl

end Alone

end Difflore.Skills

import Difflore.Export.Render
import Difflore.Memory.Directives
import Difflore.SessionMine.Rejection
import Difflore.Skills.RuleStatements

/-! # Enabling a group

A draft is rewritten with the refined rule and promoted; a session memory is remembered as a
draft, which is promoted. Then every session memory of the group is marked as approved for the
rule. Each statement is committed on its own, and the database may fail before any of them.
-/

namespace Difflore.Memory

open Foundation Text Context Skills SessionMine

/-- The rules and the outbox, with the rule that a row was approved for. -/
structure MemoryStore where
  rules : RuleStore
  outbox : Outbox
  approvedFor : Nat → Option Text

def MemoryStore.withSkills (store : MemoryStore) (skills : SkillTable) : MemoryStore :=
  { store with rules := { store.rules with skills } }

inductive EnableError
  | validation (message : Text)
  | notFound (message : Text)
  | infrastructure (message : Text)

def Call (α : Type) : Type := MemoryStore → Except EnableError α × MemoryStore

namespace Call

variable {α β : Type}

def done (result : α) : Call α := fun store => (.ok result, store)

def fail (error : EnableError) : Call α := fun store => (.error error, store)

def andThen (call : Call α) (next : α → Call β) : Call β := fun store =>
  match call store with
  | (.ok result, after) => next result after
  | (.error error, after) => (.error error, after)

def failing (fault : Option Text) (call : Call α) : Call α :=
  match fault with
  | none => call
  | some message => fail (.infrastructure message)

end Call

inductive EnableStep
  | refine
  | promote
  | reload
  | find
  /-- The queries of `remember_inner` and its first write. -/
  | remember
  /-- The insert into `rule_events` behind that write. -/
  | recordEvent
  /-- The reads of `remember_inner` behind its writes. -/
  | fetch
  | attach
  | mark
  | markFor (index : Nat)

abbrev Faults : Type := EnableStep → Option Text

def evidenceLabel : Text := "Source evidence:"

def rewriteDraftDescription (rawDescription refinedRule : Text) : Text :=
  match Export.splitOnce evidenceLabel rawDescription with
  | some (_, evidence) =>
    "Rule:\n" ++ (trim refinedRule ++ ("\n\nSource evidence:\n" ++ trim evidence))
  | none => "Rule:\n" ++ trim refinedRule

/-- The skills after `update_pending_draft_with_refined_rule`. -/
def refinedSkills (library : Library) (now : Stamp) (candidate : PlanCandidate) (id : Text)
    (skills : SkillTable) : SkillTable :=
  match candidate.rawDescription with
  | none => skills
  | some rawDescription =>
    refinePendingDraft library id candidate.title
      (rewriteDraftDescription rawDescription candidate.body) candidate.filePatterns now skills

def updatePendingDraftWithRefinedRule (library : Library) (now : Stamp)
    (candidate : PlanCandidate) (id : Text) : Call Unit := fun store =>
  (.ok (), store.withSkills (refinedSkills library now candidate id store.rules.skills))

def promotionError (id : Text) (skills : SkillTable) (message : Text) : EnableError :=
  if (skills.find id).any fun row => row.status = .pending || row.status = .active then
    .validation message
  else .notFound message

def promoteRule (id : Text) : Call SkillRow := fun store =>
  match promoteDraft id store.rules with
  | .error message => (.error (promotionError id store.rules.skills message), store)
  | .ok rules =>
    match fetchSkillRowById id rules.skills with
    | .error message => (.error (.notFound message), store)
    | .ok row => (.ok row, { store with rules })

/-! ## Session memories -/

def validateRow (outbox : Outbox) (row : SessionMinedRow) : Except Text Unit :=
  row.candidate?.elim (.ok ()) (outbox.validateSessionCandidate row)

def findCandidate (contentHash : Text) : Call (SessionMinedRow × Lesson) := fun store =>
  match store.outbox.findSessionMinedRowByContentHash contentHash with
  | none => (.error (.notFound (Outbox.sessionCandidateNotFound contentHash)), store)
  | some row =>
    match validateRow store.outbox row with
    | .error message => (.error (.validation message), store)
    | .ok () => (.ok (row, store.outbox.lessons row.id), store)

def sessionCandidateInput (lesson : Lesson) : RememberRuleInput where
  title := lesson.title
  body := lesson.body
  filePatterns := some lesson.filePatterns
  badCode := none
  goodCode := none
  kind := none
  category := none
  origin := some originName
  capturedByClient := some "session-mined"

def sessionMinedApprovedConfidence : Rat := 65 / 100

def lessonRule (library : RememberLibrary) (clock : CallClock) (lesson : Lesson) (slug : Text) :
    RememberedRule :=
  freshRule library clock (sessionCandidateInput lesson) (some sessionMinedApprovedConfidence)
    .pending none none slug originName (rememberSignatureHash library (sessionCandidateInput lesson))

def lessonError (input : RememberRuleInput) (message : Text) : EnableError :=
  if (validateRememberInput input).isOk && (safeSlug (trim input.title)).isSome then
    .infrastructure message
  else .validation message

def Faults.ofRemember (faults : Faults) : RememberFaults where
  write := faults .remember
  recordEvent := faults .recordEvent
  fetch := faults .fetch

def rememberLesson (faults : Faults) (library : RememberLibrary) (clock : CallClock)
    (lesson : Lesson) : Call SkillRow := fun store =>
  match rememberFailing faults.ofRemember (rememberAsCandidateWithConfidence library clock
      (sessionCandidateInput lesson) sessionMinedApprovedConfidence) store.rules with
  | (.error message, rules) =>
    (.error (lessonError (sessionCandidateInput lesson) message), { store with rules })
  | (.ok outcome, rules) => (.ok outcome.skill, { store with rules })

theorem id_attached (sourceRepo : Text) (row : SkillRow) :
    ({ row with sourceRepo := some sourceRepo } : SkillRow).id = row.id := rfl

def attachedSkills (id sourceRepo : Text) (skills : SkillTable) : SkillTable := skills.update
    (fun row => row.id = id && row.sourceRepo.all fun repo =>
      trimSpaces repo = [] || repo = sourceRepo)
    (fun row => { row with sourceRepo := some sourceRepo }) (id_attached sourceRepo)

def attachSessionCandidateRepoScope (id sourceRepo : Text) : Call Unit := fun store =>
  (.ok (), store.withSkills (attachedSkills id sourceRepo store.rules.skills))

def loadSkillRecord (id : Text) : Call SkillRow := fun store =>
  match fetchSkillRowById id store.rules.skills with
  | .error message => (.error (.infrastructure message), store)
  | .ok row => (.ok row, store)

def alreadyActiveText : Text := "already active"

/-- A promotion that finds the rule active is as good as one that makes it so. -/
def promoteOrLoad (faults : Faults) (id : Text) : Call SkillRow := fun store =>
  match Call.failing (faults .promote) (promoteRule id) store with
  | (.error (.validation message), after) =>
    if alreadyActiveText <:+: message then
      Call.failing (faults .reload) (loadSkillRecord id) after
    else (.error (.validation message), after)
  | result => result

def markLocallyApproved (rowId : Nat) (ruleId : Text) : Call Unit := fun store =>
  (.ok (), { store with
    outbox := store.outbox.markSessionMinedLocallyApproved rowId
    approvedFor := Function.update store.approvedFor rowId (some ruleId) })

def approveSessionCandidate (faults : Faults) (library : RememberLibrary) (clock : CallClock)
    (contentHash : Text) : Call SkillRow :=
  ((findCandidate contentHash).failing (faults .find)).andThen fun found =>
    (rememberLesson faults library clock found.2).andThen fun skill =>
    ((attachSessionCandidateRepoScope skill.id found.2.sourceRepo).failing
      (faults .attach)).andThen fun _ =>
    (promoteOrLoad faults skill.id).andThen fun rule =>
    ((markLocallyApproved found.1.id rule.id).failing (faults .mark)).andThen fun _ =>
    Call.done rule

def markCandidateApprovedForRule (contentHash ruleId : Text) : Call Unit := fun store =>
  match store.outbox.findSessionMinedRowByContentHash contentHash with
  | none => (.ok (), store)
  | some row =>
    match validateRow store.outbox row with
    | .error message => (.error (.validation message), store)
    | .ok () => markLocallyApproved row.id ruleId store

def primaryCandidate (candidates : List PlanCandidate) : Option PlanCandidate :=
  (candidates.find? (!isSession ·.toPendingMemory)).or candidates.head?

def sessionHashes (candidates : List PlanCandidate) : List Text :=
  candidates.filterMap (sessionContentHash ·.toPendingMemory)

def markAll (faults : Faults) (ruleId : Text) : Nat → List Text → Call Unit
  | _, [] => Call.done ()
  | index, contentHash :: rest =>
    ((markCandidateApprovedForRule contentHash ruleId).failing (faults (.markFor index))).andThen
      fun _ => markAll faults ruleId (index + 1) rest

def enablePrimary (faults : Faults) (library : RememberLibrary) (clock : CallClock)
    (primary : PlanCandidate) : Call SkillRow :=
  match primary.kind with
  | .draft id =>
    ((updatePendingDraftWithRefinedRule library.toLibrary clock.now primary id).failing
      (faults .refine)).andThen fun _ => (promoteRule id).failing (faults .promote)
  | .session contentHash => approveSessionCandidate faults library clock contentHash

def emptyGroupError : Text := "cannot enable an empty rule candidate group"

def enableGroup (faults : Faults) (library : RememberLibrary) (clock : CallClock)
    (candidates : List PlanCandidate) : Call SkillRow :=
  match primaryCandidate candidates with
  | none => Call.fail (.validation emptyGroupError)
  | some primary =>
    (enablePrimary faults library clock primary).andThen fun rule =>
      (markAll faults rule.id 0 (sessionHashes candidates)).andThen fun _ => Call.done rule

structure Untouched (before after : MemoryStore) : Prop where
  skills : after.rules.skills = before.rules.skills
  outbox : after.outbox = before.outbox
  approvedFor : after.approvedFor = before.approvedFor

def ApprovedFor (store : MemoryStore) (ruleId contentHash : Text) : Prop :=
  ∃ row ∈ store.outbox.rows, row.candidate?.any (·.contentHash = trim contentHash) = true ∧
    row.locallyApproved = true ∧ store.approvedFor row.id = some ruleId

/-- An error leaves everything untouched; a result has every visible session memory of the group
approved for it. -/
structure AllOrNothing (faults : Faults) (library : RememberLibrary) (clock : CallClock)
    (candidates : List PlanCandidate) (store : MemoryStore) : Prop where
  nothing : ∀ error after,
    enableGroup faults library clock candidates store = (.error error, after) →
      Untouched store after
  all : ∀ rule after, enableGroup faults library clock candidates store = (.ok rule, after) →
    ∀ contentHash ∈ sessionHashes candidates,
      (store.outbox.findSessionMinedRowByContentHash contentHash).isSome →
        ApprovedFor after rule.id contentHash

end Difflore.Memory

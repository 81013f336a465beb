import Difflore.Foundation.Grouping
import Difflore.Foundation.Program
import Difflore.Memory.Candidates

/-! # Coverage of file patterns by active rules -/

namespace Difflore.Memory

open Foundation Text

def normalizePatterns (patterns : List Text) : List Text :=
  (((patterns.map trim).filter (· ≠ [])).foldl
    (fun set pattern => insertGroup pattern () set) []).map Prod.fst

def isGlobMagic (c : Char) : Bool := c = '*' || c = '?' || c = '[' || c = '{'

def hasGlobMagic (pattern : Text) : Bool := pattern.any isGlobMagic

def patternLiteralPrefix (pattern : Text) : Text :=
  ((pattern.takeWhile (!isGlobMagic ·)).rdropWhile (· ≠ '/')).rdropWhile (· = '/')

def pathPrefixMatches (value start : Text) : Bool :=
  match stripPrefix start value with
  | none => false
  | some rest => rest = [] || ['/'] <+: rest

def patternExtensions (pattern : Text) : List Text :=
  match afterLast '.' pattern with
  | none => []
  | some afterDot =>
    let suffix := trim afterDot
    if ['{'] <+: suffix then
      ((((suffix.dropWhile (· = '{')).takeWhile (· ≠ '}')).splitOn ',').map fun ext =>
        trimMatches (!Char.isAlphanum ·) (trim ext)).filter (· ≠ [])
    else
      let ext := trimMatches (!Char.isAlphanum ·) suffix
      if ext = [] then [] else [ext]

def globScopeMayCover (scopePattern candidatePattern : Text) : Bool :=
  let scope := toAsciiLowercase (trim scopePattern)
  let candidate := toAsciiLowercase (trim candidatePattern)
  if scope = [] || candidate = [] then false
  else if !hasGlobMagic scope then scope = candidate
  else
    let scopePrefix := patternLiteralPrefix scope
    if scopePrefix ≠ [] && !pathPrefixMatches candidate scopePrefix &&
        !pathPrefixMatches (patternLiteralPrefix candidate) scopePrefix then false
    else
      let scopeExtensions := patternExtensions scope
      scopeExtensions.isEmpty ||
        (patternExtensions candidate).any fun ext => scopeExtensions.contains ext

def activeCoveragePatternsOverlap (candidatePatterns activePatterns : List Text) : Bool :=
  let candidatePatterns := normalizePatterns candidatePatterns
  let activePatterns := normalizePatterns activePatterns
  if activePatterns.isEmpty then true
  else if candidatePatterns.isEmpty then false
  else
    candidatePatterns.any fun candidate =>
      activePatterns.any fun active =>
        eqIgnoreAsciiCase candidate active || globScopeMayCover active candidate

example : activeCoveragePatternsOverlap ["src/api/Client.ts"] ["src/**/*.{ts,tsx}"] =
    true := by decide

/-! ## Candidate triage of the memory autopilot

Groups are planned once; triage then works through them statement by statement.
Low-signal and covered candidates go, AI decisions are applied, and duplicates
are folded into one canonical candidate for each group.
-/

inductive PendingMemoryKind
  | draft (id : Text)
  | session (contentHash : Text)

structure PendingMemory where
  itemId : Text
  kind : PendingMemoryKind
  body : Text
  sessionId : Option Text
  sessionCreatedAtMs : Option Int
  distinctEvidenceCount : Option Nat

inductive MemoryCandidateGroupState
  | autoEnable
  | recommended
  | needsReview
  | alreadyActive
  deriving DecidableEq

structure MemoryCandidateGroup where
  groupId : Text
  state : MemoryCandidateGroupState
  sourceRepo : Option Text
  filePatterns : List Text

structure PlannedGroup where
  digest : MemoryCandidateGroup
  candidates : List PendingMemory

structure ActiveMemory where
  ruleId : Text
  sourceRepo : Option Text
  filePatterns : List Text

inductive AiSessionCleanupAction
  | keep
  | delete
  | coveredByActive
  | foldInto
  deriving DecidableEq

/-- A decision as parsed. A confidence that is not a number is `none`. -/
structure RawAiSessionCleanupDecision where
  groupId : Text
  action : Text
  confidence : Option Rat
  targetGroupId : Option Text
  activeRuleId : Option Text

structure AiSessionCleanupDecision where
  groupId : Text
  action : AiSessionCleanupAction
  confidence : Rat
  targetGroupId : Option Text
  activeRuleId : Option Text

def parseAction (action : Text) : Option AiSessionCleanupAction :=
  let action := toAsciiLowercase (trim action)
  if action = "keep" then some .keep
  else if action = "delete" then some .delete
  else if action ∈
      ["covered_by_active", "covered-by-active", "active_covered"].map String.toList then
    some .coveredByActive
  else if action ∈ ["fold_into", "fold-into", "merge_into", "merge-into"].map String.toList then
    some .foldInto
  else none

def normalizeRuleId (ruleId : Text) : Text :=
  let trimmed := trim ruleId
  trim ((stripPrefix "rule:" trimmed).getD trimmed)

def RawAiSessionCleanupDecision.normalize (raw : RawAiSessionCleanupDecision) :
    Option AiSessionCleanupDecision := do
  let action ← parseAction raw.action
  let groupId := trim raw.groupId
  if groupId = [] then none
  else
    some
      { groupId := groupId
        action := action
        confidence := (raw.confidence.filter fun value => 0 ≤ value && value ≤ 1).getD 0
        targetGroupId := (raw.targetGroupId.map trim).filter (· ≠ [])
        activeRuleId := (raw.activeRuleId.map normalizeRuleId).filter (· ≠ []) }

def aiSessionCleanupMaxGroups : Nat := 80

def aiSessionCleanupMinConfidence : Rat := 13086228 / 16777216

def aiSessionCoveredMinConfidence : Rat := 13757317 / 16777216

def aiSessionFoldMinConfidence : Rat := 13421773 / 16777216

def sessionContentHash (candidate : PendingMemory) : Option Text :=
  match candidate.kind with
  | .session contentHash => some contentHash
  | .draft _ => none

def isSession (candidate : PendingMemory) : Bool := (sessionContentHash candidate).isSome

def sessionOnlyGroup (group : PlannedGroup) : Bool :=
  !group.candidates.isEmpty && group.candidates.all isSession

def aiSessionCleanupGroups (groups : List PlannedGroup) : List PlannedGroup :=
  (groups.filter fun group =>
    sessionOnlyGroup group && group.digest.state ≠ .alreadyActive).take aiSessionCleanupMaxGroups

def findGroup (groups : List PlannedGroup) (groupId : Text) : Option PlannedGroup :=
  (groups.filter (·.digest.groupId = groupId)).getLast?

def sameGroupRepo (left right : PlannedGroup) : Bool :=
  match left.digest.sourceRepo, right.digest.sourceRepo with
  | some leftRepo, some rightRepo =>
    eqIgnoreAsciiCase (trim leftRepo) (trim rightRepo)
  | _, _ => false

def activeRuleIsSameRepoCoverage (decision : AiSessionCleanupDecision) (group : PlannedGroup)
    (activeRules : List ActiveMemory) : Bool :=
  match decision.activeRuleId, group.digest.sourceRepo with
  | some ruleId, some groupRepo =>
    activeRules.any fun rule =>
      rule.ruleId = ruleId &&
        rule.sourceRepo.any (fun ruleRepo =>
          eqIgnoreAsciiCase (trim ruleRepo) (trim groupRepo)) &&
        activeCoveragePatternsOverlap group.digest.filePatterns rule.filePatterns
  | _, _ => false

def maxBy {α : Type} (cmp : α → α → Ordering) : List α → Option α
  | [] => none
  | first :: rest =>
    some (rest.foldl (fun best next => if cmp best next = .gt then best else next) first)

def bodyScore (candidate : PendingMemory) : Nat := candidate.body.countP (!isWhitespace ·)

def candidateEvidenceCount (candidate : PendingMemory) : Nat :=
  max (candidate.distinctEvidenceCount.getD 1) 1

def compareStrength (left right : PendingMemory) : Ordering :=
  ((compare (bodyScore left) (bodyScore right)).then
    (compare (candidateEvidenceCount left) (candidateEvidenceCount right))).then
    (compare (left.sessionCreatedAtMs.getD 0) (right.sessionCreatedAtMs.getD 0))

def canonicalSessionHash (group : PlannedGroup) : Option Text :=
  (maxBy compareStrength group.candidates).bind sessionContentHash

def electCanonical (candidates : List PendingMemory) : Option PendingMemory :=
  maxBy (fun left right =>
    (compareStrength left right).then (compareOfLessAndEq right.itemId left.itemId)) candidates

def millisPerDay : Int := 86400000

/-- Distinct sessions and days, or the largest count stored before. -/
def distinctEvidenceCount (candidates : List PendingMemory) : Nat :=
  let evidence := candidates.map fun candidate =>
    let hash := (sessionContentHash candidate).getD candidate.itemId
    let session := ((candidate.sessionId.map trim).filter (· ≠ [])).getD hash
    (session, candidate.sessionCreatedAtMs.getD 0 / millisPerDay)
  let stored := (candidates.map candidateEvidenceCount).max?.getD 1
  max (max evidence.dedup.length stored) 1

inductive FoldReason
  | localAi
  | strongestMatch

def FoldReason.text : FoldReason → Text
  | localAi =>
    "local AI cleanup folded this candidate into a stronger session-mined candidate"
  | strongestMatch => "folded into the strongest matching session-mined candidate"

inductive InboxQuery
  | deleteDroppedLowSignal
  | deleteByContentHash (contentHash : Text)
  | fold (contentHash : Text) (reason : FoldReason) (target : Text)
  | setDistinctEvidenceCount (contentHash : Text) (count : Nat)
  | liveExists (contentHash : Text)

abbrev InboxReply : InboxQuery → Type
  | .deleteDroppedLowSignal => List RejectedSessionMinedCandidate
  | .deleteByContentHash _ => List RejectedSessionMinedCandidate
  | .fold _ _ _ => Option Nat
  | .setDistinctEvidenceCount _ _ => Option Nat
  | .liveExists _ => Bool

abbrev InboxAnswer (query : InboxQuery) : Type := Except Text (InboxReply query)

def Inbox.serve (rows : Inbox) : (query : InboxQuery) → InboxAnswer query × Inbox
  | .deleteDroppedLowSignal =>
    let result := deleteDroppedLowSignalSessionMinedCandidates rows
    (.ok result.1, result.2)
  | .deleteByContentHash contentHash =>
    let result := deleteSessionMinedCandidatesByContentHash contentHash rows
    (.ok result.1, result.2)
  | .fold contentHash reason target =>
    setCandidateTriage contentHash .supersededBy reason.text (some target) rows
  | .setDistinctEvidenceCount contentHash count =>
    let result := setCandidateDistinctEvidenceCount contentHash count rows
    (.ok result.1, result.2)
  | .liveExists contentHash => (.ok (liveSessionCandidateExists contentHash rows), rows)

/-- A step of triage: it talks to the inbox, and ends at the first error. -/
abbrev Triage (α : Type) : Type := ExceptT Text (Program InboxQuery InboxAnswer) α

def Triage.query (query : InboxQuery) : Triage (InboxReply query) := ExceptT.mk (.ask query .done)

/-! ## Steps -/

structure CandidateTriageSummary where
  changed : Bool
  superseded : Nat
  droppedLowSignal : Nat
  activeCovered : Nat
  evidenceUpdates : Nat

structure AiSessionCleanupSummary where
  changed : Bool
  deleted : Nat
  activeCovered : Nat
  superseded : Nat

def deleteGroupSessionCandidates (group : PlannedGroup) :
    Triage (List RejectedSessionMinedCandidate) := do
  let mut deleted := []
  for contentHash in group.candidates.filterMap sessionContentHash do
    deleted := deleted ++ (← Triage.query (.deleteByContentHash contentHash))
  return deleted

/-- Fold the candidates into the target, which itself is left alone. Returns
the items that were folded. -/
def foldSessionCandidates (candidates : List PendingMemory) (reason : FoldReason)
    (target : Text) : Triage (List Text) := do
  let mut superseded := []
  for candidate in candidates do
    if let some contentHash := sessionContentHash candidate then
      if contentHash ≠ target then
        if (← Triage.query (.fold contentHash reason target)).isSome then
          superseded := superseded ++ [candidate.itemId]
  return superseded

def foldGroupSessionCandidates (group : PlannedGroup) (target : Text) : Triage (List Text) :=
  foldSessionCandidates group.candidates .localAi target

def deleteAlreadyActiveSessionGroups (groups : List PlannedGroup) : Triage Nat := do
  let mut covered := 0
  for group in groups do
    if group.digest.state = .alreadyActive && sessionOnlyGroup group then
      covered := covered + (← deleteGroupSessionCandidates group).length
  return covered

/-- The first decision on a group counts, if it is not to keep it and it is
confident enough; `processed` holds the groups decided before. -/
def skipsDecision (processed : List Text) (decision : AiSessionCleanupDecision) : Bool :=
  decision.action = .keep || decision.confidence < aiSessionCleanupMinConfidence ||
    decision.groupId ∈ processed

def coversGroup (decision : AiSessionCleanupDecision) (group : PlannedGroup)
    (activeRules : List ActiveMemory) : Bool :=
  !(decision.confidence < aiSessionCoveredMinConfidence) &&
    activeRuleIsSameRepoCoverage decision group activeRules

def aiSessionCleanupDeletionTargets (groups : List PlannedGroup) (activeRules : List ActiveMemory) :
    List AiSessionCleanupDecision → (processed : List Text) → List Text
  | [], _ => []
  | decision :: rest, processed =>
    if skipsDecision processed decision then
      aiSessionCleanupDeletionTargets groups activeRules rest processed
    else
      let others := aiSessionCleanupDeletionTargets groups activeRules rest
        (decision.groupId :: processed)
      match findGroup groups decision.groupId with
      | none => others
      | some group =>
        if decision.action = .delete ||
            (decision.action = .coveredByActive && coversGroup decision group activeRules) then
          decision.groupId :: others
        else others

def foldTarget (groups : List PlannedGroup) (deletionTargets : List Text)
    (decision : AiSessionCleanupDecision) (group : PlannedGroup) : Option Text := do
  if decision.confidence < aiSessionFoldMinConfidence then none
  else
    let targetGroupId ← decision.targetGroupId
    if targetGroupId = decision.groupId || targetGroupId ∈ deletionTargets then none
    else
      let targetGroup ← findGroup groups targetGroupId
      if sameGroupRepo group targetGroup then canonicalSessionHash targetGroup else none

def applyAiSessionCleanupDecision (groups : List PlannedGroup) (activeRules : List ActiveMemory)
    (deletionTargets : List Text) (decision : AiSessionCleanupDecision) (group : PlannedGroup)
    (summary : AiSessionCleanupSummary) : Triage AiSessionCleanupSummary :=
  match decision.action with
  | .keep => return summary
  | .delete => do
      let deleted := (← deleteGroupSessionCandidates group).length
      if deleted = 0 then return summary
      return { summary with changed := true, deleted := summary.deleted + deleted }
  | .coveredByActive => do
      if !coversGroup decision group activeRules then return summary
      let deleted := (← deleteGroupSessionCandidates group).length
      if deleted = 0 then return summary
      return { summary with changed := true, activeCovered := summary.activeCovered + deleted }
  | .foldInto =>
    match foldTarget groups deletionTargets decision group with
    | none => return summary
    | some target => do
        if !(← Triage.query (.liveExists target)) then return summary
        let superseded := (← foldGroupSessionCandidates group target).length
        if superseded = 0 then return summary
        return { summary with changed := true, superseded := summary.superseded + superseded }

def applyAiSessionCleanupDecisions (groups : List PlannedGroup) (activeRules : List ActiveMemory)
    (decisions : List AiSessionCleanupDecision) : Triage AiSessionCleanupSummary := do
  let cleanupGroups := aiSessionCleanupGroups groups
  let deletionTargets := aiSessionCleanupDeletionTargets cleanupGroups activeRules decisions []
  let mut processed : List Text := []
  let mut summary : AiSessionCleanupSummary := ⟨false, 0, 0, 0⟩
  for decision in decisions do
    if !skipsDecision processed decision then
      processed := decision.groupId :: processed
      if let some group := findGroup cleanupGroups decision.groupId then
        if sessionOnlyGroup group then
          summary ← applyAiSessionCleanupDecision cleanupGroups activeRules deletionTargets
            decision group summary
  return summary

def triageGroup (group : PlannedGroup) (summary : CandidateTriageSummary) :
    Triage CandidateTriageSummary := do
  let sessionCandidates := group.candidates.filter isSession
  if sessionCandidates.isEmpty || sessionCandidates.length ≠ group.candidates.length then
    return summary
  match (electCanonical sessionCandidates).bind sessionContentHash with
  | none => return summary
  | some canonicalHash =>
    if group.digest.state = .alreadyActive then return summary
    let updated ← Triage.query (.setDistinctEvidenceCount canonicalHash
      (distinctEvidenceCount sessionCandidates))
    let summary := if updated.isSome then
        { summary with changed := true, evidenceUpdates := summary.evidenceUpdates + 1 }
      else summary
    if sessionCandidates.length ≤ 1 then return summary
    let superseded ← foldSessionCandidates sessionCandidates .strongestMatch canonicalHash
    if superseded.isEmpty then return summary
    return { summary with changed := true, superseded := summary.superseded + superseded.length }

def applyDeterministicSessionCandidateTriageAfterAi (groups : List PlannedGroup)
    (summary : CandidateTriageSummary) (aiCleanup : AiSessionCleanupSummary) :
    Triage CandidateTriageSummary := do
  let mut summary := summary
  if aiCleanup.changed then
    summary :=
      { summary with
        changed := true
        superseded := summary.superseded + aiCleanup.superseded
        droppedLowSignal := summary.droppedLowSignal + aiCleanup.deleted
        activeCovered := summary.activeCovered + aiCleanup.activeCovered }
  for group in groups do
    summary ← triageGroup group summary
  return summary

/-- One triage pass over planned groups, with the decisions the local AI gave
(none, where it was not asked or failed). -/
def applyCandidateTriage (groups : List PlannedGroup) (activeRules : List ActiveMemory)
    (rawDecisions : List RawAiSessionCleanupDecision) : Triage CandidateTriageSummary := do
  let purged := (← Triage.query .deleteDroppedLowSignal).length
  let covered ← deleteAlreadyActiveSessionGroups groups
  let summary : CandidateTriageSummary :=
    { changed := purged ≠ 0 || covered ≠ 0
      superseded := 0
      droppedLowSignal := purged
      activeCovered := covered
      evidenceUpdates := 0 }
  let aiCleanup ← applyAiSessionCleanupDecisions groups activeRules
    (rawDecisions.filterMap RawAiSessionCleanupDecision.normalize)
  applyDeterministicSessionCandidateTriageAfterAi groups summary aiCleanup

def runCandidateTriage (groups : List PlannedGroup) (activeRules : List ActiveMemory)
    (rawDecisions : List RawAiSessionCleanupDecision) (rows : Inbox) :
    Except Text CandidateTriageSummary × Inbox :=
  (applyCandidateTriage groups activeRules rawDecisions).run.run Inbox.serve rows

end Difflore.Memory

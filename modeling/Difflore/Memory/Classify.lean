import Difflore.Memory.Directives
import Difflore.Memory.GroupedMemories

/-! # What the planner does with a group

A group is already active, is enabled by the autopilot, is recommended, or waits for a review. A
group is already active if an active rule has its key or the content hash of a candidate. The key
keeps the repository, the first eight words and the patterns.
-/

namespace Difflore.Memory

open Foundation Text SessionMine

def evidenceMarker : Text := "\n\nsource evidence:"

def splitRuleBody (body : Text) : Option Text :=
  (beforeFirst evidenceMarker (toAsciiLowercase body)).map fun front =>
    trim (body.take front.length)

def hasSourceEvidence (text : Text) : Bool :=
  let lower := toAsciiLowercase text
  containsAny lower ["source evidence:"] && containsAny lower ["source:", "comment:", "file:"]

def reviewTitles : List Text :=
  ["review rule from imported pr comment", "imported pr review rule"].map String.toList

def isReviewTitle (titleLower : Text) : Bool :=
  "review:" <+: titleLower || "review rule for " <+: titleLower ||
    titleLower ∈ reviewTitles

def prReviewCandidateIsCleanRule (candidate : PlanCandidate) : Bool :=
  let title := trim candidate.title
  let body := trim candidate.body
  let ruleBody := (splitRuleBody body).getD body
  title ≠ [] && body ≠ [] && !isReviewTitle (toAsciiLowercase title) &&
    hasSourceEvidence (candidate.rawDescription.getD body) &&
    !containsAny (toAsciiLowercase (title ++ ('\n' :: ruleBody)))
      ["reviewer asked", "reviewer said", "reviewer requested", "do we really", "not sure",
        " imo "] &&
    curatorRuleIsSafe title ruleBody

def prReview : Text := "pr_review"

def prReviewGroupIsAutoEnableSafe (candidates : List PlanCandidate) (sourceRepo : Option Text)
    (filePatterns : List Text) : Bool :=
  sourceRepo.any (trim · ≠ []) && !filePatterns.isEmpty &&
    candidates.all fun candidate =>
      candidate.origin = prReview && !isSession candidate.toPendingMemory &&
        prReviewCandidateIsCleanRule candidate

def isBotSource (sourceKind : Text) : Bool :=
  "bot:" <+: sourceKind || "ai_reviewer:" <+: sourceKind ||
    sourceKind = "human_override_bot"

def autopilotConfidence : Text := "high"

def recommendedConfidence : Text := "medium"

def sessionKeepVerdict (candidate : PlanCandidate) : Bool :=
  eqIgnoreAsciiCase (trim (candidate.verdict.getD [])) "KEEP"

abbrev GroupClass : Type := MemoryCandidateGroupState × Text × Option Text

def needsReview (reason : String) : GroupClass := (.needsReview, reason.toList, none)

def alreadyActive : GroupClass := (.alreadyActive, "a matching active rule already exists", none)

def conflictReason (conflict : ActiveConflict) : Text :=
  "conflicts with active rule “" ++ (conflict.title ++ ("” (" ++ (conflict.ruleId ++
    ("): opposing guidance on “" ++ (conflict.basis ++ "” — review before enabling")))))

def classifyPrReview (candidates : List PlanCandidate) (sourceRepo : Option Text)
    (filePatterns : List Text) : GroupClass :=
  if candidates.any (isBotSource ·.sourceKind) then
    needsReview "bot-sourced PR review rule needs human validation before triage can enable it"
  else if prReviewGroupIsAutoEnableSafe candidates sourceRepo filePatterns then
    (.autoEnable, Nat.toDigits 10 candidates.length ++ (" cleaned PR-review " ++
        ((if candidates.length = 1 then "rule" else "rules").toList ++
          " has narrow scope and source evidence")),
      some autopilotConfidence)
  else
    needsReview "imported PR review needs human rule cleanup before autopilot can enable it"

def classifySessions (candidates : List PlanCandidate) : GroupClass :=
  if candidates.all (isSession ·.toPendingMemory) && 3 ≤ candidates.length &&
      candidates.all sessionKeepVerdict then
    (.autoEnable, Nat.toDigits 10 candidates.length ++
        " matching session-mined discoveries agree on a narrow rule",
      some autopilotConfidence)
  else if candidates.all (isSession ·.toPendingMemory) && candidates.all sessionKeepVerdict then
    (.recommended, Nat.toDigits 10 candidates.length ++ (" session-mined " ++
        ((if candidates.length = 1 then "discovery" else "discoveries").toList ++
          " looks safe; review once before enabling")),
      some recommendedConfidence)
  else needsReview "needs human review before becoming an active rule"

def classifyGroup (groupId : Text) (candidates : List PlanCandidate) (sourceRepo : Option Text)
    (filePatterns activeKeys activeContentHashes : List Text) (activeRules : List ActiveRule) :
    GroupClass :=
  if groupId ∈ activeKeys then alreadyActive
  else if candidates.any fun candidate => candidate.contentHash.any (· ∈ activeContentHashes) then
    alreadyActive
  else if candidates.any (·.autopilotDisabled) then
    needsReview "disabled by user; re-enable manually if it becomes useful again"
  else if filePatternsAreBroad filePatterns then
    needsReview "scope is too broad for automatic enablement"
  else if hasMergeVerdict candidates then
    needsReview "candidate asks to merge with an existing rule"
  else if hasConflictingLanguage candidates then
    needsReview "candidate group contains conflicting guidance"
  else
    match detectActiveConflict candidates sourceRepo filePatterns activeRules with
    | some conflict => (.needsReview, conflictReason conflict, none)
    | none =>
      if candidates.any (·.origin = prReview) then
        classifyPrReview candidates sourceRepo filePatterns
      else classifySessions candidates

def activeMemoryKey (rule : ActiveRule) : Text := candidateGroupKey
    { itemId := rule.itemId
      kind := .draft rule.ruleId
      body := rule.body
      sessionId := none
      sessionCreatedAtMs := none
      distinctEvidenceCount := none
      title := rule.title
      sourceRepo := rule.sourceRepo
      filePatterns := rule.filePatterns }

def mergedPatterns (candidates : List PlanCandidate) : List Text :=
  normalizePatterns (candidates.flatMap (·.filePatterns))

def uniqueStrings (values : List Text) : List Text := normalizePatterns values

def singleSourceRepo (candidates : List PlanCandidate) : Option Text :=
  match uniqueStrings (candidates.filterMap (·.sourceRepo)) with
  | [repo] => some repo
  | _ => none

abbrev PlanGroup : Type := Text × List PlanCandidate

def digestGroup (groupId : Text) (candidates : List PlanCandidate)
    (activeKeys activeContentHashes : List Text) (activeRules : List ActiveRule) :
    MemoryCandidateGroup :=
  let filePatterns := mergedPatterns candidates
  let sourceRepo := singleSourceRepo candidates
  { groupId := groupId
    state := (classifyGroup groupId candidates sourceRepo filePatterns activeKeys
      activeContentHashes activeRules).1
    sourceRepo := sourceRepo
    filePatterns := filePatterns }

def planGroup (activeRules : List ActiveRule) (group : PlanGroup) : MemoryCandidateGroup :=
  digestGroup group.1 (group.2.insertionSort fun left right => left.itemId ≤ right.itemId)
    (activeRules.map activeMemoryKey) (activeRules.filterMap (·.contentHash)) activeRules

end Difflore.Memory

import Difflore.Ingest.LocalCandidates
import Difflore.Skills.Promotion

/-! # Distilling candidates with a local agent

Candidates become numbered seeds, each with the evidence of its thread. An agent answers with
candidates of its own that name a seed, and those are written as drafts. A draft is activated if
the agent was confident, its title is a rule and its seed is known and labelled human.
-/

namespace Difflore.Ingest

open Foundation Text Infra Skills

def threadEvidenceCharLimit : Nat := 2400

def threadCommentCharLimit : Nat := 700

def truncateEllipsis (max : Nat) (s : Text) : Text :=
  if max = 0 then [] else if s.length ≤ max then s else s.take (max - 1) ++ ['…']

def sameReviewThread (left right : ReviewComment) : Bool :=
  left.threadId.isSome && left.threadId = right.threadId

def reviewerName : Text := "reviewer"

variable (reading : ReviewReading)

def evidenceText (comment : ReviewComment) : Text :=
  truncateEllipsis threadCommentCharLimit (reading.cleanReviewComment comment.content)

def appendEvidence (out : Text) (comment : ReviewComment) : Text :=
  (if out = [] then [] else out ++ ['\n']) ++ ("- " ++
    ((nonBlank comment.author).getD reviewerName ++ (": " ++ evidenceText reading comment)))

/-- The comments whose text is appended: those that say something, until the evidence is full. -/
def evidenceFrom : Text → List ReviewComment → List ReviewComment
  | _, [] => []
  | out, comment :: rest =>
    if (reading.cleanReviewComment comment.content).length < 8 then evidenceFrom out rest
    else
      let out := appendEvidence reading out comment
      comment :: if threadEvidenceCharLimit ≤ out.length then [] else evidenceFrom out rest

/-- The comments that are appended for a seed. Rows are told apart by their external ids. -/
def appendedComments (comments : List ReviewComment) (comment : ReviewComment) :
    List ReviewComment :=
  evidenceFrom reading [] (comments.filter fun other => sameReviewThread comment other ||
    other.externalCommentId = comment.externalCommentId)

def threadSourceEvidence (comments : List ReviewComment) (comment : ReviewComment) : Option Text :=
  let out := truncateEllipsis threadEvidenceCharLimit
    ((appendedComments reading comments comment).foldl (appendEvidence reading) [])
  if trim out = [] then none else some out

def leftByCut : Text → List ReviewComment → List ReviewComment
  | _, [] => []
  | out, comment :: rest =>
    let whole := appendEvidence reading out comment
    let start := whole.length - (evidenceText reading comment).length
    if whole.length ≤ threadEvidenceCharLimit ∨ start < threadEvidenceCharLimit - 1 then
      comment :: leftByCut whole rest
    else leftByCut whole rest

def evidenceComments (comments : List ReviewComment) (comment : ReviewComment) :
    List ReviewComment :=
  leftByCut reading [] (appendedComments reading comments comment)

def sourceEvidenceFromBody (body : Text) : Option Text :=
  nonBlank ((afterFirst sourceEvidenceMarker body).map fun rest =>
    (beforeFirst sourceEvidenceMarker rest).getD rest)

def fullSourceEvidence (input : RememberRuleInput) (comments : List ReviewComment)
    (comment : ReviewComment) : Text :=
  let parts := (sourceEvidenceFromBody input.body).toList ++
    ((threadSourceEvidence reading comments comment).map fun evidence =>
      "Thread evidence:\n".toList ++ evidence).toList
  truncateEllipsis bodyCharLimit ("\n\n".toList.intercalate parts)

structure DistillSeed where
  index : Nat
  candidate : LocalCandidate
  sourceEvidence : Text

def promptMaxSeeds : Nat := 24

def collectDistillSeeds (command : DraftCommand) (items : List ReviewItemWithComments) :
    List DistillSeed :=
  let drafted := (items.filter fun entry => command.selects entry.item).flatMap fun entry =>
    (entry.comments.filterMap (localCandidateInput reading entry.item command.sourceRepo)).map
      fun candidate =>
        (candidate, fullSourceEvidence reading candidate.input entry.comments candidate.comment)
  ((drafted.take (max 1 (min command.maxCandidates promptMaxSeeds))).zipIdx 1).map
    fun ((candidate, sourceEvidence), index) => { index, candidate, sourceEvidence }

structure AgentDistillCandidate where
  sourceIndex : Option Nat
  title : Option Text
  body : Option Text
  confidence : Option (Option Rat)
  filePatterns : List Text

structure SeedResolution where
  seed : DistillSeed
  resolved : Bool

def seedForAgentCandidate (candidate : AgentDistillCandidate) (seeds : List DistillSeed) :
    Option SeedResolution :=
  ((candidate.sourceIndex.bind fun index => seeds.find? (·.index = index)).map (⟨·, true⟩)).or
    (seeds.head?.map (⟨·, false⟩))

def agentActiveConfidence : Rat := f32 (82 / 100)

def agentConfidenceMax : Rat := f32 (90 / 100)

def candidateConfidence (candidate : AgentDistillCandidate) : Rat :=
  match candidate.confidence with
  | some (some value) => min (max value 0) agentConfidenceMax
  | some none => 0
  | none => captureConfidenceLow

def rawTitleStarts : List Text := ["review:", "review rule for ", "review rule from ",
    "rule from review"]

def isRawReviewTitle (title : Text) : Bool :=
  let normalized := toAsciiLowercase (trim title)
  rawTitleStarts.any (fun start => start <+: normalized) ||
    ((stripPrefix "source " normalized).bind List.head?).any Char.isDigit

def hasDistilledTitle (candidate : AgentDistillCandidate) : Bool :=
  (candidate.title.map trim).any fun title => title ≠ [] && !isRawReviewTitle title

def candidateRouteForSource (candidate : AgentDistillCandidate) (sourceKind : ReviewSourceKind) :
    CaptureRoute :=
  let confidence := candidateConfidence candidate
  let route : CaptureRoute :=
    if agentActiveConfidence ≤ confidence then
      if hasDistilledTitle candidate then .active else .candidate
    else if captureConfidenceLow ≤ confidence then .candidate
    else .drop
  if sourceKind.requiresHumanValidation && route = .active then .candidate else route

/-- Without a known seed, one bot among the seeds taints the candidate, and it is never
activated. -/
def agentCandidateGate (candidate : AgentDistillCandidate) (resolution : SeedResolution)
    (seeds : List DistillSeed) : CaptureRoute × ReviewSourceKind :=
  let own := resolution.seed.candidate.sourceKind
  let sourceKind :=
    if resolution.resolved then own
    else ((seeds.map (·.candidate.sourceKind)).find?
      ReviewSourceKind.requiresHumanValidation).getD own
  let route := candidateRouteForSource candidate sourceKind
  (if route = .active && !resolution.resolved then .candidate else route, sourceKind)

def importedRuleTitle : Text := "Imported PR review rule"

def fallbackTitleForSeed (seed : DistillSeed) : Text :=
  let title := trim seed.candidate.input.title
  if title ≠ [] && !isRawReviewTitle title then title else importedRuleTitle

def sanitizedFilePatterns (patterns : List Text) : Option (List Text) :=
  let out := (distinct ((patterns.map trim).filter (· ≠ []))).take filePatternLimit
  if out = [] then none else some out

def bodyWithSourceEvidence (body sourceEvidence : Text) : Text :=
  let sourceEvidence := trim sourceEvidence
  truncateEllipsis bodyCharLimit <|
    if sourceEvidence = [] then body
    else if "Source evidence:" <:+: body then
      body ++ ("\n\nAdditional source evidence:\n" ++ sourceEvidence)
    else body ++ (sourceEvidenceMarker ++ '\n' :: sourceEvidence)

def localAgentClient : Text := "import-reviews:local-agent"

def inputFromAgentCandidate (candidate : AgentDistillCandidate) (seed : DistillSeed) :
    RememberRuleInput :=
  let title := ((nonBlank candidate.title).filter fun title => !isRawReviewTitle title).getD
    (fallbackTitleForSeed seed)
  let body := (nonBlank candidate.body).getD seed.candidate.input.body
  { title := reading.redactSecrets (truncateEllipsis 180 title)
    body := reading.redactSecrets (bodyWithSourceEvidence body seed.sourceEvidence)
    filePatterns := (sanitizedFilePatterns candidate.filePatterns).or
      seed.candidate.input.filePatterns
    badCode := none
    goodCode := none
    kind := none
    category := none
    origin := some Context.prReviewOrigin
    capturedByClient := some localAgentClient }

/-! ## Writing -/

structure AgentProgress where
  created : Nat := 0
  activated : Nat := 0
  pending : Nat := 0
  duplicateInRun : Nat := 0
  deduped : Nat := 0
  matchedActive : Nat := 0
  suppressedRejected : Nat := 0
  skipped : Nat := 0
  budget : Nat
  capped : Bool := false

structure AgentRun where
  store : RuleStore
  seen : List Text
  progress : AgentProgress
  failure : Option Text

/-- A candidate of the answer, the time of its call, and the errors of a database that fails in
front of its statements. -/
structure AgentCall where
  candidate : AgentDistillCandidate
  clock : CallClock
  tombstoneFault : Option Text := none
  faults : RememberFaults := {}
  promoteFault : Option Text := none

def tombstoneFailure (err : Text) : Text := "failed to check rejection tombstone: " ++ err

def activationFailure (err : Text) : Text := "failed to activate local-agent rules: " ++ err

variable (library : Context.RememberLibrary)

def storeAgentCandidate (call : AgentCall) (sourceRepo : RepoScope) (route : CaptureRoute)
    (sourceKind : ReviewSourceKind) (input : RememberRuleInput) (run : AgentRun) : AgentRun :=
  match rememberFailing call.faults (rememberAsCandidateForRepo library call.clock input
      (candidateConfidence call.candidate) sourceRepo (some sourceKind.wireLabel)) run.store with
  | (.error err, store) => { run with store, failure := some (storeFailure err) }
  | (.ok outcome, store) =>
    let progress := run.progress
    if outcome.deduped then
      { run with
        store
        progress := if outcome.matchedExistingActive then
            { progress with matchedActive := progress.matchedActive + 1 }
          else { progress with deduped := progress.deduped + 1 } }
    else if route = .active then
      match call.promoteFault, promoteDraft outcome.skill.id store with
      | some err, _ | none, .error err =>
        { run with store, failure := some (activationFailure err) }
      | none, .ok store =>
        { run with
          store
          progress := { progress with
            activated := progress.activated + 1, created := progress.created + 1 } }
    else
      { run with
        store
        progress := { progress with
          pending := progress.pending + 1, created := progress.created + 1 } }

def writeAgentCandidate (sourceRepo : RepoScope) (seeds : List DistillSeed) (call : AgentCall)
    (run : AgentRun) : AgentRun :=
  let skipped := { run with progress := { run.progress with skipped := run.progress.skipped + 1 } }
  match seedForAgentCandidate call.candidate seeds with
  | none => skipped
  | some resolution =>
    let input := inputFromAgentCandidate reading call.candidate resolution.seed
    let (route, sourceKind) := agentCandidateGate call.candidate resolution seeds
    if route = .drop then skipped
    else match call.tombstoneFault with
    | some err => { run with failure := some (tombstoneFailure err) }
    | none =>
      if isRejectedSignature library input run.store then
        { run with progress := { run.progress with
          suppressedRejected := run.progress.suppressedRejected + 1 } }
      else if localCandidateDedupeSignature input ∈ run.seen then
        { run with progress := { run.progress with
          duplicateInRun := run.progress.duplicateInRun + 1 } }
      else
        storeAgentCandidate library call sourceRepo route sourceKind input
          { run with seen := localCandidateDedupeSignature input :: run.seen }

/-- The candidates of the answer, until one fails or the budget is used up. -/
def writeAgentCandidates (sourceRepo : RepoScope) (seeds : List DistillSeed) :
    List AgentCall → AgentRun → AgentRun
  | [], run => run
  | call :: rest, run =>
    if run.failure.isSome then run
    else if run.progress.budget ≤ run.progress.created then
      { run with progress := { run.progress with capped := true } }
    else
      writeAgentCandidates sourceRepo seeds rest
        (writeAgentCandidate reading library sourceRepo seeds call run)

/-- `run_local_agent_candidates`, on what the query of the items and the agent returned. -/
def runLocalAgentCandidates (command : DraftCommand) (items : List ReviewItemWithComments)
    (answer : List AgentCall) (store : RuleStore) : RuleStore :=
  let seeds := collectDistillSeeds reading command items
  if seeds = [] then store
  else
    (writeAgentCandidates reading library command.sourceRepo seeds answer
      { store, seen := [], progress := { budget := command.maxCandidates }, failure := none }).store

variable {reading}

theorem mem_collectDistillSeeds {command : DraftCommand} {items : List ReviewItemWithComments}
    {seed : DistillSeed} (hseed : seed ∈ collectDistillSeeds reading command items) :
    ∃ entry ∈ items, command.selects entry.item = true ∧ ∃ comment ∈ entry.comments,
      localCandidateInput reading entry.item command.sourceRepo comment = some seed.candidate := by
  obtain ⟨⟨⟨candidate, evidence⟩, index⟩, hmem, rfl⟩ := List.mem_map.mp hseed
  have htaken := List.mem_of_mem_take (List.fst_mem_of_mem_zipIdx hmem)
  obtain ⟨entry, hentry, hdrafted⟩ := List.mem_flatMap.mp htaken
  obtain ⟨hlisted, hselects⟩ := List.mem_filter.mp hentry
  obtain ⟨drafted, hmem, heq⟩ := List.mem_map.mp hdrafted
  obtain ⟨comment, hcomment, hdraft⟩ := List.mem_filterMap.mp hmem
  obtain ⟨rfl, _⟩ := Prod.mk.inj heq
  exact ⟨entry, hlisted, hselects, comment, hcomment, hdraft⟩

theorem mem_of_seedForAgentCandidate {candidate : AgentDistillCandidate}
    {seeds : List DistillSeed} {resolution : SeedResolution}
    (hseed : seedForAgentCandidate candidate seeds = some resolution) :
    resolution.seed ∈ seeds := by
  rcases Option.or_eq_some_iff.mp hseed with hfound | ⟨_, hfirst⟩
  · obtain ⟨seed, hbind, rfl⟩ := Option.map_eq_some_iff.mp hfound
    obtain ⟨index, _, hfind⟩ := Option.bind_eq_some_iff.mp hbind
    exact List.mem_of_find?_eq_some hfind
  · obtain ⟨seed, hhead, rfl⟩ := Option.map_eq_some_iff.mp hfirst
    exact List.mem_of_head? hhead

end Difflore.Ingest

import Difflore.Foundation.Arrivals
import Difflore.Foundation.Grouping
import Difflore.Hook.Stores

/-! # The hook dispatcher

A post-edit event may write an observation, a cited edit and the record of served
rules; the end of a turn may write citations, accepted edits and fix outcomes. What the
outside world answers during one event is its `Env`.
-/

namespace Difflore.Hook

open Foundation Text
open Cloud.HookSpill (observationKind)
open Cloud.Observations (ObservationEvent Row)

structure Skill where
  id : Text
  filePatterns : Option Text
  sourceRepo : Option Text

inductive Retrieval where
  | shortCircuit
  | failed
  | served (ruleIds : List Text) (topK strictMatchCount estimatedTokens : Int)

/-- A path that lies in a repository, and what git and the disk say of it. -/
structure RepoFile where
  repoFile : Text
  hasDiff : Bool
  head : Option Text
  worktree : Option Text

structure Env where
  captureEnabled : Bool
  cacheTtlMs : Int
  nowMs : Int
  projectHash : Text
  recallFile : Text
  repoScope : Option Text
  dbAvailable : Bool
  indexAvailable : Bool
  observationsAvailable : Bool
  outboxError : Option Text
  /-- The name the next spill file gets, if the directory can be written. -/
  spillName : Option Text
  skills : List Skill
  retrieval : Retrieval
  flush : Cloud.Observations.Table → Cloud.Observations.Table
  detectedRepo : Option Text
  resolveRuleId : Text → Text
  files : Text → Option RepoFile

structure PostToolUse where
  toolName : Text
  filePath : Option Text
  targetFiles : List Text
  diff : Option Text
  sessionId : Option Text
  newText : Option Text
  oldText : Option Text

def Env.emit (platform : Platform) (env : Env) (event : ObservationEvent) (stores : Stores) :
    Stores :=
  if env.captureEnabled && env.observationsAvailable then
    stores.emit platform.serde event env.nowMs
  else stores

def Env.insertOutbox (env : Env) : Option (Text → Text → Stores → Stores) :=
  if env.captureEnabled && env.outboxError.isNone then
    some fun kind payloadJson => Stores.enqueue kind payloadJson env.nowMs
  else none

def spillObservationPayload (env : Env) (payloadJson error : Text) (stores : Stores) : Stores :=
  match env.spillName with
  | none => stores
  | some name => stores.addSpill name payloadJson error

def enqueueObservation (env : Env) (payload : Option Text) (stores : Stores) : Stores :=
  match payload with
  | none => stores
  | some payloadJson =>
    if ¬ env.captureEnabled then stores
    else match env.outboxError with
      | none => stores.enqueue observationKind payloadJson env.nowMs
      | some error => spillObservationPayload env payloadJson error stores

def enqueueObservationAndReplayOutbox (env : Env) (payload : Option Text) (stores : Stores) :
    Stores :=
  enqueueObservation env payload (stores.replay env.insertOutbox)

def initDbFailed : Text := "init_db failed before hook observation enqueue"

def spillWithoutDb (env : Env) (payload : Option Text) (stores : Stores) : Stores :=
  match payload with
  | none => stores
  | some payloadJson =>
    if env.captureEnabled then spillObservationPayload env payloadJson initDbFailed stores
    else stores

/-! ## Edits that follow a rule -/

def recentRuleFireWindowMs : Int := 60000

def sessionMatches (sessionId : Text) (row : Row) : Bool :=
  row.sessionId = sessionId || row.sessionId = [] || row.sessionId = "mcp-server" ||
    sessionId = []

def firesRules (row : Row) : Bool :=
  row.eventType = "rule_fired" || row.eventType = "mcp_rule_served"

def firedRuleIds : ObservationEvent → List Text
  | .ruleFired ruleIds .. => ruleIds
  | .mcpRuleServed _ _ _ _ _ ruleIds .. => ruleIds
  | _ => []

def newestFirst (rows : List Row) : List Row :=
  rows.insertionSort fun left right => right.occurredAtMs ≤ left.occurredAtMs

def recentlyFiredRuleIds (platform : Platform) (env : Env) (sessionId : Text)
    (rows : List Row) : List Text :=
  let recent := rows.filter fun row =>
    firesRules row && env.nowMs - recentRuleFireWindowMs ≤ row.occurredAtMs &&
      sessionMatches sessionId row
  ((newestFirst recent).take 50).foldl
    (fun ids row => match platform.serde.decode row.payloadJson with
      | .ok event => (firedRuleIds event).foldl
          (fun ids id => if id ∈ ids then ids else ids ++ [id]) ids
      | .error _ => ids) []

def matchingRecentRuleIds (platform : Platform) (env : Env) (sessionId filePath : Text)
    (stores : Stores) : List Text :=
  let orderedIds := recentlyFiredRuleIds platform env sessionId stores.observations.rows
  ((env.skills.filter fun skill =>
      skill.id ∈ orderedIds && skill.id ≠ [] &&
        platform.filePatternsMatch skill.filePatterns filePath).map Skill.id).insertionSort
    fun left right => orderedIds.idxOf left ≤ orderedIds.idxOf right

def strongestRecentRuleId (platform : Platform) (env : Env) (sessionId filePath : Text)
    (stores : Stores) : Option Text :=
  (matchingRecentRuleIds platform env sessionId filePath stores).head?

def excerptMaxChars : Nat := 500

def maybeEmitRuleCitedInEdit (platform : Platform) (env : Env) (sessionId filePath : Text)
    (diffExcerpt : Option Text) (stores : Stores) : Stores :=
  if ¬ env.observationsAvailable then stores
  else match strongestRecentRuleId platform env sessionId filePath stores with
    | none => stores
    | some ruleId =>
      env.emit platform (.ruleCitedInEdit ruleId sessionId filePath
        (Cloud.truncate (diffExcerpt.getD []) excerptMaxChars) env.nowMs) stores

def intentMaxChars : Nat := 1200

def nonBlank (text : Option Text) : Option Text := text.filter (trim · ≠ [])

def postEditRetrievalIntent (diff newText : Option Text) : Text :=
  match (nonBlank diff).or (nonBlank newText) with
  | some text => "post-edit\n" ++ Cloud.truncate text intentMaxChars
  | none => "post-edit"

/-- `build_recall_query_with_signals`. -/
def recallQuery (platform : Platform) (file intent : Text) : Text :=
  let base := file ++ (' ' :: intent)
  let signals := platform.recallSignals file intent
  if signals = [] then base else base ++ ('\n' :: ['\n'].intercalate signals)

/-- `serve_and_record`: the event, with the hash of the query. -/
def servedEvent (platform : Platform) (env : Env) (sessionId : Option Text) (intent : Text)
    (ruleIds : List Text) (topK strictMatchCount estimatedTokens : Int) : ObservationEvent :=
  .mcpRuleServed "hook_post_edit" (sessionId.getD "hook") env.repoScope
    (if env.recallFile = "unknown" then none else some env.recallFile)
    (platform.sha256 (recallQuery platform env.recallFile intent)) ruleIds topK
    (decide (ruleIds = [])) strictMatchCount estimatedTokens env.nowMs

def firedEvent (env : Env) (sessionId : Option Text) (intent : Text) (ruleIds : List Text) :
    ObservationEvent :=
  .ruleFired ruleIds (if env.recallFile = "unknown" then none else some env.recallFile)
    (some intent) (sessionId.getD "hook") env.nowMs

def fetchRelevantRules (platform : Platform) (env : Env) (sessionId : Option Text)
    (file intent : Text) (stores : Stores) : Stores :=
  match env.retrieval with
  | .shortCircuit | .failed => stores
  | .served ruleIds topK strictMatchCount estimatedTokens =>
    let served := env.emit platform (servedEvent platform env sessionId intent ruleIds topK
      strictMatchCount estimatedTokens) stores
    if ruleIds = [] then served
    else
      (env.emit platform (firedEvent env sessionId intent ruleIds) served).rememberInjection
        env.cacheTtlMs env.nowMs (cacheKey env.projectHash file) ruleIds.length
        (signalHash platform.sha256 intent)

/-- The file path comes first; blank and repeated entries are left out. -/
def orderedTargetFiles (filePath : Option Text) (targetFiles : List Text) : List Text :=
  targetFiles.foldl
    (fun files file =>
      if trim file = [] || files.contains (trim file) then files
      else files ++ [trim file])
    ((nonBlank filePath).map trim).toList

def classifyInput (env : Env) (event : PostToolUse) (file : Text) : ClassifyInput where
  tool := event.toolName
  filePath := some file
  diff := event.diff
  newText := event.newText
  oldText := event.oldText
  sessionId := event.sessionId
  tsMs := env.nowMs

def observationPayload (platform : Platform) (env : Env) (event : PostToolUse) (file : Text) :
    Option Text :=
  (classify platform.sha256 (classifyInput env event file)).map platform.encodeObservation

def recordWithDb (platform : Platform) (env : Env) (sessionId : Option Text) (file intent : Text)
    (payload excerpt : Option Text) (stores : Stores) : Stores :=
  let replayed := enqueueObservationAndReplayOutbox env payload stores
  if ¬ env.indexAvailable then replayed
  else
    fetchRelevantRules platform env sessionId file intent
      (maybeEmitRuleCitedInEdit platform env (sessionId.getD []) file excerpt replayed)

/-- What is written, given the intent of the retrieval, the payload of the observation and
the text the excerpt is taken from. -/
def recordSignals (platform : Platform) (env : Env) (sessionId : Option Text) (file intent : Text)
    (payload excerpt : Option Text) (stores : Stores) : Stores :=
  if stores.shouldSkipRecent env.cacheTtlMs env.nowMs (cacheKey env.projectHash file)
      (signalHash platform.sha256 intent) then
    stores
  else if env.dbAvailable then
    recordWithDb platform env sessionId file intent payload excerpt stores
  else spillWithoutDb env payload stores

def recordEdit (platform : Platform) (env : Env) (event : PostToolUse) (file : Text)
    (stores : Stores) : Stores :=
  recordSignals platform env event.sessionId file
    (postEditRetrievalIntent event.diff event.newText) (observationPayload platform env event file)
    (event.diff.or event.newText) stores

/-- After a mutating tool. The recall for a failed shell command is another path. -/
def handlePostToolUse (platform : Platform) (env : Env) (event : PostToolUse)
    (stores : Stores) : Stores :=
  if ¬ isEditTool event.toolName then stores
  else match (orderedTargetFiles event.filePath event.targetFiles).head? with
    | none => stores
    | some file => recordEdit platform env event file stores

/-! ## Citations in the closing message -/

/-- Reads along a text. `read` sees the character before the rest; what it takes in is
not read again, and `skip` characters are still to be passed over. -/
def scanFrom {Found : Type} (read : Option Char → Text → Option (Nat × Option Found)) :
    Option Char → Nat → Text → List Found
  | _, _, [] => []
  | _, skip + 1, c :: rest => scanFrom read (some c) skip rest
  | prev, 0, c :: rest =>
    match read prev (c :: rest) with
    | none => scanFrom read (some c) 0 rest
    | some (taken, found) => found.toList ++ scanFrom read (some c) (taken - 1) rest

def parseUsize (digits : Text) : Option Nat :=
  if digits ≠ [] ∧ digitsValue digits < 2 ^ 64 then some (digitsValue digits) else none

/-- A `df:N-xxxx` token: how far it reaches, and the citation if it is one. -/
def readFingerprint (prev : Option Char) (s : Text) : Option (Nat × Option (Nat × Text)) :=
  match stripPrefix "df:" s with
  | none => none
  | some rest =>
    if prev.any Char.isAlphanum then some (3, none)
    else
      let digits := rest.takeWhile Char.isDigit
      match stripPrefix ['-'] (rest.drop digits.length) with
      | none => some (3 + digits.length, none)
      | some after =>
        let fingerprint := after.takeWhile isHexDigit
        match (parseUsize digits).filter (0 < ·) with
        | none => some (3 + digits.length, none)
        | some position =>
          some (4 + digits.length + fingerprint.length,
            if fingerprint.length = 4 then some (position, fingerprint) else none)

def isCitationGap (c : Char) : Bool :=
  c = ' ' || c = '\t' || c = '\r' || c = '\n' || c = '#' || c = '\x60'

/-- A `rule N` or `memory N`: how far it reaches, and the number if it has one. -/
def readRuleNumber (needle : Text) (prev : Option Char) (s : Text) : Option (Nat × Option Nat) :=
  match stripPrefix needle s with
  | none => none
  | some rest =>
    if prev.any Char.isAlphanum || rest.head?.any Char.isAlpha then some (needle.length, none)
    else
      let gap := rest.takeWhile isCitationGap
      let digits := (rest.drop gap.length).takeWhile Char.isDigit
      some (needle.length + gap.length + digits.length, (parseUsize digits).filter (0 < ·))

def ruleFingerprintsFromCitationText (text : Text) : List (Nat × Text) :=
  scanFrom readFingerprint none 0 (toAsciiLowercase text)

def ruleNumbersFromCitationText (text : Text) : List Nat :=
  ["rule".toList, "memory".toList].flatMap fun needle =>
    scanFrom (readRuleNumber needle) none 0 (toAsciiLowercase text)

def mentionsLearnedFrom (text : Text) : Bool := "learned from" <:+: toAsciiLowercase text

def ruleFingerprint (platform : Platform) (ruleId : Text) : Text := (platform.sha256 ruleId).take 4

def ruleIdForFingerprintedCitation (platform : Platform) (candidates : List Text)
    (citation : Nat × Text) : Option Text :=
  match (candidates[citation.1 - 1]?).filter (ruleFingerprint platform · = citation.2) with
  | some ruleId => some ruleId
  | none =>
    match candidates.filter (ruleFingerprint platform · = citation.2) with
    | [ruleId] => some ruleId
    | _ => none

def ruleIdsForCitations (platform : Platform) (candidates : List Text)
    (fingerprinted : List (Nat × Text)) (numbers : List Nat) : List Text :=
  fingerprinted.filterMap (ruleIdForFingerprintedCitation platform candidates) ++
    (numbers.filter fun n => ¬ fingerprinted.any (·.1 = n)).filterMap
      fun n => candidates[n - 1]?

def rulesBySourceRepo (env : Env) (candidates : List Text) : List (Text × List Text) :=
  (env.skills.filter (·.id ∈ candidates)).foldl
    (fun groups skill =>
      let repo := toAsciiLowercase (trim (skill.sourceRepo.getD []))
      if skill.id = [] || repo = [] then groups else insertGroup repo skill.id groups) []

/-- The rules whose source repository the text names, where only one rule has it. -/
def ruleIdsForLearnedSources (env : Env) (candidates : List Text) (text : Text) : List Text :=
  (rulesBySourceRepo env candidates).filterMap fun group =>
    match group.2 with
    | [ruleId] => if group.1 <:+: toAsciiLowercase text then some ruleId else none
    | _ => none

def citedRuleIds (platform : Platform) (env : Env) (candidates : List Text) (text : Text) :
    List Text :=
  let byCitation := ruleIdsForCitations platform candidates
    (ruleFingerprintsFromCitationText text) (ruleNumbersFromCitationText text)
  let learned :=
    if mentionsLearnedFrom text && env.dbAvailable then
      ruleIdsForLearnedSources env candidates text
    else []
  (byCitation ++ learned).dedup.insertionSort (· ≤ ·)

def latestRuleFireForSession (platform : Platform) (sessionId : Text) (stores : Stores) :
    Option (List Text × Option Text) :=
  let fires := stores.observations.rows.filter fun row =>
    row.eventType = "rule_fired".toList && sessionMatches sessionId row
  let latest := (fires.insertionSort fun left right =>
    toLex (right.occurredAtMs, right.id) ≤ toLex (left.occurredAtMs, left.id)).head?
  latest.bind fun row => match platform.serde.decode row.payloadJson with
    | .ok (.ruleFired ruleIds filePath _ _ _) => some (ruleIds, filePath)
    | _ => none

def hasRowFor (eventType sessionId ruleId : Text) (stores : Stores) : Bool :=
  stores.observations.rows.any fun row =>
    row.eventType = eventType && row.sessionId = sessionId && row.ruleId = some ruleId

def hasRuleActualCitation (sessionId ruleId : Text) (stores : Stores) : Bool :=
  hasRowFor "rule_actually_cited" sessionId ruleId stores

/-- One cited rule; a rule already cited in the session is passed over. -/
def citeRule (platform : Platform) (env : Env) (sessionId : Text) (filePath : Option Text)
    (excerpt : Text) (found : Stores × Bool) (ruleId : Text) : Stores × Bool :=
  if hasRuleActualCitation sessionId ruleId found.1 then found
  else (env.emit platform
    (.ruleActuallyCited ruleId sessionId filePath excerpt env.nowMs) found.1, true)

def emitCitations (platform : Platform) (env : Env) (sessionId : Text) (filePath : Option Text)
    (excerpt : Text) (ruleIds : List Text) (stores : Stores) : Stores :=
  let emitted := ruleIds.foldl (citeRule platform env sessionId filePath excerpt) (stores, false)
  if emitted.2 then { emitted.1 with observations := env.flush emitted.1.observations }
  else emitted.1

def citesAnything (text : Text) : Bool := !(ruleFingerprintsFromCitationText text).isEmpty ||
    !(ruleNumbersFromCitationText text).isEmpty || mentionsLearnedFrom text

def maybeEmitRuleActualCitations (platform : Platform) (env : Env) (sessionId : Text)
    (message : Option Text) (stores : Stores) : Stores :=
  match (nonBlank message).filter citesAnything with
  | none => stores
  | some text =>
    if ¬ env.observationsAvailable then stores
    else match latestRuleFireForSession platform sessionId stores with
      | none => stores
      | some (candidates, filePath) =>
        emitCitations platform env sessionId filePath
          (Cloud.truncate text excerptMaxChars)
          (citedRuleIds platform env candidates text) stores

def Env.gitFileHasDiff (env : Env) (file : Text) : Bool := (env.files file).any RepoFile.hasDiff

def acceptedFilePath (env : Env) (files : List Text) : Option Text :=
  (files.find? env.gitFileHasDiff).or files.head?

def acceptedEditMaxCodeBytes : Nat := 100000

def acceptedEditDiffSignature (platform : Platform) (before after : Text) : Text :=
  platform.sha256 (before ++ ("\n---\n" ++ after))

def acceptedEditRequest (platform : Platform) (env : Env) (file : RepoFile) (ruleIds : List Text) :
    Option RecordAcceptedEditRequest :=
  let beforeCode := file.head.getD []
  let afterCode := file.worktree.getD []
  if ¬ file.hasDiff ∨ beforeCode = afterCode ∨ acceptedEditMaxCodeBytes < byteLength beforeCode ∨
      acceptedEditMaxCodeBytes < byteLength afterCode then none
  else some
    { beforeCode
      afterCode
      filePath := some file.repoFile
      repoFullName := env.detectedRepo
      targetPrNumber := none
      language := platform.detectLanguage file.repoFile
      acceptanceSource := some "agent_retained_edit"
      client := some "difflore_hook"
      diffSignature := some (acceptedEditDiffSignature platform beforeCode afterCode)
      ruleIds }

def resolveHookAcceptedEditRuleIds (env : Env) (ruleId : Text) : List Text :=
  if trim ruleId = [] then [] else [env.resolveRuleId (trim ruleId)]

def maybeEnqueueAgentAcceptedEditProof (platform : Platform) (env : Env) (ruleId : Text)
    (filePath : Option Text) (stores : Stores) : Stores :=
  match (filePath.bind env.files).bind fun file =>
      acceptedEditRequest platform env file (resolveHookAcceptedEditRuleIds env ruleId) with
  | none => stores
  | some request =>
    if env.captureEnabled && env.outboxError.isNone then
      stores.enqueue acceptedEditKind (platform.encodeAcceptedEdit request) env.nowMs
    else stores

def serveCrossLinkWindowMs : Int := 30 * 60 * 1000

def servesRule (platform : Platform) (ruleId repo file : Text) (row : Row) : Bool :=
  match platform.serde.decode row.payloadJson with
  | .ok (.mcpRuleServed _ _ serveRepo serveFile _ ruleIds _ _ _ _ _) =>
    ruleIds.contains ruleId &&
      ((repo ≠ [] && serveRepo = some repo) || (file ≠ [] && serveFile = some file))
  | _ => false

def recentMcpServeEventIds (platform : Platform) (env : Env) (ruleId : Text)
    (filePath : Option Text) (stores : Stores) : List Int :=
  let repo := trim (env.detectedRepo.getD [])
  let file := trim (filePath.getD [])
  if trim ruleId = [] ∨ (repo = [] ∧ file = []) then []
  else
    (stores.observations.rows.filter fun row =>
      row.eventType = "mcp_rule_served".toList &&
        env.nowMs - serveCrossLinkWindowMs ≤ row.occurredAtMs && row.occurredAtMs ≤ env.nowMs &&
        ((file ≠ [] && row.filePath = some file) || repo ≠ []) &&
        servesRule platform (trim ruleId) repo file row).map fun row => (row.id : Int)

/-- `SELECT DISTINCT`: a pair comes where the scan meets it first. -/
def citedEditsForSession (sessionId : Text) (stores : Stores) : List (Text × Text) :=
  distinct (stores.observations.rows.filterMap fun row =>
    if row.eventType = "rule_cited_in_edit".toList ∧ row.sessionId = sessionId then
      match row.ruleId, row.filePath with
      | some ruleId, some filePath =>
        if ruleId = [] ∨ filePath = [] then none else some (ruleId, filePath)
      | _, _ => none
    else none)

def hasFixOutcome (sessionId ruleId : Text) (stores : Stores) : Bool :=
  hasRowFor "fix_outcome" sessionId ruleId stores

/-- The outcome of one rule: whether an edit that cites it is still there. -/
def emitFixOutcome (platform : Platform) (env : Env) (sessionId ruleId : Text)
    (files : List Text) (stores : Stores) : Stores :=
  let accepted := files.any env.gitFileHasDiff
  let filePath := acceptedFilePath env files
  let proved :=
    if accepted && env.dbAvailable then
      maybeEnqueueAgentAcceptedEditProof platform env ruleId filePath stores
    else stores
  env.emit platform (.fixOutcome ruleId sessionId filePath accepted env.nowMs
    (recentMcpServeEventIds platform env ruleId filePath proved)) proved

def fixOutcomeStep (platform : Platform) (env : Env) (sessionId : Text) (stores : Stores)
    (rule : Text × List Text) : Stores :=
  if hasFixOutcome sessionId rule.1 stores then stores
  else emitFixOutcome platform env sessionId rule.1 rule.2 stores

def citedRules (sessionId : Text) (stores : Stores) : List (Text × List Text) :=
  (citedEditsForSession sessionId stores).foldl
    (fun groups edit => insertGroup edit.1 edit.2 groups) []

def maybeEmitFixOutcomes (platform : Platform) (env : Env) (sessionId : Text)
    (stores : Stores) : Stores :=
  if ¬ env.observationsAvailable then stores
  else if citedRules sessionId stores = [] then stores
  else
    let recorded := (citedRules sessionId stores).foldl
      (fixOutcomeStep platform env sessionId) stores
    { recorded with observations := env.flush recorded.observations }

/-- `Stop` and `SessionEnd`, with the last assistant message of the transcript. -/
def handleStop (platform : Platform) (env : Env) (sessionId message : Option Text)
    (stores : Stores) : Stores :=
  if env.captureEnabled then
    maybeEmitFixOutcomes platform env (sessionId.getD [])
      (maybeEmitRuleActualCitations platform env (sessionId.getD []) message stores)
  else stores

end Difflore.Hook

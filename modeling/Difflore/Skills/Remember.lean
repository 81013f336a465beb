import Difflore.Context.RememberHash
import Difflore.Context.SkillWrites
import Difflore.Skills.SemanticDedup

/-! # Remembering a rule

A rule to be remembered is validated, and then compared with the rows of its own tier of
trust in a ladder of steps. The first step that finds a row strengthens it or, for a
reviewed row, leaves it alone; if none does, a new row is inserted.
-/

namespace Difflore.Skills

open Foundation Text Infra Context

/-! ## Input -/

structure RememberRuleInput where
  title : Text
  body : Text
  filePatterns : Option (List Text)
  badCode : Option Text
  goodCode : Option Text
  kind : Option Text
  category : Option Text
  origin : Option Text
  capturedByClient : Option Text

inductive RuleStatus
  | active
  | pending
  deriving DecidableEq

def RuleStatus.row : RuleStatus → SkillStatus
  | .active => .active
  | .pending => .pending

def conversation : Text := "conversation"

inductive RememberKind
  | reviewRule
  | softPreference
  deriving DecidableEq

def reviewRuleNames : List Text := ["review_rule", "review", "review_standard"]

def softPreferenceNames : List Text :=
  ["soft_preference", "soft-preference", "preference", "context"]

def softPreferenceCategories : List Text :=
  ["workflow_preference", "user_preference", "project_context"]

def normalizeSoftPreferenceCategory (category : Option Text) : Option Text :=
  (category.map fun category => toAsciiLowercase ((trim category).map fun c =>
    if c = '-' then '_' else c)).filter (· ∈ softPreferenceCategories)

def normalizeRememberKind (kind category : Option Text) : Option RememberKind :=
  match (kind.map trim).filter (· ≠ []) with
  | none => some ((normalizeSoftPreferenceCategory category).elim .reviewRule fun _ =>
    .softPreference)
  | some kind =>
    if kind ∈ reviewRuleNames then some .reviewRule
    else if kind ∈ softPreferenceNames then some .softPreference
    else none

def softPreferenceType : Text := "soft_preference"

def rememberRuleType : RememberKind → Text
  | .softPreference => softPreferenceType
  | .reviewRule => "review_standard"

def normalizeCaptureClient (input : Option Text) : Option Text :=
  (input.map fun value => ((trim value).filter fun c =>
    c.isAlphanum || c ∈ ['-', '_', '.']).take 64).filter (· ≠ [])

def bodyCharLimit : Nat := 16 * 1024

def exampleCharLimit : Nat := 16 * 1024

def filePatternLimit : Nat := 32

def filePatternCharLimit : Nat := 256

def limitError (label : Text) (limit : Nat) : Text :=
  "remember_rule: " ++ (label ++ (" must be " ++ (Nat.toDigits 10 limit ++ " chars or fewer")))

def categoryError : Text :=
  "remember_rule: soft preference category must be workflow_preference, user_preference, " ++
    "or project_context"

def patternCountError : Text :=
  "remember_rule: file_patterns accepts at most " ++ (Nat.toDigits 10 filePatternLimit ++
    " entries")

def tooLong (limit : Nat) (value : Option Text) : Bool := value.any fun text => limit < text.length

def validateRememberInput (input : RememberRuleInput) : Except Text Unit :=
  if trim input.title = [] then .error "remember_rule: title must not be empty"
  else if trim input.body = [] then .error "remember_rule: body must not be empty"
  else match normalizeRememberKind input.kind input.category with
    | none => .error "remember_rule: kind must be review_rule or soft_preference"
    | some kind =>
      if kind = .softPreference && input.category.any (fun category =>
          trim category ≠ [] && normalizeSoftPreferenceCategory (some category) = none) then
        .error categoryError
      else if bodyCharLimit < input.body.length then
        .error (limitError "body" bodyCharLimit)
      else if tooLong exampleCharLimit input.badCode then
        .error (limitError "bad_code" exampleCharLimit)
      else if tooLong exampleCharLimit input.goodCode then
        .error (limitError "good_code" exampleCharLimit)
      else if input.filePatterns.any fun patterns => filePatternLimit < patterns.length then
        .error patternCountError
      else if input.filePatterns.any fun patterns =>
          patterns.any fun pattern => filePatternCharLimit < pattern.length then
        .error (limitError "file_patterns entries" filePatternCharLimit)
      else .ok ()

/-- A character in lower case, with what a slug does not keep as dashes. -/
def slugChar (c : Char) : Text :=
  if c.isAlphanum || c = '_' then [c.toLower]
  -- The Kelvin sign and the dotted capital I have letters of a slug in lower case.
  else if c.toNat = 0x212A then ['k']
  else if c.toNat = 0x130 then ['i', '-']
  else ['-']

def safeSlug (name : Text) : Option Text :=
  let slug := ['-'].intercalate (((name.flatMap slugChar).splitOn '-').filter (· ≠ []))
  if slug = [] then none else some slug

inductive EventKind
  | feedbackAccept
  | captureProvenance
  deriving DecidableEq

/-- A row of `rule_events` that a call writes. -/
structure RuleEvent where
  skillId : Text
  kind : EventKind
  confidenceBefore : Option Rat
  confidenceAfter : Option Rat
  reason : Text
  status : RuleStatus
  createdAt : Stamp

structure RuleExample where
  skillId : Text
  badCode : Text
  goodCode : Text
  source : Text

structure RuleStore where
  skills : SkillTable
  events : List RuleEvent
  examples : List RuleExample
  rejected : List Text

/-- What a call reads from outside the database: its time, the local day of a stamp, and
the random suffix of a new id. -/
structure CallClock where
  now : Stamp
  nowMs : Nat
  localDay : Stamp → Text
  idSuffix : Text

structure RememberOutcome where
  skill : SkillRow
  deduped : Bool
  dedupWindowHit : Bool
  matchedExistingActive : Bool
  confidenceAfter : Rat
  capturesToday : Nat

def countCapturesToday (clock : CallClock) (origin : Text) (store : RuleStore) : Nat :=
  if origin ≠ conversation then 0
  else
    let today := clock.localDay clock.now
    (store.skills.rows.countP fun row =>
        row.origin = conversation && clock.localDay row.installedAt = today) +
      store.events.countP fun event =>
        event.kind = .feedbackAccept && clock.localDay event.createdAt = today

def dailyLimit : Nat := 50

def dailyCapError (captures : Nat) : Text :=
  "remember_rule daily cap reached (" ++ (Nat.toDigits 10 captures ++ ('/' ::
    (Nat.toDigits 10 dailyLimit ++ ("). If this is intentional, import review history with " ++
      ("`difflore import-reviews`. If an agent is looping, run `difflore status --json` " ++
        "to audit local rules and archive noisy entries in DiffLore Cloud.")))))

def enforceRememberRateLimit (clock : CallClock) (origin : Text) (store : RuleStore) :
    Except Text Unit :=
  let captures := countCapturesToday clock origin store
  if origin = conversation && dailyLimit ≤ captures then .error (dailyCapError captures)
  else .ok ()

/-! ## Finding an existing row -/

/-- `ORDER BY hash_created_at ASC, id ASC`, with `NULL` first. -/
def oldestHash (left right : SkillRow) : Bool :=
  match left.hashCreatedAt, right.hashCreatedAt with
  | none, none => left.id ≤ right.id
  | none, some _ => true
  | some _, none => false
  | some first, some second => first < second || (first = second && left.id ≤ right.id)

/-- `ORDER BY hash_created_at DESC, id ASC`, of rows that have a time. -/
def newestHash (left right : SkillRow) : Bool :=
  let first := left.hashCreatedAt.getD 0
  let second := right.hashCreatedAt.getD 0
  second < first || (first = second && left.id ≤ right.id)

/-- `ORDER BY installed_at ASC, id ASC`. -/
def oldestInstall (left right : SkillRow) : Bool := left.installedAt < right.installedAt ||
    (left.installedAt = right.installedAt && left.id ≤ right.id)

def query (order : SkillRow → SkillRow → Bool) (condition : SkillRow → Bool) (skills : SkillTable) :
    List SkillRow :=
  (skills.rows.filter condition).insertionSort (order · ·)

/-- `lower(source_repo) = lower(…)`, if the call has a repository. -/
def inRepo (repo : Option Text) (row : SkillRow) : Bool :=
  repo.all fun repo => row.sourceRepo.any fun stored => eqIgnoreAsciiCase stored repo

variable (library : RememberLibrary)

def parseExistingFilePatterns (raw : Option Text) : List Text :=
  (((raw.map trim).filter (· ≠ [])).bind library.jsonStrings).getD []

def parseExistingFilePatternsCsv (raw : Option Text) : Text :=
  canonicalFilePatternsCsv (some (parseExistingFilePatterns library raw))

def findByContentHash (contentHash : Text) (status : RuleStatus) (repo : Option Text)
    (skills : SkillTable) : Option SkillRow :=
  (query oldestHash (fun row => row.contentHash = some contentHash && row.status = status.row &&
    inRepo repo row) skills).head?

def findSemanticPrReviewMatch (input : RememberRuleInput) (body repo : Text) (status : RuleStatus)
    (skills : SkillTable) : Option SkillRow :=
  let incoming := SemanticRuleKey.new input.title body (input.filePatterns.getD [])
  (query oldestInstall (fun row => row.origin = prReviewOrigin && row.status = status.row &&
    inRepo (some repo) row) skills).find? fun row =>
      semanticRulesMatch incoming (SemanticRuleKey.new row.name row.description
        (parseExistingFilePatterns library row.filePatterns))

def dedupWindowMs : Nat := 30000

def findInWindow (clock : CallClock) (contentHash : Text) (status : RuleStatus)
    (skills : SkillTable) : Option SkillRow :=
  (query newestHash (fun row => row.contentHash = some contentHash && row.origin = conversation &&
    row.status = status.row &&
    row.hashCreatedAt.any fun created => clock.nowMs ≤ created + dedupWindowMs) skills).head?

/-- `LIKE` with a pattern that ends in `%` and has no other: an underscore matches every
character, and letters match in both cases. -/
def likePrefix : Text → Text → Bool
  | [], _ => true
  | _ :: _, [] => false
  | p :: pattern, c :: text => (p = '_' || p.toLower = c.toLower) && likePrefix pattern text

def normaliseDedupText (value : Text) : Text :=
  toAsciiLowercase ([' '].intercalate (splitWhitespace value))

def dedupTerms (text : Text) : List Text :=
  ((text.splitOnP fun c => !c.isAlphanum && c ≠ '_').filter fun term => 4 ≤ term.length).dedup

def rememberBodiesSemanticallyMatch (incoming existing : Text) : Bool :=
  let incoming := normaliseDedupText incoming
  let existing := normaliseDedupText existing
  if incoming = [] || existing = [] then false
  else if incoming = existing then true
  else
    let incomingTerms := dedupTerms incoming
    let existingTerms := dedupTerms existing
    if min incomingTerms.length existingTerms.length < 4 then false
    else
      let overlap := (incomingTerms.filter (· ∈ existingTerms)).length
      let union := incomingTerms.length + existingTerms.length - overlap
      0 < union && (72 / 100 : Rat) ≤ overlap / union

def convIds : Text := "conv-"

/-- The first ten rows with the slug are compared by patterns and body. -/
def findByTitle (slug csv body : Text) (status : RuleStatus) (skills : SkillTable) :
    Option SkillRow :=
  ((query oldestInstall (fun row => likePrefix (convIds ++ (slug ++ ['-'])) row.id &&
    row.origin = conversation && row.status = status.row) skills).take 10).find? fun row =>
      parseExistingFilePatternsCsv library row.filePatterns = csv &&
        rememberBodiesSemanticallyMatch body row.description

/-- A step of the ladder that found a row: a reviewed row is left alone, a row of the own
tier is strengthened. -/
inductive Rung
  | matchedActive (row : SkillRow)
  | strengthen (row : SkillRow) (reason : Text) (windowHit : Bool)

def importHashReason : Text := "import content-hash dedup"

def importSemanticReason : Text := "import semantic dedup"

def windowReason : Text := "dedup window hit"

def titleReason : Text := "title dedup"

/-- The steps of origins other than conversations, which compare rows of every age. -/
def importRung (input : RememberRuleInput) (status : RuleStatus) (repo : Option Text)
    (origin contentHash : Text) (skills : SkillTable) : Option Rung :=
  let reviewDraft := origin = prReviewOrigin && status = .pending
  let body := sanitizedBody library input.body
  let semantic (status : RuleStatus) := repo.bind fun repo =>
    findSemanticPrReviewMatch library input body repo status skills
  (if reviewDraft then (findByContentHash contentHash .active repo skills).map .matchedActive
    else none).or
  (((findByContentHash contentHash status repo skills).map fun row =>
      .strengthen row importHashReason false).or
  (if reviewDraft then
    ((semantic .active).map .matchedActive).or
      ((semantic .pending).map fun row => .strengthen row importSemanticReason false)
    else none))

def findExisting (clock : CallClock) (input : RememberRuleInput) (status : RuleStatus)
    (repo : Option Text) (slug origin contentHash : Text) (skills : SkillTable) : Option Rung :=
  (if origin ≠ conversation then importRung library input status repo origin contentHash skills
    else none).or
  (((findInWindow clock contentHash status skills).map fun row =>
      .strengthen row windowReason true).or
  ((findByTitle library slug (canonicalFilePatternsCsv input.filePatterns)
      (sanitizedBody library input.body) status skills).map fun row =>
      .strengthen row titleReason false))

/-! ## The call -/

def strengthenedConfidence (before : Rat) : Rat := min (before + 1 / 20) conversationConfidenceCap

def strengthenExisting (clock : CallClock) (row : SkillRow) (reason : Text) (status : RuleStatus)
    (store : RuleStore) : RuleStore :=
  { store with
    skills := strengthenRule row.id clock.now store.skills
    events := store.events ++ [{
         skillId := row.id
         kind := .feedbackAccept
         confidenceBefore := some row.confidence
         confidenceAfter := some (strengthenedConfidence row.confidence)
         reason
         status
         createdAt := clock.now }] }

def missingSkill (id : Text) : Text := "skill not found: " ++ id

def fetchSkillRowById (id : Text) (skills : SkillTable) : Except Text SkillRow :=
  match skills.find id with
  | some row => .ok row
  | none => .error (missingSkill id)

def Rung.apply (clock : CallClock) (status : RuleStatus) (origin : Text) (store : RuleStore) :
    Rung → Except Text (RuleStore × RememberOutcome)
  | .matchedActive row => do
      let skill ← fetchSkillRowById row.id store.skills
      return (store,
        { skill
          deduped := true
          dedupWindowHit := false
          matchedExistingActive := true
          confidenceAfter := row.confidence
          capturesToday := countCapturesToday clock origin store })
  | .strengthen row reason windowHit => do
      let after := strengthenExisting clock row reason status store
      let skill ← fetchSkillRowById row.id after.skills
      return (after,
        { skill
          deduped := true
          dedupWindowHit := windowHit
          matchedExistingActive := false
          confidenceAfter := strengthenedConfidence row.confidence
          capturesToday := countCapturesToday clock origin after })

def rememberTags (origin : Text) (kind : RememberKind) (category : Option Text) : List Text :=
  (if origin = conversation then [conversation] else [origin, conversation]) ++ match kind with
    | .reviewRule => []
    | .softPreference => softPreferenceType :: category.elim [] fun category =>
      [category, "category:" ++ category]

/-- A caller's seed is clamped; without one, rules begin below manual rules. -/
def seedConfidence (confidenceOverride : Option Rat) : Rat :=
  confidenceOverride.elim (6 / 10) fun seed => min (max seed 0) conversationConfidenceCap

def captureReason : RuleStatus → Text
  | .active => "Captured active rule through remember_rule"
  | .pending => "Proposed untrusted rule draft through remember_rule"

def newExamples (input : RememberRuleInput) (id origin : Text) : List RuleExample :=
  match input.badCode, input.goodCode with
  | some bad, some good =>
    let bad := sanitizeRememberText library bad
    let good := sanitizeRememberText library good
    if trim bad ≠ [] && trim good ≠ [] then [⟨id, bad, good, origin⟩] else []
  | _, _ => []

def freshRule (clock : CallClock) (input : RememberRuleInput) (confidenceOverride : Option Rat)
    (status : RuleStatus) (repo : Option Text) (sourceKind : Option Text)
    (slug origin contentHash : Text) : RememberedRule :=
  let kind := (normalizeRememberKind input.kind input.category).getD .reviewRule
  { id := convIds ++ (slug ++ '-' :: clock.idSuffix)
    title := trim input.title
    body := sanitizedBody library input.body
    skillType := rememberRuleType kind
    tags := rememberTags origin kind (normalizeSoftPreferenceCategory input.category)
    filePatterns := input.filePatterns.getD []
    sourceRepo := repo
    confidence := seedConfidence confidenceOverride
    origin
    sourceKind := normalizeRuleSourceKind sourceKind
    capturedByClient := normalizeCaptureClient input.capturedByClient
    contentHash
    hashCreatedAt := clock.nowMs
    status := status.row }

def takenIdError (id : Text) : Text := "UNIQUE constraint failed: skills.id " ++ id

def insertFresh (clock : CallClock) (input : RememberRuleInput) (status : RuleStatus)
    (origin : Text) (rule : RememberedRule) (store : RuleStore) :
    Except Text (RuleStore × RememberOutcome) := do
  if rule.id ∈ store.skills.keys then throw (takenIdError rule.id)
  let after : RuleStore :=
    { store with
      skills := rememberRule library.toLibrary rule clock.now store.skills
      events := store.events ++ [{
           skillId := rule.id
           kind := .captureProvenance
           confidenceBefore := none
           confidenceAfter := none
           reason := captureReason status
           status
           createdAt := clock.now }]
      examples := store.examples ++ newExamples library input rule.id origin }
  let skill ← fetchSkillRowById rule.id after.skills
  return (after,
    { skill
      deduped := false
      dedupWindowHit := false
      matchedExistingActive := false
      confidenceAfter := rule.confidence
      capturesToday := countCapturesToday clock origin after })

def emptySlugError : Text := "remember_rule: title produces an empty slug after sanitization"

def rememberSignatureHash (input : RememberRuleInput) : Text :=
  rememberRuleContentHash library input.title input.body input.filePatterns

def rememberInner (clock : CallClock) (input : RememberRuleInput) (confidenceOverride : Option Rat)
    (status : RuleStatus) (sourceRepo : Option RepoScope) (sourceKind : Option Text)
    (store : RuleStore) : Except Text (RuleStore × RememberOutcome) := do
  validateRememberInput input
  let some slug := safeSlug (trim input.title) | throw emptySlugError
  let origin := input.origin.getD conversation
  let repo := sourceRepo.map RepoScope.value
  enforceRememberRateLimit clock origin store
  let contentHash := rememberSignatureHash library input
  match findExisting library clock input status repo slug origin contentHash store.skills with
  | some rung => rung.apply clock status origin store
  | none => insertFresh library clock input status origin (freshRule library clock input
      confidenceOverride status repo sourceKind slug origin contentHash) store

/-- The errors of a database that fails in front of a statement of a call. -/
structure RememberFaults where
  /-- The queries of the ladder and the first write. -/
  write : Option Text := none
  /-- The insert into `rule_events` behind that write. -/
  recordEvent : Option Text := none
  /-- The reads behind the writes. -/
  fetch : Option Text := none

/-- A call on a database that may fail: its writes are committed one by one. A call that finds an
active rule writes nothing. -/
def rememberFailing (faults : RememberFaults)
    (call : RuleStore → Except Text (RuleStore × RememberOutcome)) (store : RuleStore) :
    Except Text RememberOutcome × RuleStore :=
  match call store with
  | .error err => (.error err, store)
  | .ok (after, outcome) =>
    match faults.write, faults.recordEvent.filter fun _ => !outcome.matchedExistingActive,
      faults.fetch with
    | some err, _, _ => (.error err, store)
    | none, some err, _ => (.error err, { store with skills := after.skills })
    | none, none, some err => (.error err, after)
    | none, none, none => (.ok outcome, after)

def rememberAsCandidateWithConfidence (clock : CallClock) (input : RememberRuleInput)
    (confidence : Rat) : RuleStore → Except Text (RuleStore × RememberOutcome) :=
  rememberInner library clock input (some confidence) .pending none none

/-- `remember_as_candidate_with_confidence_for_repo_and_source_kind`; without a kind of
source, `remember_as_candidate_with_confidence_for_repo`. -/
def rememberAsCandidateForRepo (clock : CallClock) (input : RememberRuleInput) (confidence : Rat)
    (sourceRepo : RepoScope) (sourceKind : Option Text) :
    RuleStore → Except Text (RuleStore × RememberOutcome) :=
  rememberInner library clock input (some confidence) .pending (some sourceRepo) sourceKind

def rememberForRepo (clock : CallClock) (input : RememberRuleInput) (sourceRepo : RepoScope) :
    RuleStore → Except Text (RuleStore × RememberOutcome) :=
  rememberInner library clock input none .active (some sourceRepo) none

end Difflore.Skills

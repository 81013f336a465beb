import Difflore.Cloud.OutboxCore
import Difflore.Foundation.Json
import Difflore.Foundation.Table
import Mathlib.Data.Int.Bitwise
import Mathlib.Data.Prod.Lex

/-! # Observation events -/

namespace Difflore.Cloud.Observations

open Foundation Text

inductive ObservationEvent
  | ruleFired (ruleIds : List Text) (filePath intent : Option Text) (sessionId : Text)
      (firedAt : Int)
  | mcpRuleServed (tool sessionId : Text) (repoFullName filePath : Option Text)
      (queryHash : Text) (ruleIds : List Text) (topK : Int) (wasEmpty : Bool)
      (strictMatchCount estimatedTokens servedAt : Int)
  | ruleCitedInEdit (ruleId sessionId filePath diffExcerpt : Text) (citedAt : Int)
  | ruleActuallyCited (ruleId sessionId : Text) (filePath : Option Text)
      (citationExcerpt : Text) (citedAt : Int)
  | fixOutcome (ruleId sessionId : Text) (filePath : Option Text) (accepted : Bool)
      (occurredAt : Int) (mcpServeEventIds : List Int)

namespace ObservationEvent

def eventType : ObservationEvent → Text
  | ruleFired .. => "rule_fired"
  | mcpRuleServed .. => "mcp_rule_served"
  | ruleCitedInEdit .. => "rule_cited_in_edit"
  | ruleActuallyCited .. => "rule_actually_cited"
  | fixOutcome .. => "fix_outcome"

def sessionId : ObservationEvent → Text
  | ruleFired _ _ _ sessionId _ => sessionId
  | mcpRuleServed _ sessionId .. => sessionId
  | ruleCitedInEdit _ sessionId .. => sessionId
  | ruleActuallyCited _ sessionId .. => sessionId
  | fixOutcome _ sessionId .. => sessionId

def filePath : ObservationEvent → Option Text
  | ruleFired _ filePath .. => filePath
  | mcpRuleServed _ _ _ filePath .. => filePath
  | ruleCitedInEdit _ _ filePath .. => some filePath
  | ruleActuallyCited _ _ filePath .. => filePath
  | fixOutcome _ _ filePath .. => filePath

def ruleId : ObservationEvent → Option Text
  | ruleFired .. | mcpRuleServed .. => none
  | ruleCitedInEdit ruleId .. => some ruleId
  | ruleActuallyCited ruleId .. => some ruleId
  | fixOutcome ruleId .. => some ruleId

def ruleIds : ObservationEvent → List Text
  | ruleFired ruleIds .. => ruleIds
  | mcpRuleServed _ _ _ _ _ ruleIds .. => ruleIds
  | ruleCitedInEdit ruleId .. => [ruleId]
  | ruleActuallyCited ruleId .. => [ruleId]
  | fixOutcome ruleId .. => [ruleId]

def occurredAtMs : ObservationEvent → Int
  | ruleFired _ _ _ _ firedAt => firedAt
  | mcpRuleServed _ _ _ _ _ _ _ _ _ _ servedAt => servedAt
  | ruleCitedInEdit _ _ _ _ citedAt => citedAt
  | ruleActuallyCited _ _ _ _ citedAt => citedAt
  | fixOutcome _ _ _ _ occurredAt _ => occurredAt

end ObservationEvent

/-! ## How a failed upload is classified

The verdict on a failed upload comes from the HTTP status, and for a rate limit
from the server's own retry hint.
-/

structure HttpFailure where
  status : Nat
  reasonPhrase : Text
  bodySnippet : Text

inductive OutboxFailure
  | http (failure : HttpFailure)
  | transport (msg : Text)

def OutboxFailure.formatForOutboxLastError : OutboxFailure → Text
  | .http failure =>
    let heading := (toString failure.status).toList ++ " " ++ failure.reasonPhrase
    if failure.bodySnippet = [] then heading
    else heading ++ ": " ++ failure.bodySnippet
  | .transport msg => "transport: " ++ msg

inductive DeliveryClass
  | transient
  | rateLimited (retryAfterMs : Int)
  | authBlocked
  | permanentInvalid
  deriving DecidableEq

def observationMaxAgeMs : Int := 7 * 24 * 60 * 60 * 1000

def rateLimitDefaultMs : Int := 60 * 1000

def rateLimitRetryCapMs : Int := 5 * 60 * 1000

def claimLeaseMs : Int := 60 * 1000

def unparkOnSuccessLimit : Nat := 256

def maxFlushBatch : Nat := maxObservationBatch

def retryAfterMsFromSecs (secs : Int) : Int := max 1000 (min (secs * 1000) rateLimitRetryCapMs)

mutual

/-- The first integer under a `retryAfterSec` key, outermost object first. -/
def retryAfterSecFromJson : Json → Option Int
  | .object entries =>
    match entries.find? fun entry => entry.1 = "retryAfterSec".toList with
    | some (_, .number (.integer secs)) => some secs
    | _ => retryAfterSecFromEntries entries
  | .array values => retryAfterSecFromValues values
  | _ => none

def retryAfterSecFromEntries : List (Text × Json) → Option Int
  | [] => none
  | (_, value) :: rest => (retryAfterSecFromJson value).or (retryAfterSecFromEntries rest)

def retryAfterSecFromValues : List Json → Option Int
  | [] => none
  | value :: rest => (retryAfterSecFromJson value).or (retryAfterSecFromValues rest)

end

def parseRetryAfterMsFromFragment (body : Text) : Option Int := do
  let rest ← afterFirst "\"retryAfterSec\"" body
  let rest ← stripPrefix ":" (trimStart rest)
  let digits := (trimStart rest).takeWhile Char.isDigit
  if digits = [] then none
  else
    -- The source parses an `i64`, which fails on overflow.
    let secs := digitsValue digits
    if secs < 2 ^ 63 then some (retryAfterMsFromSecs secs) else none

section

-- `serde_json::from_str`, for JSON values.
variable (parseJson : Text → Option Json)

def parseRetryAfterMs (body : Text) : Option Int :=
  match parseJson body with
  | some value => (retryAfterSecFromJson value).map retryAfterMsFromSecs
  | none => parseRetryAfterMsFromFragment body

def classify : OutboxFailure → DeliveryClass
  | .transport _ => .transient
  | .http failure =>
    let status := failure.status
    if status = 429 then
      .rateLimited ((parseRetryAfterMs parseJson failure.bodySnippet).getD rateLimitDefaultMs)
    else if status = 401 || status = 403 then .authBlocked
    else if 400 ≤ status && status < 500 && status ≠ 408 && status ≠ 425 then .permanentInvalid
    else .transient

end

/-! ## The `observation_events` queue -/

abbrev RowId := Nat

inductive Status
  | pending
  | sending
  | parked
  | abandoned
  | sent
  deriving DecidableEq

structure Row where
  id : RowId
  eventType : Text
  ruleId : Option Text
  ruleIdsJson : Text
  sessionId : Text
  filePath : Option Text
  occurredAtMs : Int
  payloadJson : Text
  status : Status
  retryCount : Int
  nextAttemptAtMs : Int
  lastError : Option Text
  createdAtMs : Int
  sentAtMs : Option Int
  deriving DecidableEq

abbrev Table := AutoTable Row Row.id

def maxQueueRows : Nat := 10000

/-- What the queue uses of `serde_json`. -/
structure Serde where
  encode : ObservationEvent → Text
  encodeIds : List Text → Text
  decode : Text → Except Text ObservationEvent
  parseJson : Text → Option Json

/-- `SELECT id … WHERE condition ORDER BY … , id ASC LIMIT limit`. -/
def selectIds (condition : Row → Bool) (order : Row → Int) (limit : Nat) (table : Table) :
    List RowId :=
  (((table.rows.filter condition).insertionSort fun left right =>
    toLex (order left, left.id) ≤ toLex (order right, right.id)).take limit).map Row.id

def newRow (serde : Serde) (event : ObservationEvent) (now : Int) (id : RowId) : Row where
  id := id
  eventType := event.eventType
  ruleId := event.ruleId
  ruleIdsJson := serde.encodeIds event.ruleIds
  sessionId := event.sessionId
  filePath := event.filePath
  occurredAtMs := event.occurredAtMs
  payloadJson := serde.encode event
  status := .pending
  retryCount := 0
  nextAttemptAtMs := now
  lastError := none
  createdAtMs := now
  sentAtMs := none

theorem newRow_id (serde : Serde) (event : ObservationEvent) (now : Int) (id : RowId) :
    (newRow serde event now id).id = id := rfl

inductive Statement
  | claim (leaseUntil now : Int)
  | reschedule (id : RowId) (retryCount nextAttemptAtMs : Int) (err : Text) (lease : Int)
  | park (id : RowId) (err : Text) (lease : Int)
  | abandon (id : RowId) (err : Text) (lease : Int)
  | markSent (id : RowId) (sentAtMs : Int)
  | unparkAfterSuccess (now : Int)
  | retryPendingUploadsNow (now : Int)
  | drainAbandonedOlderThan (cutoff now : Int)

def claimableAt (now : Int) (row : Row) : Bool :=
  (row.status = .pending || row.status = .sending) && row.nextAttemptAtMs ≤ now

/-- The rows a claim takes: the oldest due ones, up to the batch limit. -/
def claimedIds (table : Table) (now : Int) : List RowId :=
  selectIds (claimableAt now) Row.createdAtMs maxFlushBatch table

/-- `WHERE id = ? AND status = 'sending' AND next_attempt_at_ms = lease`. -/
def leasedAs (id : RowId) (lease : Int) (row : Row) : Bool :=
  row.id = id && row.status = .sending && row.nextAttemptAtMs = lease

def Statement.selects (table : Table) : Statement → Row → Bool
  | .claim _ now, row => row.id ∈ claimedIds table now
  | .reschedule id _ _ _ lease, row => leasedAs id lease row
  | .park id _ lease, row => leasedAs id lease row
  | .abandon id _ lease, row => leasedAs id lease row
  | .markSent id _, row => row.id = id
  | .unparkAfterSuccess _, row =>
    row.id ∈ selectIds (·.status = .parked) Row.createdAtMs unparkOnSuccessLimit table
  | .retryPendingUploadsNow now, row =>
    (row.status = .pending && now < row.nextAttemptAtMs) || row.status = .parked
  | .drainAbandonedOlderThan cutoff _, row =>
    row.status = .abandoned && row.createdAtMs < cutoff

def Statement.set : Statement → Row → Row
  | .claim leaseUntil _, row => { row with status := .sending, nextAttemptAtMs := leaseUntil }
  | .reschedule _ retryCount nextAttemptAtMs err _, row =>
    { row with
      status := .pending, retryCount := retryCount, nextAttemptAtMs := nextAttemptAtMs,
      lastError := some (truncate err 2048) }
  | .park _ err _, row =>
    { row with status := .parked, lastError := some (truncate err 2048) }
  | .abandon _ err _, row =>
    { row with status := .abandoned, lastError := some (truncate err 2048) }
  | .markSent _ sentAtMs, row => { row with status := .sent, sentAtMs := some sentAtMs }
  | .unparkAfterSuccess now, row =>
    { row with
      status := .pending, retryCount := 0, nextAttemptAtMs := now + row.id % 5000,
      lastError := none }
  | .retryPendingUploadsNow now, row =>
    { row with status := .pending, nextAttemptAtMs := now }
  | .drainAbandonedOlderThan _ now, row =>
    { row with status := .pending, retryCount := 0, nextAttemptAtMs := now, lastError := none }

theorem Statement.set_id (statement : Statement) (row : Row) : (statement.set row).id = row.id := by
  cases statement <;> rfl

theorem Statement.set_payloadJson (statement : Statement) (row : Row) :
    (statement.set row).payloadJson = row.payloadJson := by
  cases statement <;> rfl

def Statement.execute (statement : Statement) (table : Table) : Table :=
  table.update (statement.selects table) statement.set statement.set_id

theorem Statement.find_execute (statement : Statement) (table : Table) (id : RowId) :
    (statement.execute table).find id = (table.find id).map fun row =>
        if statement.selects table row then statement.set row else row :=
  AutoTable.find_update table _ statement.set_id id

def queueOverflow (table : Table) : Int := table.rows.length - maxQueueRows

/-- The three trims of `cap_queue`, in the order they are tried. -/
inductive Trim
  | sent
  | abandoned
  | oldest

def Trim.selects : Trim → Row → Bool
  | .sent, row => row.status = .sent
  | .abandoned, row => row.status = .abandoned
  | .oldest, _ => true

def Trim.order : Trim → Row → Int
  | .sent, row => row.sentAtMs.getD (-(2 ^ 63))
  | .abandoned, row => row.createdAtMs
  | .oldest, row => row.createdAtMs

def Trim.execute (trim : Trim) (overflow : Int) (table : Table) : Table :=
  table.delete fun row => row.id ∈ selectIds trim.selects trim.order overflow.toNat table

theorem Trim.find_execute (trim : Trim) (overflow : Int) (table : Table) (id : RowId) :
    (trim.execute overflow table).find id = (table.find id).filter fun row =>
      !decide (row.id ∈ selectIds trim.selects trim.order overflow.toNat table) :=
  AutoTable.find_delete table _ id

end Difflore.Cloud.Observations

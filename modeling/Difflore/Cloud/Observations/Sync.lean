import Difflore.Cloud.Observations.Storage
import Difflore.Foundation.Program
import Difflore.Foundation.Run

/-! # The observation flusher

A flush claims a batch and then runs a program of clock readings, uploads and
single statements. Any number of processes run such programs on one table, one
query at a time, next to the other operations of the emitter.
-/

namespace Difflore.Cloud.Observations

open Foundation

abbrev ProcessId := Nat

structure ClaimedObservation where
  id : RowId
  event : ObservationEvent
  retryCount : Int
  createdAtMs : Int

inductive Query
  | now
  | exec (statement : Statement)
  | overflow
  | trim (trim : Trim) (overflow : Int)
  | upload (batch : List ClaimedObservation)

abbrev Answer : Query → Type
  | .now => Int
  | .exec _ => PUnit
  | .overflow => Int
  | .trim _ _ => PUnit
  | .upload _ => Except OutboxFailure PUnit

abbrev Flush (Result : Type) := Program Query Answer Result

def nowUnixMs : Flush Int := .ask .now .done

def exec (statement : Statement) : Flush PUnit := .ask (.exec statement) .done

def overflow : Flush Int := .ask .overflow .done

def trim (trim : Trim) (overflow : Int) : Flush PUnit := .ask (.trim trim overflow) .done

def upload (batch : List ClaimedObservation) : Flush (Except OutboxFailure PUnit) :=
  .ask (.upload batch) .done

def trimOverflow (kind : Trim) : Flush PUnit := do
  let count ← overflow
  if count > 0 then trim kind count else pure ⟨⟩

/-- Trim in increasing order of value: sent, abandoned, then oldest overall. -/
def capQueue : Flush PUnit := do
  let count ← overflow
  if count ≤ 0 then pure ⟨⟩
  else do
    trim .sent count
    trimOverflow .abandoned
    trimOverflow .oldest

def unparkAfterSuccess : Flush PUnit := do
  let now ← nowUnixMs
  exec (.unparkAfterSuccess now)

section Flush

variable (serde : Serde)

def markFailedWithClass (row : ClaimedObservation) (failure : OutboxFailure) (lease : Int)
    (deliveryClass : DeliveryClass) : Flush PUnit := do
  let now ← nowUnixMs
  let msg := failure.formatForOutboxLastError
  let agedOut := now - row.createdAtMs > observationMaxAgeMs
  match deliveryClass with
  | .authBlocked => exec (.park row.id msg lease)
  | .permanentInvalid =>
    exec (.abandon row.id (truncate ("permanent: " ++ msg) 2048) lease)
  | .rateLimited retryAfterMs =>
    if agedOut then
      exec (.abandon row.id (truncate ("aged-out (rate-limited): " ++ msg) 2048) lease)
    else
      -- Pure backpressure: the retry count stays as it is.
      let delay := retryAfterMs + jitterMs retryAfterMs (Int.xor now row.id)
      exec (.reschedule row.id row.retryCount (now + delay) msg lease)
  | .transient =>
    if agedOut then
      exec (.abandon row.id (truncate ("aged-out: " ++ msg) 2048) lease)
    else
      let nextCount := row.retryCount + 1
      let base := backoffDelayMs nextCount
      let delay := base + jitterMs base (Int.xor now row.id)
      exec (.reschedule row.id nextCount (now + delay) msg lease)

def markFailed (row : ClaimedObservation) (failure : OutboxFailure) (lease : Int) : Flush PUnit :=
  markFailedWithClass row failure lease (classify serde.parseJson failure)

def decodeClaimed (lease : Int) : List Row → Flush (List ClaimedObservation)
  | [] => pure []
  | row :: rest =>
    match serde.decode row.payloadJson with
    | .ok event => do
        let claimed ← decodeClaimed lease rest
        pure (⟨row.id, event, row.retryCount, row.createdAtMs⟩ :: claimed)
    | .error e => do
        exec (.abandon row.id ("permanent: decode observation event: " ++ e) lease)
        decodeClaimed lease rest

/-- Retry the rows of a permanently failed batch one by one. `total` is the
size of the batch; 4xx verdicts count only once a sibling has gone through. -/
def isolateFrom (total : Nat) (lease : Int) : List ClaimedObservation → Nat →
    List (ClaimedObservation × OutboxFailure) → Flush Nat
  | [], sent, pendingPermanent => do
      forM pendingPermanent fun failed =>
        markFailedWithClass failed.1 failed.2 lease .transient
      pure sent
  | row :: rest, sent, pendingPermanent => do
      match ← upload [row] with
      | .ok _ => do
          let sentAt ← nowUnixMs
          exec (.markSent row.id sentAt)
          if sent + 1 = 1 then do
            forM pendingPermanent fun failed => markFailed serde failed.1 failed.2 lease
            isolateFrom total lease rest (sent + 1) []
          else isolateFrom total lease rest (sent + 1) pendingPermanent
      | .error failure =>
        match classify serde.parseJson failure with
        | .permanentInvalid =>
          if sent > 0 || total = 1 then do
            markFailed serde row failure lease
            isolateFrom total lease rest sent pendingPermanent
          else isolateFrom total lease rest sent (pendingPermanent ++ [(row, failure)])
        | _ => do
            -- A shared failure ends the isolation for every row still owned.
            forM pendingPermanent fun failed => markFailed serde failed.1 failure lease
            forM (row :: rest) fun remaining => markFailed serde remaining failure lease
            pure sent

def isolatePermanentInvalidBatch (claimed : List ClaimedObservation) (lease : Int) : Flush Nat :=
  isolateFrom serde claimed.length lease claimed 0 []

/-- Deliver a decoded batch: in one request first, singly if that fails for good. -/
def deliver (claimed : List ClaimedObservation) (lease : Int) : Flush (Nat × Nat) := do
  let attempted := claimed.length
  match ← upload claimed with
  | .ok _ => do
      let sentAt ← nowUnixMs
      forM claimed fun row => exec (.markSent row.id sentAt)
      unparkAfterSuccess
      capQueue
      pure (attempted, attempted)
  | .error batchFailure =>
    if classify serde.parseJson batchFailure ≠ .permanentInvalid then do
      forM claimed fun row => markFailed serde row batchFailure lease
      capQueue
      pure (attempted, 0)
    else do
      let sent ← isolatePermanentInvalidBatch serde claimed lease
      if sent > 0 then unparkAfterSuccess else pure ⟨⟩
      capQueue
      pure (attempted, sent)

/-- `flush_to_cloud` after its claim returned these rows under this lease. -/
def flushClaimed (rows : List Row) (lease : Int) : Flush (Nat × Nat) := do
  let claimed ← decodeClaimed serde lease rows
  if claimed = [] then pure (0, 0) else deliver serde claimed lease

end Flush

/-- The program a process is running, and the claim it runs it for. -/
structure Session where
  lease : Int
  rows : List Row
  program : Flush (Nat × Nat)

/-- The table, the clock, and the processes on it. `owner` (who claimed a row
last) and `delivered` (the uploads that succeeded) are history variables. -/
structure World where
  table : Table
  clock : Int
  sessions : ProcessId → Option Session
  owner : RowId → Option ProcessId
  delivered : List (List ClaimedObservation)

def World.init : World where
  table := .empty 1
  clock := 0
  sessions := fun _ => none
  owner := fun _ => none
  delivered := []

def World.row (world : World) (id : RowId) : Option Row := world.table.find id

inductive Action
  | enqueue (process : ProcessId) (captureEnabled : Bool) (event : ObservationEvent)
  | flush (process : ProcessId) (loggedIn : Bool)
  | resume (process : ProcessId) (outcome : Except OutboxFailure PUnit)
  | stop (process : ProcessId)
  | retryPendingUploadsNow
  | unparkAfterSuccess
  | drainAbandonedOlderThan (cutoff : Int) (dryRun : Bool)

section Step

variable (serde : Serde)

def World.enqueue (world : World) (process : ProcessId) (event : ObservationEvent) (now : Int) :
    World :=
  { world with
    table := world.table.insert (newRow serde event now) (newRow_id serde event now)
    sessions := Function.update world.sessions process
      (some ⟨0, [], do capQueue; pure (0, 0)⟩) }

def World.claim (world : World) (process : ProcessId) (now : Int) : World :=
  let leaseUntil := now + claimLeaseMs
  let ids := claimedIds world.table now
  let table := (Statement.claim leaseUntil now).execute world.table
  let rows := table.rows.filter (·.id ∈ ids)
  { world with
    table := table
    sessions := Function.update world.sessions process
      (some ⟨leaseUntil, rows, flushClaimed serde rows leaseUntil⟩)
    owner := fun id => if id ∈ ids then some process else world.owner id }

def World.answer (world : World) (now : Int) (outcome : Except OutboxFailure PUnit) :
    (query : Query) → Answer query × World
  | .now => (now, world)
  | .exec statement => (⟨⟩, { world with table := statement.execute world.table })
  | .overflow => (queueOverflow world.table, world)
  | .trim trim overflow => (⟨⟩, { world with table := trim.execute overflow world.table })
  | .upload batch =>
    (outcome, match outcome with
      | .ok _ => { world with delivered := batch :: world.delivered }
      | .error _ => world)

/-- Run one query of a process; a program that returned leaves the process idle. -/
def World.resume (world : World) (process : ProcessId) (now : Int)
    (outcome : Except OutboxFailure PUnit) (session : Session) : World :=
  match session.program with
  | .done _ => { world with sessions := Function.update world.sessions process none }
  | .ask query resume =>
    let (answer, next) := world.answer now outcome query
    { next with
      sessions := Function.update world.sessions process
        (some { session with program := resume answer }) }

/-- The effect of an action at a clock reading. A process runs one program at a
time; `stop` is a crash, or a database error that ends the program early. -/
def World.perform (world : World) (now : Int) : Action → Option World
  | .enqueue process captureEnabled event =>
    if (world.sessions process).isSome then none
    else if captureEnabled then some (world.enqueue serde process event now) else some world
  | .flush process loggedIn =>
    if (world.sessions process).isSome then none
    else if loggedIn then some (world.claim serde process now) else some world
  | .resume process outcome => (world.sessions process).map (world.resume process now outcome)
  | .stop process =>
    some { world with sessions := Function.update world.sessions process none }
  | .retryPendingUploadsNow =>
    some { world with table := (Statement.retryPendingUploadsNow now).execute world.table }
  | .unparkAfterSuccess =>
    some { world with table := (Statement.unparkAfterSuccess now).execute world.table }
  | .drainAbandonedOlderThan cutoff dryRun =>
    if dryRun then some world
    else some { world with
      table := (Statement.drainAbandonedOlderThan cutoff now).execute world.table }

def World.step (world : World) (timed : Int × Action) : Option World :=
  if world.clock ≤ timed.1 then
    World.perform serde { world with clock := timed.1 } timed.1 timed.2
  else none

end Step

end Difflore.Cloud.Observations

import Difflore.Cloud.OutboxCore
import Difflore.Foundation.Run
import Difflore.Foundation.Table
import Mathlib.Data.List.MinMax
import Mathlib.Data.Prod.Lex

/-! # The `cloud_outbox` queue

Rows are claimed oldest first, deleted on `confirm`, and bounced to `pending`
or `abandoned` by `mark_failed`, whose read of `retry_count` and later `UPDATE`
are two separate statements. Every drainer process keeps its own breaker.
-/

namespace Difflore.Cloud.Outbox

open Foundation

abbrev RowId := Nat
abbrev Drainer := Nat

def defaultStaleSeconds : Nat := 60

def circuitFailureThreshold : Nat := 3

def circuitOpenDurationMs : Int := 60000

/-- The kind of session-mined candidates, which need local approval. -/
def sessionMinedCandidate : Text := "session_mined_candidate"

inductive Status
  | pending
  | processing
  | abandoned
  deriving DecidableEq

structure Row where
  id : RowId
  kind : Text
  payloadJson : Text
  status : Status
  retryCount : Int
  createdAt : Int
  claimedAt : Option Int
  lastError : Option Text
  deriving DecidableEq

/-- Breaker state of one process. `circuitOpenUntilMs` is `0` when closed. -/
structure Breaker where
  consecutiveFailures : Nat
  circuitOpenUntilMs : Int

def Breaker.closed : Breaker := ⟨0, 0⟩

/-- A `mark_failed` call between its `SELECT` and its `UPDATE`. -/
structure FailingCall where
  drainer : Drainer
  id : RowId
  retryCount : Int
  err : Text
  deriving DecidableEq

/-- The most recent claim of a row, until that drainer reports its outcome. -/
structure Lease where
  drainer : Drainer
  claimedAt : Int

/-- The table, the processes that drain it, and the clock. `lease` and
`failures` are history variables: they are written by the steps below and read
by no operation of the queue. -/
structure World where
  table : AutoTable Row Row.id
  breaker : Drainer → Breaker
  failing : List FailingCall
  clock : Int
  lease : RowId → Option Lease
  failures : RowId → Int

def World.init : World where
  table := .empty 1
  breaker := fun _ => .closed
  failing := []
  clock := 0
  lease := fun _ => none
  failures := fun _ => 0

def World.row (world : World) (id : RowId) : Option Row := world.table.find id

/-- Breaker state as a caller sees it: an expired breaker is closed, and is
stored as closed. -/
def circuitState (breaker : Breaker) (now : Int) : Option Int × Breaker :=
  if breaker.circuitOpenUntilMs = 0 then (none, breaker)
  else if now ≥ breaker.circuitOpenUntilMs then
    (none, { breaker with circuitOpenUntilMs := 0 })
  else (some breaker.circuitOpenUntilMs, breaker)

/-- `status = 'pending' OR (status = 'processing' AND claimed_at IS NOT NULL
AND claimed_at < cutoff)`. -/
def claimableAt (cutoff : Int) (row : Row) : Bool :=
  match row.status with
  | .pending => true
  | .processing => row.claimedAt.any (· < cutoff)
  | .abandoned => false

section Claim

-- The SQL test that a payload carries a local approval: SQLite's `json_valid`
-- and `json_extract` on `$.localReview.status`.
variable (approves : Text → Bool)

def approvedForUpload (row : Row) : Bool :=
  row.kind ≠ sessionMinedCandidate || approves row.payloadJson

/-- Rows the claim subquery selects, before its `ORDER BY … LIMIT 1`. -/
def claimCandidates (kind : Option Text) (cutoff : Int) (rows : List Row) : List Row :=
  rows.filter fun row =>
    kind.all (row.kind = ·) && claimableAt cutoff row && approvedForUpload approves row

/-- The order of `created_at` and `id`. -/
instance : Preorder (Int ×ₗ RowId) :=
  (@Prod.Lex.instLinearOrder Int RowId Int.instLinearOrder Nat.instLinearOrder).toPreorder

/-- `ORDER BY created_at ASC, id ASC LIMIT 1`. -/
def oldest (rows : List Row) : Option Row := rows.argmin fun row => toLex (row.createdAt, row.id)

def claimRow (now : Int) (row : Row) : Row :=
  { row with status := .processing, claimedAt := some now }

theorem claimRow_id (now : Int) (row : Row) : (claimRow now row).id = row.id := rfl

def World.grant (world : World) (drainer : Drainer) (now : Int) (row : Row) : World :=
  { world with
    table := world.table.update (·.id = row.id) (claimRow now) (claimRow_id now)
    lease := Function.update world.lease row.id (some ⟨drainer, now⟩) }

theorem row_grant (world : World) (drainer : Drainer) (now : Int) (row : Row) (id : RowId) :
    (world.grant drainer now row).row id =
      (world.row id).map fun old => if old.id = row.id then claimRow now old else old := by
  simpa [World.row, World.grant] using
    AutoTable.find_update world.table (fun old : Row => decide (old.id = row.id))
      (claimRow_id now) id

/-- The claim of `claim_next` and `claim_next_kind`: pick the oldest claimable
row and flip it to `processing` in one statement. -/
def claim (kind : Option Text) (drainer : Drainer) (now : Int) (world : World) :
    Option Row × World :=
  match circuitState (world.breaker drainer) now with
  | (some _, _) => (none, world)
  | (none, breaker) =>
    let world := { world with breaker := Function.update world.breaker drainer breaker }
    let staleCutoff := now - defaultStaleSeconds * 1000
    match oldest (claimCandidates approves kind staleCutoff world.table.rows) with
    | none => (none, world)
    | some row => (some (claimRow now row), world.grant drainer now row)

def claimNext (drainer : Drainer) (now : Int) (world : World) : Option Row × World :=
  claim approves none drainer now world

def claimNextKind (kind : Text) (drainer : Drainer) (now : Int) (world : World) :
    Option Row × World :=
  claim approves (some kind) drainer now world

theorem claim_cases {kind : Option Text} {drainer : Drainer} {now : Int} {world next : World}
    {result : Option Row} (hclaim : claim approves kind drainer now world = (result, next)) :
    ∃ breaker, (result = none ∧ next = { world with breaker := breaker }) ∨
      ∃ row, world.row row.id = some row ∧ claimableAt (now - defaultStaleSeconds * 1000) row ∧
        approvedForUpload approves row ∧
        result = some (claimRow now row) ∧
        next = { world with breaker := breaker }.grant drainer now row := by
  unfold claim at hclaim
  split at hclaim
  next =>
    obtain ⟨rfl, rfl⟩ := Prod.mk.inj hclaim
    exact ⟨world.breaker, .inl ⟨rfl, rfl⟩⟩
  next breaker _ =>
    refine ⟨Function.update world.breaker drainer breaker, ?_⟩
    simp only at hclaim
    split at hclaim
    next =>
      obtain ⟨rfl, rfl⟩ := Prod.mk.inj hclaim
      exact .inl ⟨rfl, rfl⟩
    next row holdest =>
      obtain ⟨rfl, rfl⟩ := Prod.mk.inj hclaim
      have hcandidate : row ∈ claimCandidates approves kind _ world.table.rows :=
        List.argmin_mem holdest
      simp only [claimCandidates, List.mem_filter, Bool.and_eq_true] at hcandidate
      obtain ⟨hmem, ⟨_, hclaimable⟩, happroved⟩ := hcandidate
      exact .inr ⟨row, AutoTable.find_of_mem hmem, hclaimable, happroved, rfl, rfl⟩

end Claim

def newRow (kind payloadJson : Text) (now : Int) (id : RowId) : Row where
  id := id
  kind := kind
  payloadJson := payloadJson
  status := .pending
  retryCount := 0
  createdAt := now
  claimedAt := none
  lastError := none

theorem newRow_id (kind payloadJson : Text) (now : Int) (id : RowId) :
    (newRow kind payloadJson now id).id = id := rfl

/-- Insert a payload as `pending`, unless capture is disabled. -/
def enqueue (captureEnabled : Bool) (kind payloadJson : Text) (now : Int) (world : World) :
    Option RowId × World :=
  if captureEnabled then
    (some world.table.nextKey,
      { world with
        table := world.table.insert (newRow kind payloadJson now) (newRow_id kind payloadJson now)
        failures := Function.update world.failures world.table.nextKey 0 })
  else (none, world)

theorem row_enqueue (kind payloadJson : Text) (now : Int) (world : World) (id : RowId) :
    (enqueue true kind payloadJson now world).2.row id =
      if id = world.table.nextKey then some (newRow kind payloadJson now world.table.nextKey)
      else world.row id :=
  AutoTable.find_insert world.table (newRow_id kind payloadJson now) id

def World.reported (world : World) (drainer : Drainer) (id : RowId) : RowId → Option Lease :=
  if (world.lease id).any (·.drainer = drainer) then Function.update world.lease id none
  else world.lease

theorem reported_eq_some {world : World} {drainer : Drainer} {id other : RowId} {lease : Lease}
    (hlease : world.reported drainer id other = some lease) : world.lease other = some lease := by
  unfold World.reported at hlease
  split at hlease
  next =>
    by_cases hsame : other = id
    · simp [hsame] at hlease
    · rwa [Function.update_of_ne hsame] at hlease
  next => exact hlease

theorem drainer_ne_of_reported {world : World} {drainer : Drainer} {id : RowId} {lease : Lease}
    (hlease : world.reported drainer id id = some lease) : lease.drainer ≠ drainer := by
  have hold := reported_eq_some hlease
  unfold World.reported at hlease
  split at hlease
  next => simp at hlease
  next hother => simpa [hold] using hother

/-- Upload succeeded: delete the row and reset the failure counter. -/
def confirm (drainer : Drainer) (id : RowId) (world : World) : World :=
  { world with
    table := world.table.delete (·.id = id)
    breaker := Function.update world.breaker drainer
      { world.breaker drainer with consecutiveFailures := 0 }
    lease := world.reported drainer id }

theorem row_confirm (drainer : Drainer) (id : RowId) (world : World) (other : RowId) :
    (confirm drainer id world).row other = (world.row other).filter fun row => row.id ≠ id := by
  simpa [World.row, confirm] using
    AutoTable.find_delete world.table (fun row : Row => decide (row.id = id)) other

/-- The `SELECT` of `mark_failed`. A vanished row ends the call. -/
def markFailedSelect (drainer : Drainer) (id : RowId) (err : Text) (world : World) : World :=
  match world.row id with
  | none => world
  | some row =>
    { world with failing := ⟨drainer, id, row.retryCount, truncate err 2048⟩ :: world.failing }

/-- What the `UPDATE` of `mark_failed` writes, from the count its `SELECT` read. -/
def failRow (call : FailingCall) (row : Row) : Row :=
  match decideRetry call.retryCount with
  | .retry nextCount =>
    { row with
      status := .pending, retryCount := nextCount, lastError := some call.err, claimedAt := none }
  | .abandon nextCount =>
    { row with
      status := .abandoned, retryCount := nextCount, lastError := some call.err,
      claimedAt := none }

theorem failRow_id (call : FailingCall) (row : Row) : (failRow call row).id = row.id := by
  unfold failRow
  split <;> rfl

/-- Count a failure, in a `u32` that wraps, and open the breaker at the threshold. -/
def Breaker.fail (breaker : Breaker) (now : Int) : Breaker :=
  let failures := (breaker.consecutiveFailures + 1) % 2 ^ 32
  if failures ≥ circuitFailureThreshold then ⟨failures, now + circuitOpenDurationMs⟩
  else { breaker with consecutiveFailures := failures }

/-- The `UPDATE` of `mark_failed`, and the breaker tick that follows it. The
statement names the row by its id only. -/
def markFailedUpdate (call : FailingCall) (now : Int) (world : World) : World :=
  { world with
    table := world.table.update (·.id = call.id) (failRow call) (failRow_id call)
    failing := world.failing.erase call
    breaker := Function.update world.breaker call.drainer
      ((world.breaker call.drainer).fail now)
    lease := world.reported call.drainer call.id
    failures := Function.update world.failures call.id (world.failures call.id + 1) }

theorem row_markFailedUpdate (call : FailingCall) (now : Int) (world : World) (id : RowId) :
    (markFailedUpdate call now world).row id =
      (world.row id).map fun row => if row.id = call.id then failRow call row else row := by
  simpa [World.row, markFailedUpdate] using
    AutoTable.find_update world.table (fun row : Row => decide (row.id = call.id))
      (failRow_id call) id

def staleBefore (cutoff : Int) (row : Row) : Bool :=
  row.status = .processing && row.claimedAt.any (· < cutoff)

def resetRow (row : Row) : Row := { row with status := .pending, claimedAt := none }

theorem resetRow_id (row : Row) : (resetRow row).id = row.id := rfl

/-- Promote `processing` rows older than the threshold back to `pending`. -/
def resetStale (thresholdSecs : Nat) (now : Int) (world : World) : World :=
  let cutoff := now - thresholdSecs * 1000
  { world with
    table := world.table.update (staleBefore cutoff) resetRow resetRow_id }

theorem row_resetStale (thresholdSecs : Nat) (now : Int) (world : World) (id : RowId) :
    (resetStale thresholdSecs now world).row id = (world.row id).map fun row =>
        if staleBefore (now - thresholdSecs * 1000) row then resetRow row else row :=
  AutoTable.find_update world.table _ resetRow_id id

/-- `status = 'abandoned' AND COALESCE(claimed_at, created_at) < cutoff`. -/
def drainableBefore (cutoff : Int) (row : Row) : Bool :=
  row.status = .abandoned && row.claimedAt.getD row.createdAt < cutoff

def drainRow (row : Row) : Row :=
  { row with status := .pending, retryCount := 0, lastError := none, claimedAt := none }

theorem drainRow_id (row : Row) : (drainRow row).id = row.id := rfl

/-- Reset the abandoned rows older than the cutoff, in one transaction, and
forget the breaker of the calling process. -/
def drainAbandonedOlderThan (drainer : Drainer) (cutoff : Int) (dryRun : Bool) (world : World) :
    DrainSummary × World :=
  let summary := drainSummary ((world.table.rows.filter (drainableBefore cutoff)).map Row.kind)
  if dryRun || summary.total = 0 then (summary, world)
  else
    (summary,
      { world with
        table := world.table.update (drainableBefore cutoff) drainRow drainRow_id
        breaker := Function.update world.breaker drainer .closed
        failures := fun id =>
          if (world.row id).any (drainableBefore cutoff) then 0 else world.failures id })

theorem drainAbandonedOlderThan_cases (drainer : Drainer) (cutoff : Int) (dryRun : Bool)
    (world : World) {next : World}
    (hnext : (drainAbandonedOlderThan drainer cutoff dryRun world).2 = next) :
    next = world ∨ (∀ id, next.row id =
        (world.row id).map fun row => if drainableBefore cutoff row then drainRow row else row) ∧
      (∀ id, next.failures id =
        if (world.row id).any (drainableBefore cutoff) then 0 else world.failures id) ∧
      next.lease = world.lease ∧ next.failing = world.failing ∧ next.clock = world.clock ∧
      next.table.nextKey = world.table.nextKey := by
  simp only [drainAbandonedOlderThan] at hnext
  split at hnext
  next => exact .inl hnext.symm
  next =>
    subst hnext
    refine .inr ⟨?_, fun _ => rfl, rfl, rfl, rfl, rfl⟩
    exact fun id => AutoTable.find_update world.table _ drainRow_id id

inductive Action
  | enqueue (captureEnabled : Bool) (kind payloadJson : Text)
  | claimNext (drainer : Drainer)
  | claimNextKind (kind : Text) (drainer : Drainer)
  | confirm (drainer : Drainer) (id : RowId)
  | markFailedSelect (drainer : Drainer) (id : RowId) (err : Text)
  | markFailedUpdate (call : FailingCall)
  | resetStale (thresholdSecs : Nat)
  | drainAbandonedOlderThan (drainer : Drainer) (cutoff : Int) (dryRun : Bool)

/-- The effect of an action at a clock reading. An `UPDATE` of `mark_failed`
needs its `SELECT`. -/
def World.perform (approves : Text → Bool) (world : World) (now : Int) : Action → Option World
  | .enqueue captureEnabled kind payloadJson =>
    some (enqueue captureEnabled kind payloadJson now world).2
  | .claimNext drainer => some (claimNext approves drainer now world).2
  | .claimNextKind kind drainer => some (claimNextKind approves kind drainer now world).2
  | .confirm drainer id => some (confirm drainer id world)
  | .markFailedSelect drainer id err => some (markFailedSelect drainer id err world)
  | .markFailedUpdate call =>
    if call ∈ world.failing then some (markFailedUpdate call now world) else none
  | .resetStale thresholdSecs => some (resetStale thresholdSecs now world)
  | .drainAbandonedOlderThan drainer cutoff dryRun =>
    some (drainAbandonedOlderThan drainer cutoff dryRun world).2

def World.step (approves : Text → Bool) (world : World) (timed : Int × Action) : Option World :=
  if world.clock ≤ timed.1 then
    World.perform approves { world with clock := timed.1 } timed.1 timed.2
  else none

inductive Performed (approves : Text → Bool) (world : World) (now : Int) : Action → World → Prop
  | enqueue (captureEnabled : Bool) (kind payloadJson : Text) : Performed approves world now
      (.enqueue captureEnabled kind payloadJson)
        (enqueue captureEnabled kind payloadJson now world).2
  | claimNext (drainer : Drainer) : Performed approves world now (.claimNext drainer)
      (claim approves none drainer now world).2
  | claimNextKind (kind : Text) (drainer : Drainer) : Performed approves world now
      (.claimNextKind kind drainer) (claim approves (some kind) drainer now world).2
  | confirm (drainer : Drainer) (id : RowId) : Performed approves world now
      (.confirm drainer id) (confirm drainer id world)
  | markFailedSelect (drainer : Drainer) (id : RowId) (err : Text) :
      Performed approves world now (.markFailedSelect drainer id err)
        (markFailedSelect drainer id err world)
  | markFailedUpdate (call : FailingCall) : Performed approves world now
      (.markFailedUpdate call) (markFailedUpdate call now world)
  | resetStale (thresholdSecs : Nat) : Performed approves world now
      (.resetStale thresholdSecs) (resetStale thresholdSecs now world)
  | drainAbandonedOlderThan (drainer : Drainer) (cutoff : Int) (dryRun : Bool) :
      Performed approves world now (.drainAbandonedOlderThan drainer cutoff dryRun)
        (drainAbandonedOlderThan drainer cutoff dryRun world).2

theorem performed_of_perform {approves : Text → Bool} {world next : World} {now : Int}
    {action : Action} (hperform : world.perform approves now action = some next) :
    Performed approves world now action next := by
  cases action with
  | markFailedUpdate call =>
    obtain ⟨_, hnext⟩ := Option.ite_none_right_eq_some.mp hperform
    exact Option.some.inj hnext ▸ .markFailedUpdate call
  | _ => exact Option.some.inj hperform ▸ by constructor

theorem performed_of_step {approves : Text → Bool} {world next : World}
    {timed : Int × Action} (hstep : world.step approves timed = some next) :
    world.clock ≤ timed.1 ∧
      Performed approves { world with clock := timed.1 } timed.1 timed.2 next := by
  obtain ⟨hclock, hperform⟩ := Option.ite_none_right_eq_some.mp hstep
  exact ⟨hclock, performed_of_perform hperform⟩

end Difflore.Cloud.Outbox

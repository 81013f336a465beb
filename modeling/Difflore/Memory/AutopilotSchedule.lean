import Difflore.Foundation.Run
import Difflore.Foundation.Text

/-! # The schedule of the memory autopilot

One row schedules the background runs of all processes: a dirty flag with the time of
the latest mark, and a lease with its owner and its expiry. Every statement reads the
clock when it executes. A refused acquire and the record of its reason are two
statements, and so are the start of a run, the check of its lease and its finish.
-/

namespace Difflore.Memory.Autopilot

open Foundation

abbrev Owner := Text

/-- `BACKGROUND_LEASE_SECS`, in milliseconds. -/
def backgroundLeaseMs : Nat := 600 * 1000

inductive SkipReason
  | disabled
  | notDirty
  | leaseHeld
  | cooldown
  | unknown
  deriving DecidableEq

def SkipReason.asStr : SkipReason → Text
  | .disabled => "disabled"
  | .notDirty => "not_dirty"
  | .leaseHeld => "lease_held"
  | .cooldown => "cooldown"
  | .unknown => "unknown"

/-- What `run_memory_autopilot` reports to the background run. -/
inductive RunOutcome
  | ok (enabledCount skippedCount remainingAutoEnableGroups needsReviewGroups maxAutoEnable : Nat)
  | error (message : Text)
  deriving DecidableEq

def RunOutcome.succeeded : RunOutcome → Bool
  | .ok .. => true
  | .error _ => false

def RunOutcome.productive : RunOutcome → Bool
  | .ok enabledCount .. => 0 < enabledCount
  | .error _ => false

structure RunResult where
  outcome : RunOutcome
  startedAt : Nat

/-- The row of `memory_autopilot_schedule`. Times are milliseconds. -/
structure Schedule where
  enabled : Bool
  dirty : Bool
  lastDirtyAt : Option Nat
  lastDirtyReason : Option Text
  lastTriggerAt : Option Nat
  lastTriggerReason : Option Text
  lastRunAt : Option Nat
  leaseOwner : Option Owner
  leaseExpiresAt : Option Nat
  lastResult : Option RunResult
  triggerCount : Nat
  dirtyMarkCount : Nat
  spawnAttemptCount : Nat
  spawnSuccessCount : Nat
  runCount : Nat
  productiveRunCount : Nat
  skipCount : Nat
  lastSkipReason : Option Text

def Schedule.initial : Schedule where
  enabled := true
  dirty := false
  lastDirtyAt := none
  lastDirtyReason := none
  lastTriggerAt := none
  lastTriggerReason := none
  lastRunAt := none
  leaseOwner := none
  leaseExpiresAt := none
  lastResult := none
  triggerCount := 0
  dirtyMarkCount := 0
  spawnAttemptCount := 0
  spawnSuccessCount := 0
  runCount := 0
  productiveRunCount := 0
  skipCount := 0
  lastSkipReason := none

namespace Schedule

variable (row : Schedule) (now : Nat)

def markDirty (reason : Text) : Schedule :=
  { row with
    dirty := true
    lastDirtyAt := some now
    lastDirtyReason := some reason
    lastTriggerAt := some now
    lastTriggerReason := some reason
    triggerCount := row.triggerCount + 1
    dirtyMarkCount := row.dirtyMarkCount + 1 }

/-- `lease_owner IS NULL OR lease_expires_at < now`. -/
def leaseFree : Bool := row.leaseOwner.isNone || row.leaseExpiresAt.any (· < now)

/-- `last_run_at IS NULL OR last_run_at < now - cooldown`. -/
def cooledDown (cooldownMs : Nat) : Bool := row.lastRunAt.all (· + cooldownMs < now)

/-- The condition of `try_acquire_autopilot_lease`. -/
def acquirable (cooldownMs : Nat) : Bool :=
  row.enabled && row.dirty && row.leaseFree now && row.cooledDown now cooldownMs

def acquire (owner : Owner) (reason : Text) : Schedule :=
  { row with
    leaseOwner := some owner
    leaseExpiresAt := some (now + backgroundLeaseMs)
    lastTriggerAt := some now
    lastTriggerReason := some reason
    triggerCount := row.triggerCount + 1
    spawnAttemptCount := row.spawnAttemptCount + 1
    lastSkipReason := none }

def manualReason : Text := "manual"

/-- `try_acquire_manual_autopilot_lease`: neither the flag nor the cooldown is asked for. -/
def acquireManual (owner : Owner) : Schedule :=
  { row with
    leaseOwner := some owner
    leaseExpiresAt := some (now + backgroundLeaseMs)
    lastTriggerAt := some now
    lastTriggerReason := some manualReason
    triggerCount := row.triggerCount + 1 }

/-- The `CASE` of `record_autopilot_skip`. -/
def skipReason (cooldownMs : Nat) : SkipReason :=
  if row.enabled = false then .disabled
  else if row.dirty = false then .notDirty
  else if row.leaseOwner.isSome && row.leaseExpiresAt.any (now ≤ ·) then .leaseHeld
  else if row.lastRunAt.any (now ≤ · + cooldownMs) then .cooldown
  else .unknown

def recordSkip (reason : Text) (cooldownMs : Nat) : Schedule :=
  { row with
    triggerCount := row.triggerCount + 1
    spawnAttemptCount := row.spawnAttemptCount + 1
    skipCount := row.skipCount + 1
    lastTriggerAt := some now
    lastTriggerReason := some reason
    lastSkipReason := some (row.skipReason now cooldownMs).asStr }

def noteSpawnSuccess (owner : Owner) : Schedule :=
  if row.leaseOwner = some owner then { row with spawnSuccessCount := row.spawnSuccessCount + 1 }
  else row

def release (owner : Owner) (reason : Text) : Schedule :=
  if row.leaseOwner = some owner then
    { row with leaseOwner := none, leaseExpiresAt := none, lastSkipReason := some reason }
  else row

def ownsLease (owner : Owner) : Bool :=
  row.leaseOwner = some owner && row.leaseExpiresAt.any (now ≤ ·)

def finish (owner : Owner) (startedAt : Nat) (outcome : RunOutcome) : Schedule :=
  if row.leaseOwner = some owner then
    { row with
      lastRunAt := some now
      dirty := if row.lastDirtyAt.all (· < startedAt) then false else row.dirty
      leaseOwner := none
      leaseExpiresAt := none
      lastResult := some ⟨outcome, startedAt⟩
      runCount := row.runCount + 1
      productiveRunCount := row.productiveRunCount + outcome.productive.toNat
      lastSkipReason := none }
  else row

end Schedule

/-! ## Processes -/

/-- A background run: when it started, and whether it has checked its lease. -/
structure BackgroundRun where
  startedAt : Nat
  checked : Bool

/-- An acquire that was refused, with the row and the time that refused it. Its reason
and cooldown are what the process still has to record. -/
structure Refusal where
  reason : Text
  cooldownMs : Nat
  row : Schedule
  refusedAt : Nat

inductive Action
  | markDirty (reason : Text)
  | acquire (owner : Owner) (reason : Text) (cooldownSecs : Int)
  | recordSkip (owner : Owner)
  | acquireManual (owner : Owner)
  | noteSpawnSuccess (owner : Owner)
  | release (owner : Owner) (reason : Text)
  | startRun (owner : Owner)
  | checkRun (owner : Owner)
  | finishRun (owner : Owner) (outcome : RunOutcome)

/-- A step that cleared the flag: the outcome and the start of the run that finished, and
the latest mark at that moment. -/
structure Clearing where
  outcome : RunOutcome
  startedAt : Nat
  latestMark : Option Nat
  deriving DecidableEq

/-- The row and the processes, which know the expiry of the lease they were granted. The
last three fields record the history: the latest mark, the skips with the reasons recorded
for them, and the clearings of the flag. -/
structure World where
  clock : Nat
  row : Schedule
  granted : Owner → Option Nat
  refused : Owner → Option Refusal
  runs : Owner → Option BackgroundRun
  latestMark : Option Nat
  skips : List (Refusal × SkipReason)
  clearings : List Clearing

def World.initial : World where
  clock := 0
  row := .initial
  granted _ := none
  refused _ := none
  runs _ := none
  latestMark := none
  skips := []
  clearings := []

def setAt {α : Type} (of : Owner → Option α) (owner : Owner) (value : Option α) :
    Owner → Option α :=
  fun other => if other = owner then value else of other

@[simp] theorem setAt_self {α : Type} (of : Owner → Option α) (owner : Owner) (value : Option α) :
    setAt of owner value owner = value := if_pos rfl

theorem setAt_other {α : Type} (of : Owner → Option α) {owner other : Owner} (hne : other ≠ owner)
    (value : Option α) : setAt of owner value other = of other := if_neg hne

/-- `format!("-{} seconds", cooldown_secs.max(0))`, in milliseconds. -/
def cooldownMs (cooldownSecs : Int) : Nat := cooldownSecs.toNat * 1000

/-- What an action does at a clock reading; `none` if the process is not at that statement. -/
def World.act (world : World) (now : Nat) : Action → Option World
  | .markDirty reason =>
    some { world with row := world.row.markDirty now reason, latestMark := some now }
  | .acquire owner reason cooldownSecs =>
    if (world.refused owner).isSome then none
    else if world.row.acquirable now (cooldownMs cooldownSecs) then
      some { world with
        row := world.row.acquire now owner reason
        granted := setAt world.granted owner (some (now + backgroundLeaseMs)) }
    else some { world with
      refused := setAt world.refused owner
        (some ⟨reason, cooldownMs cooldownSecs, world.row, now⟩) }
  | .recordSkip owner =>
    (world.refused owner).map fun refusal =>
      { world with
        row := world.row.recordSkip now refusal.reason refusal.cooldownMs
        refused := setAt world.refused owner none
        skips := (refusal, world.row.skipReason now refusal.cooldownMs) :: world.skips }
  | .acquireManual owner =>
    if world.row.leaseFree now then
      some { world with
        row := world.row.acquireManual now owner
        granted := setAt world.granted owner (some (now + backgroundLeaseMs)) }
    else some world
  | .noteSpawnSuccess owner => some { world with row := world.row.noteSpawnSuccess owner }
  | .release owner reason =>
    some { world with
      row := world.row.release owner reason
      granted := setAt world.granted owner none }
  | .startRun owner =>
    if (world.runs owner).isSome then none
    else some { world with runs := setAt world.runs owner (some ⟨now, false⟩) }
  | .checkRun owner =>
    (world.runs owner).bind fun run =>
      if run.checked then none
      else some { world with
        runs := setAt world.runs owner
          (if world.row.ownsLease now owner then some { run with checked := true } else none) }
  | .finishRun owner outcome =>
    (world.runs owner).bind fun run =>
      if run.checked then
        let row := world.row.finish now owner run.startedAt outcome
        some { world with
          row
          granted := setAt world.granted owner none
          runs := setAt world.runs owner none
          clearings :=
            if world.row.dirty && !row.dirty then
              ⟨outcome, run.startedAt, world.latestMark⟩ :: world.clearings
            else world.clearings }
      else none

/-- What an action did: one constructor for each way its statement can go. -/
inductive Acted (now : Nat) (world : World) : Action → World → Prop
  | marked (reason : Text) : Acted now world (.markDirty reason)
        { world with row := world.row.markDirty now reason, latestMark := some now }
  | acquired (owner : Owner) (reason : Text) (cooldownSecs : Int)
      (hacquirable : world.row.acquirable now (cooldownMs cooldownSecs) = true) :
      Acted now world (.acquire owner reason cooldownSecs)
        { world with
          row := world.row.acquire now owner reason
          granted := setAt world.granted owner (some (now + backgroundLeaseMs)) }
  | refused (owner : Owner) (reason : Text) (cooldownSecs : Int)
      (hrefused : world.row.acquirable now (cooldownMs cooldownSecs) = false) :
      Acted now world (.acquire owner reason cooldownSecs)
        { world with
          refused := setAt world.refused owner
            (some ⟨reason, cooldownMs cooldownSecs, world.row, now⟩) }
  | skipped (owner : Owner) (refusal : Refusal) (hrefusal : world.refused owner = some refusal) :
      Acted now world (.recordSkip owner)
        { world with
          row := world.row.recordSkip now refusal.reason refusal.cooldownMs
          refused := setAt world.refused owner none
          skips := (refusal, world.row.skipReason now refusal.cooldownMs) :: world.skips }
  | acquiredManual (owner : Owner) (hfree : world.row.leaseFree now = true) :
      Acted now world (.acquireManual owner)
        { world with
          row := world.row.acquireManual now owner
          granted := setAt world.granted owner (some (now + backgroundLeaseMs)) }
  | refusedManual (owner : Owner) : Acted now world (.acquireManual owner) world
  | noted (owner : Owner) : Acted now world (.noteSpawnSuccess owner)
        { world with row := world.row.noteSpawnSuccess owner }
  | released (owner : Owner) (reason : Text) : Acted now world (.release owner reason)
        { world with
          row := world.row.release owner reason
          granted := setAt world.granted owner none }
  | started (owner : Owner) : Acted now world (.startRun owner)
        { world with runs := setAt world.runs owner (some ⟨now, false⟩) }
  | checked (owner : Owner) (checkedRun : Option BackgroundRun) : Acted now world (.checkRun owner)
        { world with runs := setAt world.runs owner checkedRun }
  | finished (owner : Owner) (outcome : RunOutcome) (run : BackgroundRun)
      (hrun : world.runs owner = some run) :
      Acted now world (.finishRun owner outcome)
        { world with
          row := world.row.finish now owner run.startedAt outcome
          granted := setAt world.granted owner none
          runs := setAt world.runs owner none
          clearings :=
            if world.row.dirty && !(world.row.finish now owner run.startedAt outcome).dirty then
              ⟨outcome, run.startedAt, world.latestMark⟩ :: world.clearings
            else world.clearings }

theorem World.act_cases {world next : World} {now : Nat} {action : Action}
    (hact : world.act now action = some next) : Acted now world action next := by
  cases action with
  | markDirty reason =>
    obtain rfl := Option.some.inj hact
    exact .marked reason
  | acquire owner reason cooldownSecs =>
    simp only [World.act] at hact
    split at hact
    next => contradiction
    split at hact
    next hacquirable =>
      obtain rfl := Option.some.inj hact
      exact .acquired owner reason cooldownSecs hacquirable
    next hrefused =>
      obtain rfl := Option.some.inj hact
      exact .refused owner reason cooldownSecs (Bool.eq_false_iff.mpr hrefused)
  | recordSkip owner =>
    obtain ⟨refusal, hrefusal, rfl⟩ := Option.map_eq_some_iff.mp hact
    exact .skipped owner refusal hrefusal
  | acquireManual owner =>
    simp only [World.act] at hact
    split at hact
    next hfree =>
      obtain rfl := Option.some.inj hact
      exact .acquiredManual owner hfree
    next =>
      obtain rfl := Option.some.inj hact
      exact .refusedManual owner
  | noteSpawnSuccess owner =>
    obtain rfl := Option.some.inj hact
    exact .noted owner
  | release owner reason =>
    obtain rfl := Option.some.inj hact
    exact .released owner reason
  | startRun owner =>
    simp only [World.act] at hact
    split at hact
    next => contradiction
    next =>
      obtain rfl := Option.some.inj hact
      exact .started owner
  | checkRun owner =>
    obtain ⟨run, _, hchecked⟩ := Option.bind_eq_some_iff.mp hact
    split at hchecked
    next => contradiction
    next =>
      obtain rfl := Option.some.inj hchecked
      exact .checked owner _
  | finishRun owner outcome =>
    obtain ⟨run, hrun, hfinish⟩ := Option.bind_eq_some_iff.mp hact
    split at hfinish
    next =>
      obtain rfl := Option.some.inj hfinish
      exact .finished owner outcome run hrun
    next => contradiction

/-- The clock of a step does not lie before the one of the step before it. -/
def World.step (world : World) (timed : Nat × Action) : Option World :=
  if world.clock ≤ timed.1 then World.act { world with clock := timed.1 } timed.1 timed.2 else none

theorem World.step_eq_some {world next : World} {timed : Nat × Action} :
    world.step timed = some next ↔ world.clock ≤ timed.1 ∧
        World.act { world with clock := timed.1 } timed.1 timed.2 = some next := by
  unfold World.step
  split
  next hclock => simp [hclock]
  next hclock => simp [hclock]

end Difflore.Memory.Autopilot

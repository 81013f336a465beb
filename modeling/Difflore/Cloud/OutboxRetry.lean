import Difflore.Cloud.Outbox

/-! # Retry bound of the outbox

`mark_failed` writes back a count it read in an earlier statement. The bound
on deliveries, and the finality of `abandoned`, hold exactly as long as no such
write is built on a count that was overtaken in between.
-/

namespace Difflore.Cloud.Outbox

open Foundation

variable (approves : Text → Bool)

variable {now : Int} {timed : Int × Action} {world next : World}

/-- A row that is still delivered has failed fewer than the allowed times since
it was enqueued or last drained. -/
def RetryBounded (world : World) : Prop :=
  ∀ id row, world.row id = some row → row.status ≠ .abandoned → world.failures id < maxRetryCount

def isDrain : Action → Bool
  | .drainAbandonedOlderThan _ _ dryRun => !dryRun
  | _ => false

/-- A failure report that sends its row back to `pending` finds it not
abandoned, and failed no more often than the report's own `SELECT` saw. -/
def ReportsFreshCount (world : World) (timed : Int × Action) : Prop :=
  match timed.2 with
  | .markFailedUpdate call =>
    call.retryCount + 1 < maxRetryCount → ∀ row ∈ world.row call.id,
      row.status ≠ .abandoned ∧ world.failures call.id ≤ call.retryCount
  | _ => True

instance (world : World) : (timed : Int × Action) → Decidable (ReportsFreshCount world timed)
  | (_, .markFailedUpdate call) =>
    inferInstanceAs (Decidable (call.retryCount + 1 < maxRetryCount → ∀ row ∈ world.row call.id,
        row.status ≠ .abandoned ∧ world.failures call.id ≤ call.retryCount))
  | (_, .enqueue ..) | (_, .claimNext _) | (_, .claimNextKind ..) | (_, .confirm ..)
  | (_, .markFailedSelect ..) | (_, .resetStale _) | (_, .drainAbandonedOlderThan ..) =>
    isTrue trivial

/-- Only a drain takes a row out of `abandoned`. -/
def OnlyDrainRevives (world : World) (timed : Int × Action) (next : World) : Prop :=
  ∀ id row after, world.row id = some row → row.status = .abandoned →
    next.row id = some after → after.status ≠ .abandoned → isDrain timed.2

/-- The stored count never falls behind the failures of a row in delivery. -/
def RetryInvariant (world : World) : Prop :=
  ∀ id row, world.row id = some row → row.status ≠ .abandoned →
    world.failures id ≤ row.retryCount ∧ row.retryCount < maxRetryCount

namespace RetryInvariant

theorem init : RetryInvariant .init := by
  intro id row hrow
  simp [World.init, World.row, AutoTable.find_empty] at hrow

section

variable (hinv : RetryInvariant world)
include hinv

theorem bounded : RetryBounded world :=
  fun id row hrow hactive =>
    lt_of_le_of_lt (hinv id row hrow hactive).1 (hinv id row hrow hactive).2

theorem preserve (hfailures : next.failures = world.failures)
    (hrow : ∀ id row, next.row id = some row → row.status ≠ .abandoned →
      ∃ old, world.row id = some old ∧ old.status ≠ .abandoned ∧
        old.retryCount = row.retryCount) : RetryInvariant next := by
  intro id row hnext hactive
  obtain ⟨old, hold, holdActive, hcount⟩ := hrow id row hnext hactive
  rw [hfailures, ← hcount]
  exact hinv id old hold holdActive

theorem enqueue (captureEnabled : Bool) (kind payloadJson : Text) (now : Int) :
    RetryInvariant (enqueue captureEnabled kind payloadJson now world).2 := by
  cases captureEnabled with
  | false => exact hinv
  | true =>
    intro id row hrow hactive
    rw [row_enqueue] at hrow
    by_cases hnew : id = world.table.nextKey
    · rw [if_pos hnew] at hrow
      obtain rfl := Option.some.inj hrow
      simp [Outbox.enqueue, hnew, newRow, maxRetryCount]
    · rw [if_neg hnew] at hrow
      simp only [Outbox.enqueue, if_true, Function.update_of_ne hnew]
      exact hinv id row hrow hactive

theorem claim {kind : Option Text} {drainer : Drainer}
    {result : Option Row} (hclaim : claim approves kind drainer now world = (result, next)) :
    RetryInvariant next := by
  obtain ⟨breaker, ⟨_, rfl⟩ | ⟨row, hrow, hclaimable, _, _, rfl⟩⟩ := claim_cases approves hclaim
  · exact hinv
  · refine hinv.preserve rfl ?_
    intro id found hfound hactive
    rw [row_grant, Option.map_eq_some_iff] at hfound
    obtain ⟨old, hold, hset⟩ := hfound
    replace hold : world.row id = some old := hold
    refine ⟨old, hold, ?_, ?_⟩
    · by_cases hsame : old.id = row.id
      · have hid : id = row.id := (AutoTable.find_key hold).symm.trans hsame
        obtain rfl : row = old := Option.some.inj (hrow.symm.trans (hid ▸ hold))
        intro habandoned
        simp [claimableAt, habandoned] at hclaimable
      · rw [if_neg hsame] at hset
        exact hset ▸ hactive
    · rw [← hset]
      split <;> rfl

theorem confirm (drainer : Drainer) (id : RowId) :
    RetryInvariant (confirm drainer id world) := by
  refine hinv.preserve rfl ?_
  intro other row hrow hactive
  rw [row_confirm, Option.filter_eq_some_iff] at hrow
  exact ⟨row, hrow.1, hactive, rfl⟩

theorem markFailedSelect (drainer : Drainer) (id : RowId) (err : Text) :
    RetryInvariant (markFailedSelect drainer id err world) := by
  unfold Outbox.markFailedSelect
  split <;> exact hinv

theorem markFailedUpdate (call : FailingCall)
    (hfresh : ReportsFreshCount world (now, .markFailedUpdate call)) :
    RetryInvariant (markFailedUpdate call now world) := by
  intro id row hrow hactive
  rw [row_markFailedUpdate, Option.map_eq_some_iff] at hrow
  obtain ⟨old, hold, rfl⟩ := hrow
  by_cases hcall : old.id = call.id
  · obtain rfl : id = call.id := (AutoTable.find_key hold).symm.trans hcall
    rw [if_pos hcall] at hactive ⊢
    simp only [Outbox.markFailedUpdate, Function.update_self]
    unfold failRow at hactive ⊢
    split at hactive
    next nextCount hdecide =>
      have hnext := decideRetry_eq_retry_iff.mp hdecide
      obtain ⟨_, hle⟩ := hfresh (hnext.1 ▸ hnext.2) old hold
      show world.failures call.id + 1 ≤ nextCount ∧ nextCount < maxRetryCount
      omega
    next => exact absurd rfl hactive
  · have hne : id ≠ call.id := fun hid => hcall ((AutoTable.find_key hold).trans hid)
    rw [if_neg hcall] at hactive ⊢
    simp only [Outbox.markFailedUpdate, Function.update_of_ne hne]
    exact hinv id old hold hactive

theorem resetStale (thresholdSecs : Nat) (now : Int) :
    RetryInvariant (resetStale thresholdSecs now world) := by
  refine hinv.preserve rfl ?_
  intro id row hrow hactive
  rw [row_resetStale, Option.map_eq_some_iff] at hrow
  obtain ⟨old, hold, rfl⟩ := hrow
  refine ⟨old, hold, ?_, ?_⟩
  · intro habandoned
    rw [if_neg (by simp [staleBefore, habandoned])] at hactive
    exact hactive habandoned
  · split <;> rfl

theorem drainAbandonedOlderThan (drainer : Drainer) (cutoff : Int) (dryRun : Bool) :
    RetryInvariant (drainAbandonedOlderThan drainer cutoff dryRun world).2 := by
  rcases drainAbandonedOlderThan_cases drainer cutoff dryRun world rfl with
    hsame | ⟨hrows, hfailures, _⟩
  · rw [hsame]
    exact hinv
  · intro id row hrow hactive
    rw [hrows, Option.map_eq_some_iff] at hrow
    obtain ⟨old, hold, rfl⟩ := hrow
    rw [hfailures, hold, Option.any_some]
    split
    next => simp [drainRow, maxRetryCount]
    next hkept =>
      rw [if_neg hkept] at hactive
      exact hinv id old hold hactive

theorem step (hfresh : ReportsFreshCount world timed)
    (hstep : world.step approves timed = some next) : RetryInvariant next := by
  obtain ⟨now, action⟩ := timed
  obtain ⟨-, hdone⟩ := performed_of_step hstep
  have hinv : RetryInvariant { world with clock := now } := hinv
  cases hdone with
  | enqueue captureEnabled kind payloadJson =>
    exact hinv.enqueue captureEnabled kind payloadJson now
  | claimNext drainer =>
    exact hinv.claim approves rfl
  | claimNextKind kind drainer =>
    exact hinv.claim approves rfl
  | confirm drainer id =>
    exact hinv.confirm drainer id
  | markFailedSelect drainer id err =>
    exact hinv.markFailedSelect drainer id err
  | markFailedUpdate call =>
    exact hinv.markFailedUpdate call hfresh
  | resetStale thresholdSecs =>
    exact hinv.resetStale thresholdSecs now
  | drainAbandonedOlderThan drainer cutoff dryRun =>
    exact hinv.drainAbandonedOlderThan drainer cutoff dryRun

end

end RetryInvariant

theorem onlyDrainRevives_of_map (condition : Row → Bool) {set : Row → Row}
    (hrows : ∀ id, next.row id =
      (world.row id).map fun row => if condition row then set row else row)
    (hset : ∀ id row, world.row id = some row → row.status = .abandoned → condition row →
      (set row).status ≠ .abandoned → isDrain timed.2) :
    OnlyDrainRevives world timed next := by
  intro id row after hrow habandoned hafter hrevived
  rw [hrows, hrow, Option.map_some] at hafter
  obtain rfl := Option.some.inj hafter
  by_cases hcondition : condition row
  · rw [if_pos hcondition] at hrevived
    exact hset id row hrow habandoned hcondition hrevived
  · rw [if_neg hcondition] at hrevived
    exact absurd habandoned hrevived

theorem onlyDrainRevives_of_row
    (hrows : ∀ id row after, world.row id = some row → next.row id = some after → after = row) :
    OnlyDrainRevives world timed next := by
  intro id row after hrow habandoned hafter hrevived
  rw [hrows id row after hrow hafter] at hrevived
  exact absurd habandoned hrevived

theorem onlyDrainRevives_claim {kind : Option Text} {drainer : Drainer} {result : Option Row}
    (hclaim : claim approves kind drainer now world = (result, next)) :
    OnlyDrainRevives world timed next := by
  obtain ⟨breaker, ⟨_, rfl⟩ | ⟨row, hrow, hclaimable, _, _, rfl⟩⟩ := claim_cases approves hclaim
  · exact onlyDrainRevives_of_row fun id row after hrow hafter =>
      Option.some.inj (hafter.symm.trans hrow)
  · refine onlyDrainRevives_of_map (fun old => old.id = row.id)
      (fun id => by simpa [World.row] using row_grant _ drainer now row id) ?_
    intro id old hold habandoned hsame _
    have hid : id = row.id := (AutoTable.find_key hold).symm.trans (by simpa using hsame)
    obtain rfl : row = old := Option.some.inj (hrow.symm.trans (hid ▸ hold))
    simp [claimableAt, habandoned] at hclaimable

theorem onlyDrainRevives_step (hfresh : ReportsFreshCount world timed)
    (hstep : world.step approves timed = some next) :
    OnlyDrainRevives world timed next := by
  obtain ⟨now, action⟩ := timed
  obtain ⟨-, hdone⟩ := performed_of_step hstep
  cases hdone with
  | enqueue captureEnabled kind payloadJson =>
    refine onlyDrainRevives_of_row fun id row after hrow hafter => ?_
    cases captureEnabled with
    | false => exact Option.some.inj (hafter.symm.trans hrow)
    | true =>
      have hne : id ≠ world.table.nextKey := (AutoTable.find_lt hrow).ne
      rw [row_enqueue, if_neg hne] at hafter
      exact Option.some.inj (hafter.symm.trans hrow)
  | claimNext drainer =>
    change OnlyDrainRevives { world with clock := now } _ _
    exact onlyDrainRevives_claim approves rfl
  | claimNextKind kind drainer =>
    change OnlyDrainRevives { world with clock := now } _ _
    exact onlyDrainRevives_claim approves rfl
  | confirm drainer id =>
    refine onlyDrainRevives_of_row fun other row after hrow hafter => ?_
    rw [row_confirm, Option.filter_eq_some_iff] at hafter
    exact Option.some.inj (hafter.1.symm.trans hrow)
  | markFailedSelect drainer id err =>
    refine onlyDrainRevives_of_row fun other row after hrow hafter => ?_
    unfold markFailedSelect at hafter
    split at hafter <;> exact Option.some.inj (hafter.symm.trans hrow)
  | markFailedUpdate call =>
    refine onlyDrainRevives_of_map (fun row => row.id = call.id)
      (fun id => by simpa [World.row] using row_markFailedUpdate call now _ id) ?_
    intro id row hrow habandoned hcall hrevived
    obtain rfl : id = call.id := (AutoTable.find_key hrow).symm.trans (by simpa using hcall)
    unfold failRow at hrevived
    split at hrevived
    next nextCount hdecide =>
      have hnext := decideRetry_eq_retry_iff.mp hdecide
      exact absurd habandoned (hfresh (hnext.1 ▸ hnext.2) row hrow).1
    next => exact absurd rfl hrevived
  | resetStale thresholdSecs =>
    refine onlyDrainRevives_of_map (staleBefore _) (row_resetStale thresholdSecs now _) ?_
    intro id row _ habandoned hstale _
    simp [staleBefore, habandoned] at hstale
  | drainAbandonedOlderThan drainer cutoff dryRun =>
    cases dryRun with
    | false => exact fun _ _ _ _ _ _ _ => rfl
    | true =>
      refine onlyDrainRevives_of_row fun id row after hrow hafter => ?_
      exact Option.some.inj (hafter.symm.trans hrow)

/-- As long as no report that retries its row builds on an overtaken count,
deliveries stay bounded in every reachable state, and abandoned rows stay
abandoned until they are drained. -/
theorem retryBounded_of_run {schedule : List (Int × Action)} {final : World}
    (hrun : Run (World.step approves) ReportsFreshCount .init schedule final) :
    RetryBounded final ∧ ∀ timed next, ReportsFreshCount final timed →
        final.step approves timed = some next → OnlyDrainRevives final timed next := by
  refine ⟨RetryInvariant.bounded (hrun.invariant ?_ .init), ?_⟩
  · intro world timed next hinv hfresh hstep
    exact hinv.step approves hfresh hstep
  · intro timed next hfresh hstep
    exact onlyDrainRevives_step approves hfresh hstep

def failedAttempt (drainer : Drainer) (now : Int) (retryCount : Int) : List (Int × Action) :=
  [ (now, .claimNext drainer), (now, .markFailedSelect drainer 1 "timeout"),
    (now, .markFailedUpdate ⟨drainer, 1, retryCount, "timeout"⟩) ]

/-- Eight failures in a row abandon the row, and a drain revives it. -/
def exhaustedSchedule : List (Int × Action) := (0, .enqueue true "observation" "{}") ::
    (List.range 8).flatMap (fun attempt => failedAttempt attempt attempt attempt) ++
    [(9, .drainAbandonedOlderThan 1 9 false), (9, .claimNext 9)]

theorem retryBounded_of_run_exhausted :
    ∃ final, Run (World.step fun _ => false) ReportsFreshCount .init exhaustedSchedule final ∧
      RetryBounded final ∧
      ∀ timed next, ReportsFreshCount final timed →
        final.step (fun _ => false) timed = some next → OnlyDrainRevives final timed next := by
  obtain ⟨final, hfinal⟩ : ∃ final, execute (World.step fun _ => false) ReportsFreshCount
      .init exhaustedSchedule = some final := Option.isSome_iff_exists.mp (by decide)
  exact ⟨final, .of_execute hfinal, retryBounded_of_run _ (.of_execute hfinal)⟩

/-- Six failures, then drainer 10 holds the row past its lease. Drainers 11 and
12 fail it twice more and abandon it, while drainer 10 has already read the
count 6 for its own report. -/
def overtakenSchedule : List (Int × Action) := (0, .enqueue true "observation" "{}") ::
    (List.range 6).flatMap (fun attempt => failedAttempt attempt attempt attempt) ++
    [ (6, .claimNext 10), (60007, .claimNext 11), (60007, .markFailedSelect 10 1 "timeout"),
      (60007, .markFailedSelect 11 1 "timeout"),
      (60007, .markFailedUpdate ⟨11, 1, 6, "timeout"⟩) ] ++
    failedAttempt 12 60008 7

def overtakenReport : Int × Action := (60009, .markFailedUpdate ⟨10, 1, 6, "timeout"⟩)

/-- The overtaken report puts an abandoned row, nine times failed, back into
delivery with a count of seven. -/
theorem overtaken_report_revives : ∃ before after, Run (World.step fun _ => false) (fun _ _ => True)
        .init overtakenSchedule before ∧
      before.step (fun _ => false) overtakenReport = some after ∧
      ¬ RetryBounded after ∧ ¬ OnlyDrainRevives before overtakenReport after := by
  have hrun : ∃ before, execute (World.step fun _ => false) (fun _ _ => True)
      .init overtakenSchedule = some before ∧
      ((before.row 1).any fun row => row.status = .abandoned &&
        (before.step (fun _ => false) overtakenReport).any fun after =>
          (after.row 1).any fun revived =>
            revived.status = .pending && after.failures 1 = 9) = true :=
    (Option.any_eq_true _ _).mp (by decide)
  obtain ⟨before, hbefore, hviolated⟩ := hrun
  simp only [Option.any_eq_true, Bool.and_eq_true, decide_eq_true_eq] at hviolated
  obtain ⟨row, hrow, habandoned, after, hafter, revived, hrevived, hpending, hfailures⟩ := hviolated
  refine ⟨before, after, .of_execute hbefore, hafter, ?_, ?_⟩
  · intro hbounded
    have hlt := hbounded 1 revived hrevived (by simp [hpending])
    simp [hfailures, maxRetryCount] at hlt
  · intro hrevives
    have hdrain := hrevives 1 row revived hrow habandoned hrevived (by simp [hpending])
    simp [overtakenReport, isDrain] at hdrain

end Difflore.Cloud.Outbox

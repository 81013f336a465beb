import Difflore.Cloud.OutboxBreaker

/-! # What a drain of abandoned rows revives

A drain tells the age of an abandoned row by `claimed_at`, else by `created_at`. `mark_failed`
clears `claimed_at` with every outcome it writes, so in every reachable state the age that is read
is the age of the row, not of its last attempt.
-/

namespace Difflore.Cloud.Outbox

open Foundation

variable (approves : Text → Bool)

variable {timed : Int × Action} {row : Row} {id : RowId} {watched : Watched} {world next : World}

structure Watched where
  world : World
  lastClaim : RowId → Option Int

namespace Watched

def init : Watched := ⟨.init, fun _ => none⟩

def lastAttempt (watched : Watched) (row : Row) : Int :=
  (watched.lastClaim row.id).getD row.createdAt

end Watched

def claimedBy (world : World) (timed : Int × Action) : Option RowId :=
  match timed.2 with
  | .claimNext drainer =>
    (claimNext approves drainer timed.1 { world with clock := timed.1 }).1.map Row.id
  | .claimNextKind kind drainer =>
    (claimNextKind approves kind drainer timed.1
      { world with clock := timed.1 }).1.map Row.id
  | _ => none

def Watched.step (watched : Watched) (timed : Int × Action) : Option Watched :=
  (watched.world.step approves timed).map fun next =>
    { world := next
      lastClaim := fun id =>
        if claimedBy approves watched.world timed = some id then some timed.1
        else watched.lastClaim id }

/-- The drain resets the abandoned rows whose last attempt lies before the cutoff, and no other. -/
def Watched.DrainsExactly (watched : Watched) (drainer : Drainer) (cutoff : Int) : Prop :=
  ∀ id, (drainAbandonedOlderThan drainer cutoff false watched.world).2.row id =
    (watched.world.row id).map fun row =>
      if row.status = .abandoned ∧ watched.lastAttempt row < cutoff then drainRow row else row

/-! ## What one step does to a row -/

/-- A stored row keeps its creation time, and is abandoned without a claim time. -/
structure Row.Follows (old row : Row) : Prop where
  createdAt : row.createdAt = old.createdAt
  abandoned : row.status = .abandoned → row.claimedAt = none ∨ row = old

theorem Row.Follows.refl (row : Row) : row.Follows row := ⟨rfl, fun _ => .inr rfl⟩

theorem follows_claimRow (now : Int) (row : Row) : row.Follows (claimRow now row) :=
  ⟨rfl, fun habandoned => by cases habandoned⟩

theorem follows_failRow (call : FailingCall) (row : Row) : row.Follows (failRow call row) := by
  unfold failRow
  split
  · exact ⟨rfl, fun _ => .inl rfl⟩
  · exact ⟨rfl, fun _ => .inl rfl⟩

theorem follows_resetRow (row : Row) : row.Follows (resetRow row) := ⟨rfl, fun _ => .inl rfl⟩

theorem follows_drainRow (row : Row) : row.Follows (drainRow row) := ⟨rfl, fun _ => .inl rfl⟩

/-- The rows of `next` are those of `world`, rewritten where the condition holds, and maybe less. -/
theorem exists_follows_of_map {condition : Row → Prop} [DecidablePred condition] {set : Row → Row}
    (hset : ∀ old : Row, old.Follows (set old))
    (hnext : next.row id = (world.row id).map fun old => if condition old then set old else old)
    (hrow : next.row id = some row) : ∃ old, world.row id = some old ∧ old.Follows row := by
  rw [hnext, Option.map_eq_some_iff] at hrow
  obtain ⟨old, hold, rfl⟩ := hrow
  refine ⟨old, hold, ?_⟩
  split
  · exact hset old
  · exact .refl old

theorem exists_follows_claim (world : World) {kind : Option Text} {drainer : Drainer} {now : Int}
    (hrow : (claim approves kind drainer now world).2.row id = some row) :
    ∃ old, world.row id = some old ∧ old.Follows row := by
  obtain ⟨breaker, ⟨_, hnext⟩ | ⟨claimed, _, _, _, _, hnext⟩⟩ :=
    claim_cases approves (Prod.eta (claim approves kind drainer now world)).symm
  · rw [hnext] at hrow
    exact ⟨row, hrow, .refl row⟩
  · rw [hnext] at hrow
    exact exists_follows_of_map (follows_claimRow now)
      (row_grant { world with breaker := breaker } drainer now claimed id) hrow

theorem row_of_step (hstep : world.step approves timed = some next)
    (hrow : next.row id = some row) :
    (∃ old, world.row id = some old ∧ old.Follows row) ∨
      id = world.table.nextKey ∧ row.createdAt = timed.1 ∧ row.status = .pending := by
  obtain ⟨now, action⟩ := timed
  obtain ⟨-, hdone⟩ := performed_of_step hstep
  cases hdone with
  | enqueue captureEnabled kind payloadJson =>
    cases captureEnabled with
    | false => exact .inl ⟨row, hrow, .refl row⟩
    | true =>
      rw [row_enqueue] at hrow
      split at hrow
      next hnew =>
        obtain rfl := Option.some.inj hrow
        exact .inr ⟨hnew, rfl, rfl⟩
      next => exact .inl ⟨row, hrow, .refl row⟩
  | claimNext drainer =>
    exact .inl (exists_follows_claim approves { world with clock := now } hrow)
  | claimNextKind kind drainer =>
    exact .inl (exists_follows_claim approves { world with clock := now } hrow)
  | confirm drainer confirmed =>
    rw [row_confirm, Option.filter_eq_some_iff] at hrow
    exact .inl ⟨row, hrow.1, .refl row⟩
  | markFailedSelect drainer failed err =>
    refine .inl ⟨row, ?_, .refl row⟩
    unfold markFailedSelect at hrow
    split at hrow
    · exact hrow
    · exact hrow
  | markFailedUpdate call =>
    exact .inl (exists_follows_of_map (follows_failRow call)
      (row_markFailedUpdate call now _ id) hrow)
  | resetStale thresholdSecs =>
    exact .inl (exists_follows_of_map follows_resetRow (row_resetStale thresholdSecs now _ id)
      hrow)
  | drainAbandonedOlderThan drainer cutoff dryRun =>
    rcases drainAbandonedOlderThan_cases drainer cutoff dryRun _ rfl with hsame | hdrained
    · rw [hsame] at hrow
      exact .inl ⟨row, hrow, .refl row⟩
    · exact .inl (exists_follows_of_map follows_drainRow (hdrained.1 id) hrow)

theorem nextKey_claim (world : World) (kind : Option Text) (drainer : Drainer) (now : Int) :
    (claim approves kind drainer now world).2.table.nextKey = world.table.nextKey := by
  obtain ⟨breaker, ⟨_, hnext⟩ | ⟨_, _, _, _, _, hnext⟩⟩ :=
    claim_cases approves (Prod.eta (claim approves kind drainer now world)).symm
  · rw [hnext]
  · rw [hnext]
    rfl

theorem nextKey_le_of_step (hstep : world.step approves timed = some next) :
    world.table.nextKey ≤ next.table.nextKey := by
  obtain ⟨now, action⟩ := timed
  obtain ⟨-, hdone⟩ := performed_of_step hstep
  cases hdone with
  | enqueue captureEnabled kind payloadJson =>
    cases captureEnabled with
    | false => exact le_rfl
    | true => exact Nat.le_succ _
  | claimNext drainer =>
    exact (nextKey_claim approves { world with clock := now } none drainer now).ge
  | claimNextKind kind drainer =>
    exact (nextKey_claim approves { world with clock := now } kind drainer now).ge
  | confirm drainer id =>
    exact le_rfl
  | markFailedSelect drainer id err =>
    unfold markFailedSelect
    split
    · exact le_rfl
    · exact le_rfl
  | markFailedUpdate call =>
    exact le_rfl
  | resetStale thresholdSecs =>
    exact le_rfl
  | drainAbandonedOlderThan drainer cutoff dryRun =>
    rcases drainAbandonedOlderThan_cases drainer cutoff dryRun _ rfl with hsame | hdrained
    · rw [hsame]
    · exact hdrained.2.2.2.2.2.ge

theorem exists_row_of_claimedBy (hclaimed : claimedBy approves world timed = some id) :
    ∃ row, world.row id = some row := by
  have hstored : ∀ kind drainer, ((claim approves kind drainer timed.1
      { world with clock := timed.1 }).1.map Row.id = some id) →
        ∃ row, world.row id = some row := by
    intro kind drainer hid
    obtain ⟨breaker, ⟨hnone, _⟩ | ⟨row, hrow, _, _, hresult, _⟩⟩ := claim_cases approves
      (Prod.eta (claim approves kind drainer timed.1 { world with clock := timed.1 })).symm
    · rw [hnone] at hid
      contradiction
    · rw [hresult] at hid
      obtain rfl := Option.some.inj hid
      exact ⟨row, hrow⟩
  unfold claimedBy at hclaimed
  split at hclaimed
  · exact hstored _ _ hclaimed
  · exact hstored _ _ hclaimed
  · contradiction

/-! ## What the stored times say -/

/-- Abandoned rows carry no claim time, and no row is older than its attempts. -/
structure Watched.Dated (watched : Watched) : Prop where
  abandoned : ∀ id row, watched.world.row id = some row → row.status = .abandoned →
    row.claimedAt = none
  created : ∀ id row, watched.world.row id = some row → row.createdAt ≤ watched.world.clock
  attempted : ∀ id row, watched.world.row id = some row →
    ∀ claimedAt ∈ watched.lastClaim id, row.createdAt ≤ claimedAt
  unclaimed : ∀ id, watched.world.table.nextKey ≤ id → watched.lastClaim id = none

namespace Watched.Dated

theorem init : Watched.init.Dated where
  abandoned id row hrow := by simp [Watched.init, World.init, World.row,
    AutoTable.find_empty] at hrow
  created id row hrow := by simp [Watched.init, World.init, World.row, AutoTable.find_empty] at hrow
  attempted id row hrow := by simp [Watched.init, World.init, World.row,
    AutoTable.find_empty] at hrow
  unclaimed _ _ := rfl

theorem step {next : Watched} (hdated : watched.Dated)
    (hstep : watched.step approves timed = some next) : next.Dated := by
  obtain ⟨world, hworld, rfl⟩ := Option.map_eq_some_iff.mp hstep
  obtain ⟨hclock, hnow, _⟩ := breaker_step approves 0 hworld
  have hcreated : ∀ id row, world.row id = some row → row.createdAt ≤ timed.1 := by
    intro id row hrow
    rcases row_of_step approves hworld hrow with ⟨old, hold, hfollows⟩ | ⟨_, hnew, _⟩
    · rw [hfollows.createdAt]
      exact (hdated.created id old hold).trans hclock
    · exact hnew.le
  constructor
  · intro id row hrow habandoned
    rcases row_of_step approves hworld hrow with ⟨old, hold, hfollows⟩ | ⟨_, _, hpending⟩
    · rcases hfollows.abandoned habandoned with hnone | rfl
      · exact hnone
      · exact hdated.abandoned id row hold habandoned
    · rw [hpending] at habandoned
      contradiction
  · intro id row hrow
    rw [hnow]
    exact hcreated id row hrow
  · intro id row hrow claimedAt hclaim
    simp only at hclaim
    split at hclaim
    next =>
      obtain rfl := Option.some.inj hclaim
      exact hcreated id row hrow
    next =>
      rcases row_of_step approves hworld hrow with ⟨old, hold, hfollows⟩ | ⟨hnew, _, _⟩
      · rw [hfollows.createdAt]
        exact hdated.attempted id old hold claimedAt hclaim
      · rw [hdated.unclaimed id hnew.ge] at hclaim
        contradiction
  · intro id hunused
    have hold := (nextKey_le_of_step approves hworld).trans hunused
    simp only
    rw [if_neg, hdated.unclaimed id hold]
    intro hclaimed
    obtain ⟨row, hrow⟩ := exists_row_of_claimedBy approves hclaimed
    exact absurd (AutoTable.find_lt hrow) (by omega)

theorem drainableBefore_iff (hdated : watched.Dated) (hrow : watched.world.row id = some row)
    (cutoff : Int) :
    drainableBefore cutoff row ↔ row.status = .abandoned ∧ row.createdAt < cutoff := by
  unfold drainableBefore
  rw [Bool.and_eq_true, decide_eq_true_iff, decide_eq_true_iff]
  apply and_congr_right
  intro habandoned
  rw [hdated.abandoned id row hrow habandoned, Option.getD_none]

theorem createdAt_le_lastAttempt (hdated : watched.Dated) (hrow : watched.world.row id = some row) :
    row.createdAt ≤ watched.lastAttempt row := by
  unfold Watched.lastAttempt
  rw [AutoTable.find_key hrow]
  cases hclaim : watched.lastClaim id with
  | none => exact le_rfl
  | some claimedAt => exact hdated.attempted id row hrow claimedAt hclaim

end Watched.Dated

theorem row_drain (drainer : Drainer) (cutoff : Int) (world : World) (id : RowId) :
    (drainAbandonedOlderThan drainer cutoff false world).2.row id =
      (world.row id).map fun row => if drainableBefore cutoff row then drainRow row else row := by
  simp only [drainAbandonedOlderThan, Bool.false_or, decide_eq_true_eq]
  split
  next hnothing =>
    have hnone : ∀ row ∈ world.table.rows, ¬ drainableBefore cutoff row := by
      simpa [drainSummary, List.filter_eq_nil_iff] using hnothing
    cases hrow : world.row id with
    | none => rfl
    | some row => rw [Option.map_some, if_neg (hnone row (AutoTable.find_mem hrow))]
  next => exact AutoTable.find_update world.table _ drainRow_id id

theorem drainRow_ne (habandoned : row.status = .abandoned) : drainRow row ≠ row := by
  intro hsame
  have hstatus := congrArg Row.status hsame
  rw [habandoned] at hstatus
  cases hstatus

/-- After every history a drain resets exactly the abandoned rows whose last attempt lies before
the cutoff if and only if no abandoned row was created before the cutoff and attempted since. -/
theorem drain_leaves_recent_iff {schedule : List (Int × Action)} {final : Watched}
    (hrun : Run (Watched.step approves) (fun _ _ => True) .init schedule final)
    (drainer : Drainer) (cutoff : Int) :
    final.DrainsExactly drainer cutoff ↔
      ∀ id row, final.world.row id = some row → row.status = .abandoned →
        row.createdAt < cutoff → final.lastAttempt row < cutoff := by
  have hdated : final.Dated := by
    apply hrun.invariant _ Watched.Dated.init
    intro watched timed next hwatched _ hstep
    exact hwatched.step approves hstep
  unfold Watched.DrainsExactly
  simp only [row_drain]
  constructor
  · intro hexact id row hrow habandoned hcreated
    have hreset := hexact id
    rw [hrow, Option.map_some, Option.map_some,
      if_pos ((hdated.drainableBefore_iff hrow cutoff).mpr ⟨habandoned, hcreated⟩)] at hreset
    by_contra hrecent
    rw [if_neg fun hboth => hrecent hboth.2] at hreset
    exact drainRow_ne habandoned (Option.some.inj hreset)
  · intro hstraddle id
    cases hrow : final.world.row id with
    | none => rfl
    | some row =>
      have hiff : drainableBefore cutoff row ↔
          row.status = .abandoned ∧ final.lastAttempt row < cutoff := by
        rw [hdated.drainableBefore_iff hrow cutoff]
        apply and_congr_right
        intro habandoned
        exact ⟨hstraddle id row hrow habandoned, (hdated.createdAt_le_lastAttempt hrow).trans_lt⟩
      simp only [Option.map_some, hiff]

/-- The row is enqueued at `0` and fails eight times, from `start` on. -/
def abandonedFrom (start : Nat) : List (Int × Action) := (0, .enqueue true "observation" "{}") ::
    (List.range 8).flatMap fun attempt => failedAttempt attempt (start + attempt : Nat) attempt

theorem drain_leaves_recent_iff_of_abandoned :
    ∃ final, Run (Watched.step fun _ => false) (fun _ _ => True) .init (abandonedFrom 0) final ∧
      (final.DrainsExactly 1 9 ↔ ∀ id row, final.world.row id = some row → row.status = .abandoned →
          row.createdAt < 9 → final.lastAttempt row < 9) := by
  obtain ⟨final, hfinal⟩ : ∃ final, execute (Watched.step fun _ => false) (fun _ _ => True)
      .init (abandonedFrom 0) = some final := Option.isSome_iff_exists.mp (by decide)
  exact ⟨final, .of_execute hfinal, drain_leaves_recent_iff _ (.of_execute hfinal) 1 9⟩

/-- A row enqueued before the cutoff is revived although all its attempts came after it. -/
theorem drain_revives_recent_failure : ¬ ∀ (approves : Text → Bool)
    (schedule : List (Int × Action)) (final : Watched),
    Run (Watched.step approves) (fun _ _ => True) .init schedule final →
    ∀ drainer cutoff, final.DrainsExactly drainer cutoff := by
  intro hclaim
  have hrun : ∃ final, execute (Watched.step fun _ => false) (fun _ _ => True)
      .init (abandonedFrom 100) = some final ∧
      ((final.world.row 1).any fun row => decide (50 ≤ final.lastAttempt row) &&
        (row.status = .abandoned &&
          ((drainAbandonedOlderThan 1 50 false final.world).2.row 1).any fun drained =>
            decide (drained.status = .pending))) = true :=
    (Option.any_eq_true _ _).mp (by decide)
  obtain ⟨final, hfinal, hrevived⟩ := hrun
  simp only [Option.any_eq_true, Bool.and_eq_true, decide_eq_true_eq] at hrevived
  obtain ⟨row, hrow, hrecent, habandoned, drained, hdrained, hpending⟩ := hrevived
  have hexact := hclaim _ _ final (.of_execute hfinal) 1 50 1
  rw [hrow, hdrained, Option.map_some, if_neg fun hboth => absurd hboth.2 (by omega)] at hexact
  rw [Option.some.inj hexact, habandoned] at hpending
  contradiction

end Difflore.Cloud.Outbox

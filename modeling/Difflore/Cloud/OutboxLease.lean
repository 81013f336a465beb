import Difflore.Cloud.Outbox

/-! # Lease exclusivity of the outbox

A claim leases a row to one drainer for a minute. The outcome writes name the
row by id alone, so what matters is which of them may hit a row that somebody
else holds: a late `confirm` only removes the row, a late `mark_failed` gives
it back to the queue while the present holder is still uploading it.
-/

namespace Difflore.Cloud.Outbox

open Foundation

variable (approves : Text → Bool)

variable {now : Int} {world next : World}

def leaseMs : Int := defaultStaleSeconds * 1000

def LeaseExclusive (world : World) : Prop :=
  ∀ (kind : Option Text) (drainer : Drainer) (now : Int) (row : Row) (next : World)
    (lease : Lease), world.clock ≤ now →
    claim approves kind drainer now world = (some row, next) →
    world.lease row.id = some lease → now - lease.claimedAt < leaseMs →
    lease.drainer = drainer

/-- A claim at this moment would return a row that somebody else holds. -/
def takesOver (kind : Option Text) (drainer : Drainer) (now : Int) (world : World) : Bool :=
  (claim approves kind drainer now world).1.any fun row =>
    (world.lease row.id).any fun lease =>
      now - lease.claimedAt < leaseMs && lease.drainer ≠ drainer

theorem LeaseExclusive.not_takesOver (hexclusive : LeaseExclusive approves world)
    {kind : Option Text} {drainer : Drainer} (hclock : world.clock ≤ now) :
    ¬ takesOver approves kind drainer now world := by
  intro htakes
  simp only [takesOver, Option.any_eq_true, Bool.and_eq_true, decide_eq_true_eq] at htakes
  obtain ⟨row, hrow, lease, hlease, hlive, hother⟩ := htakes
  exact hother (hexclusive kind drainer now row _ lease hclock (Prod.ext hrow rfl) hlease hlive)

def ResetsAfterStale (timed : Int × Action) : Prop :=
  match timed.2 with
  | .resetStale thresholdSecs => thresholdSecs = defaultStaleSeconds
  | _ => True

instance : (timed : Int × Action) → Decidable (ResetsAfterStale timed)
  | (_, .resetStale thresholdSecs) =>
    inferInstanceAs (Decidable (thresholdSecs = defaultStaleSeconds))
  | (_, .enqueue ..) | (_, .claimNext _) | (_, .claimNextKind ..) | (_, .confirm ..)
  | (_, .markFailedSelect ..) | (_, .markFailedUpdate _) | (_, .drainAbandonedOlderThan ..) =>
    isTrue trivial

/-- A failure report does not hit a row that another drainer holds under a
live lease. -/
def FailureHitsOwnLease (world : World) (timed : Int × Action) : Prop :=
  match timed.2 with
  | .markFailedUpdate call =>
    (world.row call.id).isSome → ∀ lease ∈ world.lease call.id,
      timed.1 - lease.claimedAt < leaseMs → lease.drainer = call.drainer
  | _ => True

instance (world : World) : (timed : Int × Action) → Decidable (FailureHitsOwnLease world timed)
  | (now, .markFailedUpdate call) =>
    inferInstanceAs (Decidable ((world.row call.id).isSome → ∀ lease ∈ world.lease call.id,
      now - lease.claimedAt < leaseMs → lease.drainer = call.drainer))
  | (_, .enqueue ..) | (_, .claimNext _) | (_, .claimNextKind ..) | (_, .confirm ..)
  | (_, .markFailedSelect ..) | (_, .resetStale _) | (_, .drainAbandonedOlderThan ..) =>
    isTrue trivial

/-- A leased row is still `processing` under that claim, unless the lease has
lapsed. Ids are never reused, so a lease cannot move to another row. -/
structure LeaseInvariant (world : World) : Prop where
  lease_lt : ∀ id lease, world.lease id = some lease → id < world.table.nextKey
  held : ∀ id lease row, world.lease id = some lease → world.row id = some row →
    row.status = .processing ∧ row.claimedAt = some lease.claimedAt ∨
      leaseMs ≤ world.clock - lease.claimedAt

namespace LeaseInvariant

theorem init : LeaseInvariant .init where
  lease_lt := by simp [World.init]
  held := by simp [World.init]

section

variable (hinv : LeaseInvariant world)
include hinv

/-- A step that grants nothing keeps the invariant if it leaves every row that
is still leased alone, or touches it after the lease has lapsed. -/
theorem preserve
    (hkey : world.table.nextKey ≤ next.table.nextKey) (hclock : world.clock ≤ next.clock)
    (hlease : ∀ id lease, next.lease id = some lease → world.lease id = some lease)
    (hrow : ∀ id lease row, next.lease id = some lease → next.row id = some row →
      world.row id = some row ∨ leaseMs ≤ next.clock - lease.claimedAt) :
    LeaseInvariant next where
  lease_lt id lease hid := lt_of_lt_of_le (hinv.lease_lt id lease (hlease id lease hid)) hkey
  held id lease row hid hnext := by
    rcases hrow id lease row hid hnext with hsame | hlapsed
    · rcases hinv.held id lease row (hlease id lease hid) hsame with hheld | hlapsed
      · exact .inl hheld
      · exact .inr (by omega)
    · exact .inr hlapsed

theorem advance (hclock : world.clock ≤ now) :
    LeaseInvariant { world with clock := now } :=
  hinv.preserve le_rfl hclock (fun _ _ hid => hid) (fun _ _ _ _ hrow => .inl hrow)

theorem enqueue (captureEnabled : Bool) (kind payloadJson : Text) (now : Int) :
    LeaseInvariant (enqueue captureEnabled kind payloadJson now world).2 := by
  cases captureEnabled with
  | false => exact hinv
  | true =>
    refine hinv.preserve (Nat.le_succ _) le_rfl (fun _ _ hid => hid) ?_
    intro id lease row hid hrow
    have hne : id ≠ world.table.nextKey := (hinv.lease_lt id lease hid).ne
    rw [row_enqueue, if_neg hne] at hrow
    exact .inl hrow

/-- The granted row is `processing` under the new lease; other rows keep theirs. -/
theorem grant (drainer : Drainer) {row : Row} (hrow : world.row row.id = some row) :
    LeaseInvariant (world.grant drainer now row) := by
  constructor
  · intro id lease hlease
    by_cases hid : id = row.id
    · have hlt : row.id < world.table.nextKey := AutoTable.find_lt hrow
      exact hid ▸ hlt
    · simp only [World.grant, Function.update_of_ne hid] at hlease
      exact hinv.lease_lt id lease hlease
  · intro id lease found hlease hfound
    rw [row_grant, Option.map_eq_some_iff] at hfound
    obtain ⟨old, hold, rfl⟩ := hfound
    have holdId : old.id = id := AutoTable.find_key hold
    by_cases hid : id = row.id
    · simp only [World.grant, hid, Function.update_self, Option.some.injEq] at hlease
      subst lease
      left
      simp [holdId, hid, claimRow]
    · simp only [World.grant, Function.update_of_ne hid] at hlease
      rw [if_neg (holdId ▸ hid)]
      exact hinv.held id lease old hlease hold

theorem claim {kind : Option Text} {drainer : Drainer}
    {result : Option Row} (hclaim : claim approves kind drainer now world = (result, next)) :
    LeaseInvariant next := by
  obtain ⟨breaker, ⟨_, rfl⟩ | ⟨row, hrow, _, _, _, rfl⟩⟩ := claim_cases approves hclaim
  · exact hinv.preserve le_rfl le_rfl (fun _ _ hid => hid) (fun _ _ _ _ hrow => .inl hrow)
  · have hbreaker : LeaseInvariant { world with breaker := breaker } :=
      hinv.preserve le_rfl le_rfl (fun _ _ hid => hid) (fun _ _ _ _ hrow => .inl hrow)
    exact hbreaker.grant drainer hrow

/-- A late `confirm` removes the row from under its present holder, which is
harmless: a deleted row is never claimed again. -/
theorem confirm (drainer : Drainer) (id : RowId) :
    LeaseInvariant (confirm drainer id world) := by
  refine hinv.preserve le_rfl le_rfl (fun _ _ => reported_eq_some) ?_
  intro other lease row _ hrow
  rw [row_confirm, Option.filter_eq_some_iff] at hrow
  exact .inl hrow.1

theorem markFailedSelect (drainer : Drainer) (id : RowId) (err : Text) :
    LeaseInvariant (markFailedSelect drainer id err world) := by
  unfold Outbox.markFailedSelect
  split
  · exact hinv
  · exact hinv.preserve le_rfl le_rfl (fun _ _ hid => hid) (fun _ _ _ _ hrow => .inl hrow)

theorem markFailedUpdate (call : FailingCall)
    (hclock : world.clock = now) (hown : FailureHitsOwnLease world (now, .markFailedUpdate call)) :
    LeaseInvariant (markFailedUpdate call now world) := by
  refine hinv.preserve le_rfl le_rfl (fun _ _ => reported_eq_some) ?_
  intro id lease row hid hrow
  rw [row_markFailedUpdate, Option.map_eq_some_iff] at hrow
  obtain ⟨old, hold, hset⟩ := hrow
  by_cases hcall : old.id = call.id
  · right
    have hsame : id = call.id := (AutoTable.find_key hold).symm.trans hcall
    subst hsame
    have hother := drainer_ne_of_reported hid
    have hsome : (world.row call.id).isSome := by rw [hold]; rfl
    have hlapsed : ¬ now - lease.claimedAt < leaseMs := fun hlive =>
      hother (hown hsome lease (reported_eq_some hid) hlive)
    show leaseMs ≤ world.clock - lease.claimedAt
    omega
  · rw [if_neg hcall] at hset
    exact .inl (hset ▸ hold)

theorem resetStale (hclock : world.clock = now) :
    LeaseInvariant (resetStale defaultStaleSeconds now world) := by
  refine hinv.preserve le_rfl le_rfl (fun _ _ hid => hid) ?_
  intro id lease row hid hrow
  rw [row_resetStale, Option.map_eq_some_iff] at hrow
  obtain ⟨old, hold, hset⟩ := hrow
  split at hset
  next hstale =>
    right
    simp only [staleBefore, Bool.and_eq_true, decide_eq_true_eq, Option.any_eq_true] at hstale
    obtain ⟨_, claimedAt, hclaimed, hcutoff⟩ := hstale
    show leaseMs ≤ world.clock - lease.claimedAt
    rcases hinv.held id lease old hid hold with ⟨_, hheld⟩ | hlapsed
    · have hsame : claimedAt = lease.claimedAt := Option.some.inj (hclaimed.symm.trans hheld)
      simp only [leaseMs]
      omega
    · exact hlapsed
  next => exact .inl (hset ▸ hold)

theorem drainAbandonedOlderThan (drainer : Drainer) (cutoff : Int) (dryRun : Bool) :
    LeaseInvariant (drainAbandonedOlderThan drainer cutoff dryRun world).2 := by
  rcases drainAbandonedOlderThan_cases drainer cutoff dryRun world rfl with
    hsame | ⟨hrows, _, hlease, _, hclock, hkey⟩
  · rw [hsame]
    exact hinv
  · refine hinv.preserve hkey.ge hclock.ge (fun _ _ hid => hlease ▸ hid) ?_
    intro id lease row hid hrow
    rw [hrows, Option.map_eq_some_iff] at hrow
    obtain ⟨old, hold, hset⟩ := hrow
    rw [hlease] at hid
    split at hset
    next hdrainable =>
      right
      rw [hclock]
      rcases hinv.held id lease old hid hold with ⟨hprocessing, _⟩ | hlapsed
      · simp [drainableBefore, hprocessing] at hdrainable
      · exact hlapsed
    next => exact .inl (hset ▸ hold)

theorem step {timed : Int × Action} (hresets : ResetsAfterStale timed)
    (hown : FailureHitsOwnLease world timed) (hstep : world.step approves timed = some next) :
    LeaseInvariant next := by
  obtain ⟨now, action⟩ := timed
  obtain ⟨hclock, hdone⟩ := performed_of_step hstep
  have hinv := hinv.advance hclock
  cases hdone with
  | enqueue captureEnabled kind payloadJson =>
    exact hinv.enqueue captureEnabled kind payloadJson now
  | claimNext drainer =>
    exact hinv.claim approves rfl
  | claimNextKind kind drainer =>
    exact hinv.claim approves rfl
  | confirm drainer id =>
    exact hinv.confirm drainer id
  | markFailedSelect drainer id err =>
    exact hinv.markFailedSelect drainer id err
  | markFailedUpdate call =>
    exact hinv.markFailedUpdate call rfl hown
  | resetStale thresholdSecs =>
    have hthreshold : thresholdSecs = defaultStaleSeconds := hresets
    subst hthreshold
    exact hinv.resetStale rfl
  | drainAbandonedOlderThan drainer cutoff dryRun =>
    exact hinv.drainAbandonedOlderThan drainer cutoff dryRun

theorem exclusive : LeaseExclusive approves world := by
  intro kind drainer now row next lease hclock hclaim hlease hlive
  obtain ⟨_, ⟨hnone, _⟩ | ⟨old, hold, hclaimable, _, hrow, _⟩⟩ := claim_cases approves hclaim
  · contradiction
  · obtain rfl := Option.some.inj hrow
    exfalso
    rcases hinv.held old.id lease old hlease hold with ⟨hprocessing, hheld⟩ | hlapsed
    · -- The row is `processing`, so only the staleness branch can have picked it.
      simp only [claimableAt, hprocessing, hheld, Option.any_some, decide_eq_true_eq] at hclaimable
      simp only [leaseMs] at hlive
      omega
    · omega

end

end LeaseInvariant

/-- As long as no failure report hits a row that another drainer holds, every
state that any number of drainers can reach keeps leases exclusive. -/
theorem leaseExclusive_of_run {schedule : List (Int × Action)} {final : World}
    (hrun : Run (World.step approves)
      (fun world timed => ResetsAfterStale timed ∧ FailureHitsOwnLease world timed)
      .init schedule final) :
    LeaseExclusive approves final := by
  refine LeaseInvariant.exclusive approves (hrun.invariant ?_ .init)
  intro world timed next hinv hguard hstep
  exact hinv.step approves hguard.1 hguard.2 hstep

/-- A queue where every claim, report and recovery stays with its own lease. -/
def orderlySchedule : List (Int × Action) := [ (0, .enqueue true "observation" "{}"),
    (0, .claimNext 1),
    (60001, .claimNext 2),
    (60002, .confirm 1 1),
    (60003, .enqueue true "observation" "{}"),
    (60003, .claimNextKind "observation" 1),
    (60004, .markFailedSelect 1 2 "timeout"),
    (60005, .markFailedUpdate ⟨1, 2, 0, "timeout"⟩),
    (60006, .claimNext 2),
    (60006, .resetStale 60) ]

theorem leaseExclusive_of_run_orderly : ∃ final, execute (World.step fun _ => false)
        (fun world timed => ResetsAfterStale timed ∧ FailureHitsOwnLease world timed)
        .init orderlySchedule = some final ∧
      LeaseExclusive (fun _ => false) final := by
  obtain ⟨final, hfinal⟩ : ∃ final, execute (World.step fun _ => false)
      (fun world timed => ResetsAfterStale timed ∧ FailureHitsOwnLease world timed)
      .init orderlySchedule = some final := Option.isSome_iff_exists.mp (by decide)
  exact ⟨final, hfinal, leaseExclusive_of_run _ (.of_execute hfinal)⟩

/-- Drainer 1 reports its failure after its lease lapsed and drainer 2 took
the row over. -/
def lateFailureSchedule : List (Int × Action) := [ (0, .enqueue true "observation" "{}"),
    (0, .claimNext 1),
    (60001, .claimNext 2),
    (60002, .markFailedSelect 1 1 "timeout"),
    (60003, .markFailedUpdate ⟨1, 1, 0, "timeout"⟩) ]

/-- The late failure hands the row to drainer 3 while drainer 2 holds it. -/
theorem late_failure_breaks_leaseExclusive :
    ∃ final, Run (World.step fun _ => false) (fun _ timed => ResetsAfterStale timed)
        .init lateFailureSchedule final ∧
      ¬ LeaseExclusive (fun _ => false) final := by
  have hrun : ∃ final, execute (World.step fun _ => false) (fun _ timed => ResetsAfterStale timed)
      .init lateFailureSchedule = some final ∧ (final.clock ≤ 60004 &&
        takesOver (fun _ => false) none 3 60004 final) = true :=
    (Option.any_eq_true _ _).mp (by decide)
  obtain ⟨final, hfinal, hviolated⟩ := hrun
  simp only [Bool.and_eq_true, decide_eq_true_eq] at hviolated
  refine ⟨final, .of_execute hfinal, ?_⟩
  exact fun hexclusive => hexclusive.not_takesOver _ hviolated.1 hviolated.2

end Difflore.Cloud.Outbox

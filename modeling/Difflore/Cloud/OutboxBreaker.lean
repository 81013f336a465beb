import Difflore.Cloud.OutboxRetry

/-! # The circuit breaker of the outbox

Every process counts its failures since its last `confirm`, or since a drain reset the
breaker. From the third on each failure closes the queue to the claims of that process
for a minute; when the minute has passed the next failure does so again.
-/

namespace Difflore.Cloud.Outbox

open Foundation

variable (approves : Text → Bool) (drainer : Drainer)

variable {schedule : List (Int × Action)} {start final : World}
  {guard : World → Int × Action → Prop}

/-- A drain that finds rows to reset also resets the breaker of its process. -/
def resetsBreaker (world : World) : Action → Bool
  | .drainAbandonedOlderThan caller cutoff dryRun =>
    caller = drainer && !dryRun && world.table.rows.any (drainableBefore cutoff)
  | _ => false

def isFailure : Action → Bool
  | .markFailedUpdate call => call.drainer = drainer
  | _ => false

def isConfirm : Action → Bool
  | .confirm caller _ => caller = drainer
  | _ => false

/-- Failures since the last `confirm` or reset, after one more action. -/
def failuresAfter (count : Nat) (world : World) (action : Action) : Nat :=
  if isFailure drainer action then count + 1
  else if isConfirm drainer action || resetsBreaker drainer world action then 0
  else count

/-- Failures since the last `confirm` or reset along a schedule. -/
def failuresSince : Nat → World → List (Int × Action) → Nat
  | count, _, [] => count
  | count, world, timed :: rest =>
    match World.step approves world timed with
    | none => count
    | some next =>
      failuresSince (failuresAfter drainer count world timed.2) next rest

/-! ## What a step does to the breaker -/

def breakerAfter (world : World) (now : Int) : Action → Breaker
  | .claimNext caller | .claimNextKind _ caller =>
    if caller = drainer then (circuitState (world.breaker drainer) now).2
    else world.breaker drainer
  | .confirm caller _ =>
    if caller = drainer then { world.breaker drainer with consecutiveFailures := 0 }
    else world.breaker drainer
  | .markFailedUpdate call =>
    if call.drainer = drainer then (world.breaker drainer).fail now else world.breaker drainer
  | .drainAbandonedOlderThan caller cutoff dryRun =>
    if resetsBreaker drainer world (.drainAbandonedOlderThan caller cutoff dryRun) then .closed
    else world.breaker drainer
  | .enqueue .. | .markFailedSelect .. | .resetStale _ => world.breaker drainer

theorem breaker_claim (kind : Option Text) (caller : Drainer) (now : Int) (world : World) :
    (claim approves kind caller now world).2.breaker drainer =
      if caller = drainer then (circuitState (world.breaker drainer) now).2
      else world.breaker drainer := by
  have hupdate : ∀ breaker : Breaker, Function.update world.breaker caller breaker drainer =
        if caller = drainer then breaker else world.breaker drainer := by
    intro breaker
    by_cases hcaller : caller = drainer
    · subst hcaller
      rw [Function.update_self, if_pos rfl]
    · rw [Function.update_of_ne (Ne.symm hcaller), if_neg hcaller]
  unfold claim
  split
  next until_ breaker hopen =>
    split
    next hcaller =>
      subst hcaller
      -- An open breaker is left as it is.
      unfold circuitState at hopen ⊢
      split at hopen
      next => cases hopen
      next =>
        split at hopen
        next => cases hopen
        next hunset hearly => rw [if_neg hunset, if_neg hearly]
    next => rfl
  next breaker hclosed =>
    have hcircuit : caller = drainer → breaker = (circuitState (world.breaker drainer) now).2 := by
      rintro rfl
      rw [hclosed]
    simp only
    split
    next =>
      simp only [hupdate]
      split
      next hcaller => exact hcircuit hcaller
      next => rfl
    next =>
      simp only [World.grant, hupdate]
      split
      next hcaller => exact hcircuit hcaller
      next => rfl

theorem clock_claim (kind : Option Text) (caller : Drainer) (now : Int) (world : World) :
    (claim approves kind caller now world).2.clock = world.clock := by
  unfold claim
  split
  next => rfl
  next =>
    simp only
    split
    next => rfl
    next => rfl

theorem breaker_drain (caller : Drainer) (cutoff : Int) (dryRun : Bool) (world : World) :
    (drainAbandonedOlderThan caller cutoff dryRun world).2.breaker drainer =
      if resetsBreaker drainer world (.drainAbandonedOlderThan caller cutoff dryRun) then .closed
      else world.breaker drainer := by
  have htotal : (drainSummary ((world.table.rows.filter (drainableBefore cutoff)).map
      Row.kind)).total = 0 ↔ world.table.rows.any (drainableBefore cutoff) = false := by
    simp [drainSummary, List.filter_eq_nil_iff]
  simp only [drainAbandonedOlderThan]
  split
  next hnothing =>
    rw [if_neg]
    simp only [resetsBreaker, Bool.and_eq_true, decide_eq_true_eq, Bool.not_eq_true',
      Bool.or_eq_true, htotal] at hnothing ⊢
    rintro ⟨⟨_, hwet⟩, hfound⟩
    rcases hnothing with hdry | hnone
    · rw [hwet] at hdry
      cases hdry
    · rw [hnone] at hfound
      cases hfound
  next hsome =>
    simp only [Bool.or_eq_true, not_or, decide_eq_true_eq, htotal, Bool.not_eq_true,
      Bool.not_eq_false] at hsome
    obtain ⟨hwet, hfound⟩ := hsome
    by_cases hcaller : caller = drainer
    · subst hcaller
      simp [resetsBreaker, hwet, hfound]
    · simp [resetsBreaker, hcaller, Function.update_of_ne (Ne.symm hcaller)]

theorem breaker_step {world next : World} {timed : Int × Action}
    (hstep : World.step approves world timed = some next) :
    world.clock ≤ timed.1 ∧ next.clock = timed.1 ∧
      next.breaker drainer = breakerAfter drainer world timed.1 timed.2 := by
  obtain ⟨now, action⟩ := timed
  obtain ⟨hclock, hdone⟩ := performed_of_step hstep
  refine ⟨hclock, ?_⟩
  cases hdone with
  | enqueue captureEnabled kind payloadJson =>
    unfold enqueue
    split
    next => exact ⟨rfl, rfl⟩
    next => exact ⟨rfl, rfl⟩
  | claimNext caller =>
    exact ⟨clock_claim .., breaker_claim ..⟩
  | claimNextKind kind caller =>
    exact ⟨clock_claim .., breaker_claim ..⟩
  | confirm caller id =>
    refine ⟨rfl, ?_⟩
    by_cases hcaller : caller = drainer
    · subst hcaller
      simp [confirm, breakerAfter]
    · simp [confirm, breakerAfter, hcaller, Function.update_of_ne (Ne.symm hcaller)]
  | markFailedSelect caller id err =>
    unfold markFailedSelect
    split
    next => exact ⟨rfl, rfl⟩
    next => exact ⟨rfl, rfl⟩
  | markFailedUpdate call =>
    refine ⟨rfl, ?_⟩
    by_cases hcaller : call.drainer = drainer
    · subst hcaller
      simp [markFailedUpdate, breakerAfter]
    · simp [markFailedUpdate, breakerAfter, hcaller, Function.update_of_ne (Ne.symm hcaller)]
  | resetStale thresholdSecs =>
    exact ⟨rfl, rfl⟩
  | drainAbandonedOlderThan caller cutoff dryRun =>
    refine ⟨?_, breaker_drain ..⟩
    simp only [drainAbandonedOlderThan]
    split
    next => rfl
    next => rfl

section

variable {drainer} {world : World} {now : Int}

theorem consecutiveFailures_breakerAfter (action : Action) :
    (breakerAfter drainer world now action).consecutiveFailures = if isFailure drainer action then
        ((world.breaker drainer).consecutiveFailures + 1) % 2 ^ 32
      else if isConfirm drainer action || resetsBreaker drainer world action then 0
      else (world.breaker drainer).consecutiveFailures := by
  have hcircuit : ∀ breaker : Breaker,
      (circuitState breaker now).2.consecutiveFailures = breaker.consecutiveFailures := by
    intro breaker
    unfold circuitState
    split
    next => rfl
    next => split <;> rfl
  have hfail : ∀ breaker : Breaker,
      (breaker.fail now).consecutiveFailures = (breaker.consecutiveFailures + 1) % 2 ^ 32 := by
    intro breaker
    unfold Breaker.fail
    simp only
    split <;> rfl
  cases action with
  | claimNext caller =>
    simp only [breakerAfter, isFailure, isConfirm, resetsBreaker]
    split
    next => simpa using hcircuit _
    next => rfl
  | claimNextKind kind caller =>
    simp only [breakerAfter, isFailure, isConfirm, resetsBreaker]
    split
    next => simpa using hcircuit _
    next => rfl
  | confirm caller id =>
    by_cases hcaller : caller = drainer <;>
      simp [breakerAfter, isFailure, isConfirm, resetsBreaker, hcaller]
  | markFailedUpdate call =>
    by_cases hcaller : call.drainer = drainer
    · simpa [breakerAfter, isFailure, hcaller] using hfail _
    · simp [breakerAfter, isFailure, isConfirm, resetsBreaker, hcaller]
  | drainAbandonedOlderThan caller cutoff dryRun =>
    simp only [breakerAfter, isFailure, isConfirm, Bool.false_or, Bool.false_eq_true, if_false]
    split
    next => rfl
    next => rfl
  | enqueue captureEnabled kind payloadJson => rfl
  | markFailedSelect caller id err => rfl
  | resetStale thresholdSecs => rfl

theorem le_circuitOpenUntilMs_breakerAfter {deadline : Int} {action : Action}
    (hopen : deadline ≤ (world.breaker drainer).circuitOpenUntilMs) (hearly : now < deadline)
    (hduration : deadline ≤ now + circuitOpenDurationMs)
    (hkept : resetsBreaker drainer world action = false) :
    deadline ≤ (breakerAfter drainer world now action).circuitOpenUntilMs := by
  have hcircuit : (circuitState (world.breaker drainer) now).2 = world.breaker drainer := by
    unfold circuitState
    split
    next => rfl
    next => rw [if_neg (by omega)]
  cases action with
  | claimNext caller =>
    simp only [breakerAfter, hcircuit, ite_self]
    exact hopen
  | claimNextKind kind caller =>
    simp only [breakerAfter, hcircuit, ite_self]
    exact hopen
  | confirm caller id =>
    simp only [breakerAfter]
    split
    next => exact hopen
    next => exact hopen
  | markFailedUpdate call =>
    simp only [breakerAfter, Breaker.fail]
    split
    next =>
      split
      next => exact hduration
      next => exact hopen
    next => exact hopen
  | drainAbandonedOlderThan caller cutoff dryRun =>
    simp only [breakerAfter, hkept, Bool.false_eq_true, if_false]
    exact hopen
  | enqueue captureEnabled kind payloadJson => exact hopen
  | markFailedSelect caller id err => exact hopen
  | resetStale thresholdSecs => exact hopen

theorem circuitOpenUntilMs_breakerAfter_le {bound : Int} {action : Action}
    (hopen : (world.breaker drainer).circuitOpenUntilMs ≤ bound) (hbound : 0 ≤ bound)
    (hfailure : isFailure drainer action → now + circuitOpenDurationMs ≤ bound) :
    (breakerAfter drainer world now action).circuitOpenUntilMs ≤ bound := by
  have hcircuit : (circuitState (world.breaker drainer) now).2.circuitOpenUntilMs ≤ bound := by
    unfold circuitState
    split
    next => exact hopen
    next =>
      split
      next => exact hbound
      next => exact hopen
  cases action with
  | claimNext caller =>
    simp only [breakerAfter]
    split
    next => exact hcircuit
    next => exact hopen
  | claimNextKind kind caller =>
    simp only [breakerAfter]
    split
    next => exact hcircuit
    next => exact hopen
  | confirm caller id =>
    simp only [breakerAfter]
    split
    next => exact hopen
    next => exact hopen
  | markFailedUpdate call =>
    simp only [breakerAfter, Breaker.fail]
    split
    next hcaller =>
      split
      next => exact hfailure (by simp [isFailure, hcaller])
      next => exact hopen
    next => exact hopen
  | drainAbandonedOlderThan caller cutoff dryRun =>
    simp only [breakerAfter]
    split
    next => exact hbound
    next => exact hopen
  | enqueue captureEnabled kind payloadJson => exact hopen
  | markFailedSelect caller id err => exact hopen
  | resetStale thresholdSecs => exact hopen

end

section

variable {approves drainer}

theorem claim_of_open {world : World} {kind : Option Text} {now : Int}
    (hset : (world.breaker drainer).circuitOpenUntilMs ≠ 0)
    (hopen : now < (world.breaker drainer).circuitOpenUntilMs) :
    (claim approves kind drainer now world).1 = none := by
  have hcircuit : circuitState (world.breaker drainer) now =
      (some (world.breaker drainer).circuitOpenUntilMs, world.breaker drainer) := by
    rw [circuitState, if_neg hset, if_neg (by omega)]
  rw [claim, hcircuit]

theorem claim_of_closed {world : World} {kind : Option Text} {now : Int}
    (hclosed : (world.breaker drainer).circuitOpenUntilMs ≤ now) :
    (claim approves kind drainer now world).1 =
      (oldest (claimCandidates approves kind (now - defaultStaleSeconds * 1000)
        world.table.rows)).map (claimRow now) := by
  have hcircuit : (circuitState (world.breaker drainer) now).1 = none := by
    unfold circuitState
    split
    next => rfl
    next => simp
  unfold claim
  split
  next until_ breaker hopen =>
    rw [hopen] at hcircuit
    cases hcircuit
  next =>
    simp only
    split
    next hnone => rw [hnone]; rfl
    next row hrow => rw [hrow]; rfl

/-! ## Runs -/

/-- The counter of a process holds its failures since the last `confirm` or reset. -/
theorem consecutiveFailures_of_run {count : Nat}
    (hrun : Run (World.step approves) guard start schedule final)
    (hcount : (start.breaker drainer).consecutiveFailures = count % 2 ^ 32) :
    (final.breaker drainer).consecutiveFailures =
      failuresSince approves drainer count start schedule % 2 ^ 32 := by
  induction hrun generalizing count with
  | nil state => exact hcount
  | cons _ taken _ ih =>
    rw [failuresSince, taken]
    apply ih
    rw [(breaker_step approves drainer taken).2.2, consecutiveFailures_breakerAfter, hcount,
      failuresAfter]
    split
    next => rw [Nat.mod_add_mod]
    next =>
      split
      next => rfl
      next => rfl

theorem failuresSince_append {middle : World} {first : List (Int × Action)}
    (hrun : Run (World.step approves) guard start first middle) (count : Nat)
    (second : List (Int × Action)) :
    failuresSince approves drainer count start (first ++ second) = failuresSince approves drainer
        (failuresSince approves drainer count start first) middle second := by
  induction hrun generalizing count with
  | nil state => rfl
  | cons _ taken _ ih =>
    rw [List.cons_append, failuresSince, failuresSince, taken]
    exact ih _

/-- Without a `confirm` or reset the count does not fall. -/
theorem le_failuresSince (hguard : ∀ world timed, guard world timed →
      isConfirm drainer timed.2 = false ∧ resetsBreaker drainer world timed.2 = false) {count : Nat}
    (hrun : Run (World.step approves) guard start schedule final) :
    count ≤ failuresSince approves drainer count start schedule := by
  induction hrun generalizing count with
  | nil state => exact le_rfl
  | @cons state middle final timed rest allowed taken _ ih =>
    obtain ⟨hconfirm, hreset⟩ := hguard _ _ allowed
    rw [failuresSince, taken]
    have hafter : count ≤ failuresAfter drainer count state timed.2 := by
      rw [failuresAfter, hconfirm, hreset]
      split
      next => omega
      next => exact le_rfl
    exact hafter.trans ih

theorem clock_of_run (hrun : Run (World.step approves) guard start schedule final) :
    start.clock ≤ final.clock := by
  induction hrun with
  | nil state => exact le_rfl
  | cons _ taken _ ih =>
    obtain ⟨hle, heq, _⟩ := breaker_step approves 0 taken
    omega

theorem deadline_of_run
    (hguard : ∀ world timed, guard world timed → resetsBreaker drainer world timed.2 = false)
    {deadline : Int} (hrun : Run (World.step approves) guard start schedule final)
    (hduration : deadline ≤ start.clock + circuitOpenDurationMs)
    (hopen : deadline ≤ (start.breaker drainer).circuitOpenUntilMs)
    (hearly : final.clock < deadline) :
    deadline ≤ (final.breaker drainer).circuitOpenUntilMs := by
  induction hrun with
  | nil state => exact hopen
  | cons allowed taken tail ih =>
    obtain ⟨hle, hclock, hbreaker⟩ := breaker_step approves drainer taken
    have hlast := clock_of_run tail
    apply ih (by omega) _ hearly
    rw [hbreaker]
    exact le_circuitOpenUntilMs_breakerAfter hopen (by omega) (by omega) (hguard _ _ allowed)

theorem closed_of_run {bound : Int} (hbound : 0 ≤ bound)
    (hguard : ∀ world timed, guard world timed → isFailure drainer timed.2 →
      timed.1 + circuitOpenDurationMs ≤ bound)
    (hrun : Run (World.step approves) guard start schedule final)
    (hopen : (start.breaker drainer).circuitOpenUntilMs ≤ bound) :
    (final.breaker drainer).circuitOpenUntilMs ≤ bound := by
  let inv : World → Prop := fun world => (world.breaker drainer).circuitOpenUntilMs ≤ bound
  show inv final
  refine hrun.invariant ?_ hopen
  intro world timed next hinv allowed taken
  show (next.breaker drainer).circuitOpenUntilMs ≤ bound
  rw [(breaker_step approves drainer taken).2.2]
  exact circuitOpenUntilMs_breakerAfter_le hinv hbound (hguard _ _ allowed)

end

/-- The failure at the end of a run brings its process to three or more. -/
structure Trips (approves : Text → Bool) (before : List (Int × Action)) (t₀ : Int)
    (call : FailingCall) (opened : World) : Prop where
  run : ∃ world, Run (World.step approves) (fun _ _ => True) .init before world ∧
    World.step approves world (t₀, .markFailedUpdate call) = some opened
  reached : circuitFailureThreshold ≤ failuresSince approves call.drainer 0 .init
    (before ++ [(t₀, .markFailedUpdate call)])
  counted : failuresSince approves call.drainer 0 .init
    (before ++ [(t₀, .markFailedUpdate call)]) < 2 ^ 32

theorem Trips.circuitOpenUntilMs {approves : Text → Bool} {before : List (Int × Action)}
    {t₀ : Int} {call : FailingCall} {opened : World}
    (htrips : Trips approves before t₀ call opened) :
    0 ≤ t₀ ∧ opened.clock = t₀ ∧
      (opened.breaker call.drainer).circuitOpenUntilMs = t₀ + circuitOpenDurationMs := by
  obtain ⟨world, hrun, hstep⟩ := htrips.run
  obtain ⟨hle, hclock, hbreaker⟩ := breaker_step approves call.drainer hstep
  have hstart : (0 : Int) ≤ world.clock := clock_of_run hrun
  have hcount := @consecutiveFailures_of_run approves call.drainer _ _ _ _ 0 hrun rfl
  have hlast : failuresSince approves call.drainer 0 .init
      (before ++ [(t₀, .markFailedUpdate call)]) =
      failuresSince approves call.drainer 0 .init before + 1 := by
    rw [failuresSince_append hrun, failuresSince, hstep]
    simp [failuresSince, failuresAfter, isFailure]
  have hreached := hlast ▸ htrips.reached
  have hcounted := hlast ▸ htrips.counted
  refine ⟨by simp only at hle; omega, hclock, ?_⟩
  have hthreshold : circuitFailureThreshold ≤
      ((world.breaker call.drainer).consecutiveFailures + 1) % 2 ^ 32 := by
    rw [hcount, Nat.mod_add_mod, Nat.mod_eq_of_lt hcounted]
    exact hreached
  rw [hbreaker, breakerAfter, if_pos rfl, Breaker.fail]
  simp only [ge_iff_le, hthreshold, if_true]

/-- Three failures in a row close the queue to the process for a minute; then claims are
served again, and the next failure closes it once more. Only a drain that resets the
breaker cuts the minute short; a `confirm` does not. -/
theorem breaker_of_run (approves : Text → Bool) {before : List (Int × Action)} {t₀ : Int}
    {call : FailingCall} {opened : World} (htrips : Trips approves before t₀ call opened)
    {middle : List (Int × Action)} {later : World} :
    (Run (World.step approves)
        (fun world timed => resetsBreaker call.drainer world timed.2 = false) opened middle later →
      ∀ kind now, later.clock ≤ now → now < t₀ + 60000 →
        (claim approves kind call.drainer now later).1 = none) ∧
    (∀ now, t₀ + 60000 ≤ now → Run (World.step approves)
        (fun _ timed => isFailure call.drainer timed.2 → timed.1 + 60000 ≤ now)
        opened middle later →
      ∀ kind, (claim approves kind call.drainer now later).1 =
        (oldest (claimCandidates approves kind (now - 60 * 1000) later.table.rows)).map
          (claimRow now)) ∧
    (Run (World.step approves) (fun world timed =>
        isConfirm call.drainer timed.2 = false ∧ resetsBreaker call.drainer world timed.2 = false)
        opened middle later →
      ∀ t₁ (next : FailingCall) reopened, next.drainer = call.drainer →
        World.step approves later (t₁, .markFailedUpdate next) = some reopened →
        failuresSince approves call.drainer 0 .init
          (before ++ (t₀, .markFailedUpdate call) :: (middle ++ [(t₁, .markFailedUpdate next)])) <
            2 ^ 32 →
        ∀ kind now, t₁ ≤ now → now < t₁ + 60000 →
          (claim approves kind call.drainer now reopened).1 = none) := by
  obtain ⟨hpos, hclock, hopen⟩ := htrips.circuitOpenUntilMs
  refine ⟨?_, ?_, ?_⟩
  · intro hrun kind now hlater hearly
    have hdeadline := @deadline_of_run approves call.drainer _ _ _ _ (fun _ _ hkept => hkept) _ hrun
      (by rw [hclock]) hopen.ge (by simp only [circuitOpenDurationMs]; omega)
    simp only [circuitOpenDurationMs] at hdeadline
    exact claim_of_open (by omega) (by omega)
  · intro now hpassed hrun kind
    apply claim_of_closed
    refine closed_of_run (by omega) (fun _ _ hkept => hkept) hrun ?_
    rw [hopen]
    exact hpassed
  · intro hrun t₁ next reopened hsame hstep hcounted kind now hlater hearly
    obtain ⟨world, hbefore, hfail⟩ := htrips.run
    have hopened : Run (World.step approves) (fun _ _ => True) world
        [(t₀, .markFailedUpdate call)] opened := .cons trivial hfail (.nil opened)
    have hmiddle : Run (World.step approves) (fun _ _ => True) opened middle later :=
      hrun.mono fun _ _ _ => trivial
    have hsplit :
      before ++ (t₀, .markFailedUpdate call) :: (middle ++ [(t₁, .markFailedUpdate next)]) =
        (before ++ [(t₀, .markFailedUpdate call)]) ++
          (middle ++ [(t₁, .markFailedUpdate next)]) := by
      simp
    have hagain : Trips approves (before ++ (t₀, .markFailedUpdate call) :: middle) t₁ next
        reopened := by
      refine ⟨⟨later, hbefore.append (.cons trivial hfail hmiddle), hstep⟩, ?_, ?_⟩
      · have hcount := @le_failuresSince approves call.drainer _ _ _ _ (fun _ _ hkept => hkept)
          (failuresSince approves call.drainer 0 .init
            (before ++ [(t₀, .markFailedUpdate call)])) hrun
        rw [hsame, List.append_assoc, List.cons_append, hsplit,
          failuresSince_append (hbefore.append hopened), failuresSince_append hrun, failuresSince,
          hstep]
        simp only [failuresSince, failuresAfter, isFailure, hsame, decide_true, if_true]
        exact (htrips.reached.trans hcount).trans (Nat.le_succ _)
      · rw [hsame, List.append_assoc, List.cons_append]
        exact hcounted
    obtain ⟨hlaterPos, _, hreopen⟩ := hagain.circuitOpenUntilMs
    rw [hsame] at hreopen
    simp only [circuitOpenDurationMs] at hreopen
    exact claim_of_open (by omega) (by omega)

/-- A process that fails a row until it is abandoned, a claim every 70 seconds. -/
def slowFailures (attempts : Nat) : List (Int × Action) := (0, .enqueue true "observation" "{}") ::
    (List.range attempts).flatMap fun attempt => failedAttempt 1 (70000 * attempt) attempt

def thirdFailure : FailingCall := ⟨1, 1, 2, "timeout"⟩

theorem trips_slowFailures : ∃ opened,
    Trips (fun _ => false) (slowFailures 2 ++ [(140000, .claimNext 1),
      (140000, .markFailedSelect 1 1 "timeout")]) 140000 thirdFailure opened := by
  obtain ⟨world, hworld, hsome⟩ : ∃ world, execute (World.step fun _ => false) (fun _ _ => True)
      .init (slowFailures 2 ++ [(140000, .claimNext 1),
        (140000, .markFailedSelect 1 1 "timeout")]) = some world ∧
      (world.step (fun _ => false) (140000, .markFailedUpdate thirdFailure)).isSome = true :=
    (Option.any_eq_true _ _).mp (by decide)
  obtain ⟨opened, hopened⟩ := Option.isSome_iff_exists.mp hsome
  exact ⟨opened, ⟨world, .of_execute hworld, hopened⟩, by decide, by decide⟩

theorem breaker_of_run_slowFailures : ∃ opened : World, ∀ kind now, opened.clock ≤ now →
    now < 200000 → (claim (fun _ => false) kind 1 now opened).1 = none := by
  obtain ⟨opened, htrips⟩ := trips_slowFailures
  exact ⟨opened, (@breaker_of_run _ _ _ _ _ htrips _ opened).1 (.nil opened)⟩

/-- Failures since the last `confirm`, whatever drains ran. -/
def failuresSinceConfirm (drainer : Drainer) (schedule : List (Int × Action)) : Nat :=
  schedule.foldl
    (fun count timed =>
      if isFailure drainer timed.2 then count + 1
      else if isConfirm drainer timed.2 then 0 else count) 0

/-- A drain in between starts the count anew. -/
theorem drain_restarts_the_count : ¬ ∀ (approves : Text → Bool)
    (before : List (Int × Action)) (t₀ : Int) (call : FailingCall) (world opened : World)
    (middle : List (Int × Action)) (later : World) (kind : Option Text) (now : Int),
    Run (World.step approves) (fun _ _ => True) .init before world →
    World.step approves world (t₀, .markFailedUpdate call) = some opened →
    3 ≤ failuresSinceConfirm call.drainer (before ++ [(t₀, .markFailedUpdate call)]) →
    Run (World.step approves) (fun _ timed => isDrain timed.2 = false) opened middle later →
    later.clock ≤ now → now < t₀ + 60000 →
    (claim approves kind call.drainer now later).1 = none := by
  intro hclaim
  let before := slowFailures 8 ++ [(560000, .drainAbandonedOlderThan 1 560000 false),
    (560000, .claimNext 1), (560000, .markFailedSelect 1 1 "timeout")]
  let call : FailingCall := ⟨1, 1, 0, "timeout"⟩
  obtain ⟨world, hworld, hafter⟩ : ∃ world, execute (World.step fun _ => false) (fun _ _ => True)
      .init before = some world ∧
      ((world.step (fun _ => false) (560000, .markFailedUpdate call)).any fun opened =>
        opened.clock = 560000 && (claim (fun _ => false) none 1 560000 opened).1.isSome) = true :=
    (Option.any_eq_true _ _).mp (by decide)
  obtain ⟨opened, hopened, hserved⟩ := (Option.any_eq_true _ _).mp hafter
  simp only [Bool.and_eq_true, decide_eq_true_eq] at hserved
  have hnone := hclaim (fun _ => false) before 560000 call world opened [] opened none 560000
    (.of_execute hworld) hopened (by decide) (.nil opened) hserved.1.le (by decide)
  rw [hnone] at hserved
  cases hserved.2

end Difflore.Cloud.Outbox

import Difflore.SessionMine.Trigger

/-! # The backoff after a persistent failure

A recorded stall keeps the triggers that start within the hour from firing. A writer that read
the file before the stall was recorded writes a record without it; the runs below are those
in which nobody overtakes a stall.
-/

namespace Difflore.SessionMine

open Foundation Foundation.Service

/-- A recorded stall, and the hour after the call that recorded it returned. -/
structure StallPeriod where
  stamp : Int
  ends : Int
  deriving DecidableEq

/-- The state file, the latest time seen, and the stall that was recorded and not cleared. -/
structure MineState where
  file : Option SessionMineState
  clock : Int
  stall : Option StallPeriod

namespace MineState

def stamp (state : MineState) : Int := (state.file.getD .default).gateStalledSinceTs

def inForce (state : MineState) : Option StallPeriod := state.stall.filter (state.clock ≤ ·.ends)

end MineState

structure TimedCall where
  time : Int
  call : MineCall

/-- What a call has come to. A trigger remembers the stall in force when it started. -/
inductive MinePhase
  | trigger (start : Option StallPeriod)
  | found (start : Option StallPeriod) (state : SessionMineState)
  | decided (start : Option StallPeriod) (state : SessionMineState) (now : Int)
  | recording
  | recordingOver (state : SessionMineState)
  | stamping (state : SessionMineState) (stamp : Int)
  | stamped (stamp : Int)
  | clearing
  | cleared
  | looking
  deriving DecidableEq

namespace MinePhase

def start : MinePhase → Option StallPeriod
  | .trigger start => start
  | .found start _ => start
  | .decided start _ _ => start
  | _ => none

def enter (state : MineState) (timed : TimedCall) : MinePhase :=
  match timed.call with
  | .afterUserPrompt _ _ | .nowWithForce _ _ _ | .sessionEnd _ | .correction _ =>
    .trigger (state.inForce.filter (timed.time ≤ ·.ends))
  | .recordStall _ => .recording
  | .clearStall => .clearing
  | .status => .looking

def observe : MinePhase → (query : MineQuery) → query.Answer → MinePhase
  | .trigger start, .readState, body => .found start (body.getD .default)
  | .found start state, .nowUnixMs, now => .decided start state now
  | .recording, .readState, body => .recordingOver (body.getD .default)
  | .recordingOver state, .nowUnixMs, now => .stamping state now
  | .stamping _ stamp, .writeState _, _ => .stamped stamp
  | .clearing, .writeState _, _ => .cleared
  | phase, _, _ => phase

end MinePhase

def MineState.write (state : MineState) (time : Int) (phase : MinePhase)
    (written : SessionMineState) : MineState where
  file := some written
  clock := time
  stall := if phase = .clearing then none else state.stall

def MineState.serve (state : MineState) (phase : MinePhase) (time : Int) (query : MineQuery) :
    Option (query.Answer × MineState) :=
  if state.clock ≤ time then
    match query with
    | .readState => some (state.file, { state with clock := time })
    | .nowUnixMs => some (time, { state with clock := time })
    | .writeState written => some (⟨⟩, state.write time phase written)
  else none

def MineState.finish (state : MineState) : MinePhase → MineOutcome → MineState
  | .stamped stamp, _ =>
    let latest := (state.inForce.map StallPeriod.stamp).elim stamp (max stamp)
    { state with stall := some ⟨latest, state.clock + gateStallBackoffMs⟩ }
  | _, _ => state

def mineService : Service MineQuery MineQuery.Answer MineOutcome TimedCall MineState MinePhase Int
    where
  program timed := timed.call.program
  enter := MinePhase.enter
  serve := MineState.serve
  observe := fun _ => MinePhase.observe
  finish := MineState.finish

abbrev MineWorld (Process : Type) :=
  World MineQuery MineQuery.Answer MineOutcome TimedCall MineState MinePhase Process

variable {Process : Type}

/-- No trigger that started within the hour of a stall has decided to fire. -/
def TriggersHeld (world : MineWorld Process) : Prop :=
  ∀ process call phase, world.tasks process = some ⟨call, phase, .done (.decided true)⟩ →
    phase.start = none

def KeepsStall (state : MineState) (time : Int) (written : SessionMineState) : Prop :=
  ∀ period, state.stall = some period → time ≤ period.ends →
    period.stamp ≤ written.gateStalledSinceTs

/-- Nobody overtakes a stall: triggers and older records do not write over it; a clear does not
come before a trigger that started under the stall has read the file; and a trigger that started
under the stall reads a clock before the hour since its stamp is over. -/
def QueryInOrder (world : MineWorld Process) : MinePhase → Int → MineQuery → Prop
  | .clearing, _, .writeState _ => ∀ process task start, world.tasks process = some task →
      task.phase ≠ .trigger (some start)
  | _, time, .writeState written => KeepsStall world.shared time written
  | .found (some start) _, time, .nowUnixMs => time < start.stamp + gateStallBackoffMs
  | .recordingOver _, time, .nowUnixMs => 0 < time
  | _, _, _ => True

/-- A call that recorded a stall returns while the file still holds it. -/
def InOrder (world : MineWorld Process) : Move Process TimedCall Int → Prop
  | .serve process time => ∀ call phase query resume,
      world.tasks process = some ⟨call, phase, .ask query resume⟩ →
      QueryInOrder world phase time query
  | .finish process => ∀ call stamp result,
      world.tasks process = some ⟨call, .stamped stamp, .done result⟩ →
      stamp ≤ world.shared.stamp
  | _ => True

inductive MinePermits : MinePhase → MineQuery → Prop
  | triggerReads (start : Option StallPeriod) : MinePermits (.trigger start) .readState
  | triggerNow (start : Option StallPeriod) (state : SessionMineState) :
      MinePermits (.found start state) .nowUnixMs
  | triggerWrites (start : Option StallPeriod) (state : SessionMineState) (now : Int)
      (written : SessionMineState) : MinePermits (.decided start state now) (.writeState written)
  | recordReads : MinePermits .recording .readState
  | recordNow (state : SessionMineState) : MinePermits (.recordingOver state) .nowUnixMs
  | recordWrites {state : SessionMineState} {stamp : Int} (written : SessionMineState)
      (hstamp : written.gateStalledSinceTs = stamp) :
      MinePermits (.stamping state stamp) (.writeState written)
  | clearReads : MinePermits .clearing .readState
  | clearWrites (written : SessionMineState) : MinePermits .clearing (.writeState written)
  | lookReads : MinePermits .looking .readState
  | lookNow : MinePermits .looking .nowUnixMs

def MineReturns : MinePhase → MineOutcome → Prop
  | .decided _ state now, .decided true => gateStallRetryAfterMs state now = none
  | phase, .decided true => phase.start = none
  | _, _ => True

/-- A stall that was in force, or its successor, still is while its hour lasts. -/
structure Succeeded (state : MineState) (start : StallPeriod) : Prop where
  positive : 0 < start.stamp
  hour : start.stamp + gateStallBackoffMs ≤ start.ends
  successor : state.clock ≤ start.ends → ∃ period, state.stall = some period ∧
    start.stamp ≤ period.stamp ∧ start.ends ≤ period.ends

def mineOutline : Outline MineQuery MineOutcome TimedCall MineState MinePhase where
  good := fun state => ∀ period, state.stall = some period →
    Succeeded state period ∧ period.ends ≤ state.clock + gateStallBackoffMs ∧
      (state.clock ≤ period.ends → period.stamp ≤ state.stamp)
  stable := fun state phase =>
    match phase with
    | .trigger (some start) => Succeeded state start
    | .found (some start) body => 0 < start.stamp ∧ start.stamp + gateStallBackoffMs ≤ start.ends ∧
        (state.clock ≤ start.ends → start.stamp ≤ body.gateStalledSinceTs)
    | .decided (some start) body now => 0 < start.stamp ∧
        start.stamp ≤ body.gateStalledSinceTs ∧ now < start.stamp + gateStallBackoffMs
    | .stamping _ stamp => 0 < stamp ∧ stamp ≤ state.clock
    | .stamped stamp => 0 < stamp ∧ stamp ≤ state.clock
    | _ => True
  permits := fun _ => MinePermits
  returns := fun _ => MineReturns

abbrev Backs {α : Type} (post : MinePhase → α → Prop) : MinePhase → Mine α → Prop :=
  Follows mineService MinePermits post

theorem decision_follows {trigger : Mine Bool} {phase : MinePhase}
    (htrigger : Backs (fun after fire => fire = true → ∃ start body now,
      after = .decided start body now ∧ gateStallRetryAfterMs body now = none) phase trigger) :
    Backs MineReturns phase (decision trigger) := by
  refine htrigger.bind fun after fire hfire => ?_
  cases fire with
  | true =>
    obtain ⟨start, body, now, rfl, hnone⟩ := hfire rfl
    exact hnone
  | false => cases after <;> exact trivial

theorem not_paused {found : Option Int} {rest : Bool} (hfire : (!found.isSome && rest) = true) :
    found = none := by
  cases found with
  | none => rfl
  | some value => simp at hfire

theorem gateStallRetryAfterMs_congr {first second : SessionMineState} (now : Int)
    (hstall : first.gateStalledSinceTs = second.gateStalledSinceTs) :
    gateStallRetryAfterMs first now = gateStallRetryAfterMs second now := by
  unfold gateStallRetryAfterMs
  rw [hstall]

theorem enterSession_gateStalledSinceTs (state : SessionMineState) (sessionId : Option Text) :
    (state.enterSession sessionId).gateStalledSinceTs = state.gateStalledSinceTs := by
  unfold SessionMineState.enterSession
  split
  · split
    · rfl
    · rfl
  · rfl

theorem afterUserPrompt_follows (env : MineEnv) (sessionId : Option Text)
    (start : Option StallPeriod) :
    Backs MineReturns (.trigger start)
      (decision (shouldTriggerAfterUserPrompt env sessionId)) := by
  refine decision_follows ⟨.triggerReads start, fun _ _ => ⟨.triggerNow start _, fun _ now =>
    ⟨.triggerWrites start _ now _, fun _ _ hfire => ⟨start, _, now, rfl, ?_⟩⟩⟩⟩
  exact (gateStallRetryAfterMs_congr now
    (enterSession_gateStalledSinceTs _ sessionId).symm).trans (not_paused hfire)

theorem nowWithForce_follows (env : MineEnv) (turnCount : Int) (forceSessionEnd : Bool)
    (start : Option StallPeriod) :
    Backs MineReturns (.trigger start)
      (decision (shouldTriggerNowWithForce env turnCount forceSessionEnd)) :=
  decision_follows ⟨.triggerReads start, fun _ _ => ⟨.triggerNow start _, fun _ now =>
    ⟨.triggerWrites start _ now _, fun _ _ hfire => ⟨start, _, now, rfl, not_paused hfire⟩⟩⟩⟩

theorem fire_follows {start : Option StallPeriod} {body written : SessionMineState} {now : Int}
    {rest : Bool} :
    Backs (fun after fire => fire = true → ∃ start body now,
        after = .decided start body now ∧ gateStallRetryAfterMs body now = none)
      (.decided start body now)
      (if (!(gateStallRetryAfterMs body now).isSome && rest) = true then
        (do writeState written; pure true : Mine Bool) else pure false) := by
  split
  next hfire =>
    exact ⟨.triggerWrites start body now written, fun _ _ _ =>
      ⟨start, body, now, rfl, not_paused hfire⟩⟩
  next => exact fun hfalse => by contradiction

theorem sessionEnd_follows (env : MineEnv) (start : Option StallPeriod) :
    Backs MineReturns (.trigger start) (decision (shouldTriggerSessionEnd env)) :=
  decision_follows ⟨.triggerReads start, fun _ _ => ⟨.triggerNow start _, fun _ _ => fire_follows⟩⟩

theorem correction_follows (env : MineEnv) (start : Option StallPeriod) :
    Backs MineReturns (.trigger start) (decision (shouldTriggerCorrection env)) :=
  decision_follows ⟨.triggerReads start, fun _ _ => ⟨.triggerNow start _, fun _ _ => fire_follows⟩⟩

theorem mine_follows (state : MineState) (timed : TimedCall) :
    Backs MineReturns (MinePhase.enter state timed) timed.call.program := by
  obtain ⟨time, call⟩ := timed
  cases call with
  | afterUserPrompt env sessionId => exact afterUserPrompt_follows env sessionId _
  | nowWithForce env turnCount forceSessionEnd =>
    exact nowWithForce_follows env turnCount forceSessionEnd _
  | sessionEnd env => exact sessionEnd_follows env _
  | correction env => exact correction_follows env _
  | recordStall reason =>
    exact ⟨.recordReads, fun _ _ => ⟨.recordNow _, fun _ _ => ⟨.recordWrites _ rfl,
      fun _ _ => trivial⟩⟩⟩
  | clearStall =>
    refine ⟨.clearReads, fun _ body => ?_⟩
    change Backs MineReturns .clearing ((if _ then _ else _ : Mine PUnit) >>= _)
    split
    next => exact trivial
    next => exact ⟨.clearWrites _, fun _ _ => trivial⟩
  | status => exact ⟨.lookReads, fun _ _ => ⟨.lookNow, fun _ _ => trivial⟩⟩

/-! ## The outline is sound -/

variable {state next : MineState} {phase : MinePhase} {time : Int}

theorem mine_served {query : MineQuery} {answer : query.Answer}
    (hserve : state.serve phase time query = some (answer, next)) :
    state.clock ≤ time ∧ next.clock = time := by
  unfold MineState.serve at hserve
  split at hserve
  next htime =>
    refine ⟨htime, ?_⟩
    cases query with
    | readState => exact (Prod.mk.inj (Option.some.inj hserve)).2 ▸ rfl
    | nowUnixMs => exact (Prod.mk.inj (Option.some.inj hserve)).2 ▸ rfl
    | writeState written => exact (Prod.mk.inj (Option.some.inj hserve)).2 ▸ rfl
  next => contradiction

theorem mine_read {answer : Option SessionMineState}
    (hserve : state.serve phase time .readState = some (answer, next)) :
    answer = state.file ∧ next = { state with clock := time } := by
  unfold MineState.serve at hserve
  split at hserve
  next =>
    obtain ⟨rfl, rfl⟩ := Prod.mk.inj (Option.some.inj hserve)
    exact ⟨rfl, rfl⟩
  next => contradiction

theorem mine_now {answer : Int} (hserve : state.serve phase time .nowUnixMs = some (answer, next)) :
    answer = time ∧ next = { state with clock := time } := by
  unfold MineState.serve at hserve
  split at hserve
  next =>
    obtain ⟨rfl, rfl⟩ := Prod.mk.inj (Option.some.inj hserve)
    exact ⟨rfl, rfl⟩
  next => contradiction

theorem mine_wrote {written : SessionMineState} {answer : PUnit}
    (hserve : state.serve phase time (.writeState written) = some (answer, next)) :
    next = state.write time phase written := by
  unfold MineState.serve at hserve
  split at hserve
  next => exact (Prod.mk.inj (Option.some.inj hserve)).2.symm
  next => contradiction

theorem Succeeded.mono {start : StallPeriod} (hclock : state.clock ≤ next.clock)
    (hstall : next.stall = state.stall) (hstart : Succeeded state start) :
    Succeeded next start where
  positive := hstart.positive
  hour := hstart.hour
  successor hwithin := by
    rw [hstall]
    exact hstart.successor (Int.le_trans hclock hwithin)

theorem mine_good_of_kept (hgood : mineOutline.good state) (hclock : state.clock ≤ next.clock)
    (hstall : next.stall = state.stall)
    (hkept : ∀ period, state.stall = some period → next.clock ≤ period.ends →
      period.stamp ≤ state.stamp → period.stamp ≤ next.stamp) : mineOutline.good next := by
  intro period hperiod
  rw [hstall] at hperiod
  obtain ⟨hsucceeded, hends, hstamp⟩ := hgood period hperiod
  refine ⟨hsucceeded.mono hclock hstall, by omega, fun hwithin => ?_⟩
  exact hkept period hperiod hwithin (hstamp (Int.le_trans hclock hwithin))

theorem mine_stable_of_clock (hclock : state.clock ≤ next.clock)
    (htrigger : ∀ start, phase = .trigger (some start) → Succeeded state start →
      Succeeded next start)
    (hstable : mineOutline.stable state phase) : mineOutline.stable next phase := by
  cases phase with
  | trigger start =>
    cases start with
    | none => exact trivial
    | some start => exact htrigger start rfl hstable
  | found start body =>
    cases start with
    | none => exact trivial
    | some start =>
      exact ⟨hstable.1, hstable.2.1, fun hwithin =>
        hstable.2.2 (Int.le_trans hclock hwithin)⟩
  | decided start body now =>
    cases start with
    | none => exact trivial
    | some start => exact hstable
  | stamping body stamp => exact ⟨hstable.1, Int.le_trans hstable.2 hclock⟩
  | stamped stamp => exact ⟨hstable.1, Int.le_trans hstable.2 hclock⟩
  | recording | recordingOver | clearing | cleared | looking => exact trivial

theorem mine_stable_of_kept (hclock : state.clock ≤ next.clock) (hstall : next.stall = state.stall)
    (hstable : mineOutline.stable state phase) : mineOutline.stable next phase :=
  mine_stable_of_clock hclock (fun _ _ hstart => hstart.mono hclock hstall) hstable

theorem mine_good_of_write {written : SessionMineState} (hgood : mineOutline.good state)
    (hclock : state.clock ≤ time) (hphase : phase ≠ .clearing)
    (hkeeps : KeepsStall state time written) :
    mineOutline.good (state.write time phase written) := by
  refine mine_good_of_kept hgood hclock (if_neg hphase) fun period hperiod hwithin _ => ?_
  exact hkeeps period hperiod hwithin

theorem inForce_eq_some {period : StallPeriod} (hforce : state.inForce = some period) :
    state.stall = some period ∧ state.clock ≤ period.ends := by
  obtain ⟨hstall, hwithin⟩ := Option.filter_eq_some_iff.mp hforce
  exact ⟨hstall, of_decide_eq_true hwithin⟩

theorem succeeded_of_recorded {stamp : Int} (result : MineOutcome) {start : StallPeriod}
    (hgood : mineOutline.good state) (hstart : Succeeded state start) :
    Succeeded (state.finish (.stamped stamp) result) start where
  positive := hstart.positive
  hour := hstart.hour
  successor hwithin := by
    obtain ⟨period, hperiod, hstamp, hends⟩ := hstart.successor hwithin
    have hin : state.inForce = some period := by
      unfold MineState.inForce
      have hnow : state.clock ≤ period.ends := Int.le_trans hwithin hends
      rw [hperiod, Option.filter_some, if_pos (decide_eq_true hnow)]
    refine ⟨_, rfl, ?_, Int.le_trans hends (hgood period hperiod).2.1⟩
    rw [hin]
    exact Int.le_trans hstamp (Int.le_max_right _ _)

theorem mine_good_of_recorded {stamp : Int} (result : MineOutcome) (hgood : mineOutline.good state)
    (hpositive : 0 < stamp) (hpast : stamp ≤ state.clock) (hkept : stamp ≤ state.stamp) :
    mineOutline.good (state.finish (.stamped stamp) result) := by
  intro period hperiod
  obtain rfl := Option.some.inj hperiod
  -- The stall in force is older than now, and the file still holds one that is no older.
  have hforce : ∀ latest, state.inForce = some latest → latest.stamp ≤ state.clock ∧
      latest.stamp ≤ state.stamp := by
    intro latest hlatest
    obtain ⟨hstall, hwithin⟩ := inForce_eq_some hlatest
    obtain ⟨hsucceeded, hends, hstamp⟩ := hgood latest hstall
    have hhour := hsucceeded.hour
    exact ⟨by omega, hstamp hwithin⟩
  have hends : ∀ ends : Int, ends ≤ ends := Int.le_refl
  cases hlatest : state.inForce with
  | none =>
    refine ⟨⟨hpositive, Int.add_le_add_right hpast _, fun _ => ⟨_, rfl, ?_, hends _⟩⟩, hends _,
      fun _ => hkept⟩
    exact Int.le_of_eq (by rw [hlatest])
  | some latest =>
    obtain ⟨hold, hheld⟩ := hforce latest hlatest
    refine ⟨⟨Int.lt_of_lt_of_le hpositive (Int.le_max_left _ _),
      Int.add_le_add_right (Int.max_le.mpr ⟨hpast, hold⟩) _, fun _ => ⟨_, rfl, ?_, hends _⟩⟩,
      hends _, fun _ => Int.max_le.mpr ⟨hkept, hheld⟩⟩
    exact Int.le_of_eq (by rw [hlatest])

theorem mine_sound [DecidableEq Process] :
    Sound mineService mineOutline (InOrder : MineWorld Process → _ → Prop) where
  follows := mine_follows
  enter state timed hgood := by
    obtain ⟨time, call⟩ := timed
    have hstart : mineOutline.stable state
        (.trigger (state.inForce.filter (time ≤ ·.ends))) := by
      cases hforce : state.inForce.filter (time ≤ ·.ends) with
      | none => exact trivial
      | some period =>
        have hstall := (inForce_eq_some (Option.filter_eq_some_iff.mp hforce).1).1
        exact (hgood period hstall).1
    cases call with
    | afterUserPrompt | nowWithForce | sessionEnd | correction => exact hstart
    | recordStall | clearStall | status => exact trivial
  finish world process call phase result hholds htask hguard _ := by
    have hself := hholds.stable process _ htask
    have hkept (hsame : world.shared.finish phase result = world.shared) :
        mineOutline.good (world.shared.finish phase result) ∧
          ∀ other task, world.tasks other = some task → other ≠ process →
            mineOutline.stable (world.shared.finish phase result) task.phase := by
      rw [hsame]
      exact ⟨hholds.good, fun other task hother _ => hholds.stable other task hother⟩
    cases phase with
    | stamped stamp =>
      have hheld := hguard call stamp result htask
      have hclock : world.shared.clock ≤
          (world.shared.finish (.stamped stamp) result).clock := Int.le_refl _
      exact ⟨mine_good_of_recorded result hholds.good hself.1 hself.2 hheld,
        fun other task hother _ =>
        mine_stable_of_clock hclock
          (fun _ _ hstart => succeeded_of_recorded result hholds.good hstart)
          (hholds.stable other task hother)⟩
    | trigger | found | decided | recording | recordingOver | stamping | clearing | cleared
    | looking => exact hkept rfl
  serve world process call phase query resume time answer next hholds htask hguard hpermits
      hserve := by
    change world.shared.serve phase time query = some (answer, next) at hserve
    have hinOrder := hguard call phase query resume htask
    have hself := hholds.stable process _ htask
    have hclock : world.shared.clock ≤ time ∧ next.clock = time := mine_served hserve
    have hpasses : world.shared.clock ≤ next.clock := hclock.2 ▸ hclock.1
    -- A step that only lets time pass.
    have hquiet (hsame : next = { world.shared with clock := time }) :
        mineOutline.good next ∧ ∀ other task, world.tasks other = some task → other ≠ process →
          mineOutline.stable next task.phase := by
      subst hsame
      exact ⟨mine_good_of_kept hholds.good hpasses rfl fun _ _ _ hstamp => hstamp,
        fun other task hother _ =>
          mine_stable_of_kept hpasses rfl (hholds.stable other task hother)⟩
    have hwrites {written : SessionMineState} (hsame : next = world.shared.write time phase written)
        (hphase : phase ≠ .clearing) (hkeeps : KeepsStall world.shared time written) :
        mineOutline.good next ∧ ∀ other task, world.tasks other = some task → other ≠ process →
          mineOutline.stable next task.phase := by
      subst hsame
      exact ⟨mine_good_of_write hholds.good hclock.1 hphase hkeeps, fun other task hother _ =>
        mine_stable_of_kept hpasses (if_neg hphase) (hholds.stable other task hother)⟩
    cases hpermits with
    | triggerReads start =>
      obtain ⟨rfl, hsame⟩ := mine_read hserve
      refine ⟨(hquiet hsame).1, ?_, (hquiet hsame).2⟩
      cases start with
      | none => exact trivial
      | some start =>
        refine ⟨hself.positive, hself.hour, fun hwithin => ?_⟩
        have hbefore : world.shared.clock ≤ start.ends := Int.le_trans hpasses hwithin
        obtain ⟨period, hperiod, hstamp, hends⟩ := hself.successor hbefore
        exact Int.le_trans hstamp
          ((hholds.good period hperiod).2.2 (Int.le_trans hbefore hends))
    | triggerNow start body =>
      obtain ⟨hanswer, hsame⟩ := mine_now hserve
      refine ⟨(hquiet hsame).1, ?_, (hquiet hsame).2⟩
      cases start with
      | none => exact trivial
      | some start =>
        have hearly : time < start.stamp + gateStallBackoffMs := hinOrder
        have hhour : start.stamp + gateStallBackoffMs ≤ start.ends := hself.2.1
        have hwithin : world.shared.clock ≤ start.ends := by
          have hpast := hclock.1
          omega
        rw [hanswer]
        exact ⟨hself.1, hself.2.2 hwithin, hearly⟩
    | triggerWrites start body now written =>
      have hsame := mine_wrote hserve
      have hkeeps : KeepsStall world.shared time written := hinOrder
      refine ⟨(hwrites hsame (by simp) hkeeps).1, ?_, (hwrites hsame (by simp) hkeeps).2⟩
      cases start with
      | none => exact trivial
      | some start => exact hself
    | recordReads =>
      obtain ⟨rfl, hsame⟩ := mine_read hserve
      exact ⟨(hquiet hsame).1, trivial, (hquiet hsame).2⟩
    | recordNow body =>
      obtain ⟨rfl, hsame⟩ := mine_now hserve
      exact ⟨(hquiet hsame).1, ⟨hinOrder, Int.le_of_eq hclock.2.symm⟩, (hquiet hsame).2⟩
    | @recordWrites body stamp written hstamp =>
      have hsame := mine_wrote hserve
      have hkeeps : KeepsStall world.shared time written := hinOrder
      exact ⟨(hwrites hsame (by simp) hkeeps).1, ⟨hself.1, Int.le_trans hself.2 hpasses⟩,
        (hwrites hsame (by simp) hkeeps).2⟩
    | clearReads =>
      obtain ⟨rfl, hsame⟩ := mine_read hserve
      exact ⟨(hquiet hsame).1, trivial, (hquiet hsame).2⟩
    | clearWrites written =>
      obtain rfl := mine_wrote hserve
      exact ⟨fun period hperiod => (by cases hperiod), trivial, fun other task hother _ =>
        mine_stable_of_clock hpasses
          (fun start hunread _ => absurd hunread (hinOrder other task start hother))
          (hholds.stable other task hother)⟩
    | lookReads =>
      obtain ⟨rfl, hsame⟩ := mine_read hserve
      exact ⟨(hquiet hsame).1, trivial, (hquiet hsame).2⟩
    | lookNow =>
      obtain ⟨rfl, hsame⟩ := mine_now hserve
      exact ⟨(hquiet hsame).1, trivial, (hquiet hsame).2⟩

def atRest (file : Option SessionMineState) (clock : Int) : MineState where
  file := file
  clock := clock
  stall := none

theorem retry_of_recent {state : SessionMineState} {stamp now : Int} (hpositive : 0 < stamp)
    (hstamp : stamp ≤ state.gateStalledSinceTs) (hnow : now < stamp + gateStallBackoffMs) :
    gateStallRetryAfterMs state now ≠ none := by
  unfold gateStallRetryAfterMs
  rw [if_neg (by omega), if_neg (by omega)]
  exact Option.some_ne_none _

theorem triggersHeld_of_holds {world : MineWorld Process}
    (hholds : Holds mineService mineOutline world) : TriggersHeld world := by
  intro process call phase htask
  have hreturns : MineReturns phase (.decided true) := hholds.follows process _ htask
  have hstable := hholds.stable process _ htask
  cases phase with
  | decided start body now =>
    cases start with
    | none => rfl
    | some start =>
      exact absurd hreturns (retry_of_recent hstable.1 hstable.2.1 hstable.2.2)
  | trigger | found => exact hreturns
  | recording | recordingOver | stamping | stamped | clearing | cleared | looking => rfl

/-- In every run in which nobody overtakes a stall, the triggers that start within its hour
hold. -/
theorem triggers_held_of_run [DecidableEq Process] {file : Option SessionMineState} {clock : Int}
    {schedule : List (Move Process TimedCall Int)} {world : MineWorld Process}
    (hrun : Run mineService.step InOrder (start (atRest file clock)) schedule world) :
    TriggersHeld world := by
  have hstart : Holds mineService mineOutline
      (start (atRest file clock) : MineWorld Process) :=
    Holds.start fun period hperiod => by cases hperiod
  exact triggersHeld_of_holds (hstart.run mine_sound hrun)

def plainEnv : MineEnv where
  turns := none
  cooldownMs := none
  correctionCooldownMs := none

def recordedStall : List (Move Bool TimedCall Int) :=
  [.call true ⟨2, .recordStall ['u']⟩, .serve true 2, .serve true 2, .serve true 2, .finish true]

theorem triggers_held_after_stall : ∃ world : MineWorld Bool, TriggersHeld world ∧
      ∃ phase, world.tasks true = some ⟨⟨3, .sessionEnd plainEnv⟩, phase, .done (.decided false)⟩ ∧
        phase.start = some ⟨2, 2 + gateStallBackoffMs⟩ := by
  have hrun : ∃ world : MineWorld Bool, Run mineService.step InOrder (start (atRest none 1))
      (recordedStall ++ [.call true ⟨3, .sessionEnd plainEnv⟩, .serve true 3, .serve true 3])
        world ∧
      ∃ phase, world.tasks true = some ⟨⟨3, .sessionEnd plainEnv⟩, phase, .done (.decided false)⟩ ∧
        phase.start = some ⟨2, 2 + gateStallBackoffMs⟩ := by
    refine ⟨_, .cons trivial rfl (.cons ?_ rfl (.cons ?_ rfl (.cons ?_ rfl (.cons ?_ rfl
      (.cons trivial rfl (.cons ?_ rfl (.cons ?_ rfl (.nil _)))))))), _, rfl, rfl⟩
    · intro call phase query resume htask
      cases htask
      exact trivial
    · intro call phase query resume htask
      cases htask
      exact (by decide : (0 : Int) < 2)
    · intro call phase query resume htask
      cases htask
      exact fun period hperiod => by cases hperiod
    · intro call stamp result htask
      cases htask
      exact Int.le_refl _
    · intro call phase query resume htask
      cases htask
      exact trivial
    · intro call phase query resume htask
      cases htask
      exact (by decide : (3 : Int) < 2 + gateStallBackoffMs)
  obtain ⟨world, hworld, hheld⟩ := hrun
  exact ⟨world, triggers_held_of_run hworld, hheld⟩

/-- A prompt reads the file, a stall is recorded, and the prompt writes what it had read. -/
def overtakenStall : List (Move Bool TimedCall Int) :=
  [.call false ⟨1, .afterUserPrompt plainEnv none⟩, .serve false 1] ++ recordedStall ++
    [.serve false 3, .serve false 3, .finish false, .call true ⟨4, .sessionEnd plainEnv⟩,
      .serve true 4, .serve true 4, .serve true 4]

theorem overtaken_stall_is_lost :
    ¬ ∀ (file : Option SessionMineState) (clock : Int) (schedule : List (Move Bool TimedCall Int))
      (world : MineWorld Bool),
      Run mineService.step (fun _ _ => True) (start (atRest file clock)) schedule world →
        TriggersHeld world := by
  intro hall
  have hrun : ∃ world : MineWorld Bool, Run mineService.step (fun _ _ => True)
      (start (atRest none 1)) overtakenStall world ∧
      ∃ phase, world.tasks true = some ⟨⟨4, .sessionEnd plainEnv⟩, phase, .done (.decided true)⟩ ∧
        phase.start = some ⟨2, 2 + gateStallBackoffMs⟩ :=
    ⟨_, Run.of_execute rfl, _, rfl, rfl⟩
  obtain ⟨world, hworld, phase, hfired, hstart⟩ := hrun
  have hnone := hall none 1 overtakenStall world hworld true _ phase hfired
  rw [hstart] at hnone
  contradiction

end Difflore.SessionMine

import Difflore.SessionMine.Trigger

/-! # The cadence of the miner over whole runs

The triggers are called one after the other, and each call runs to its end. The record on disk
is then a summary of the calls there were: the prompts counted, the latest fires, the session and
the pause.
-/

namespace Difflore.SessionMine

open Foundation Text

inductive CadenceCall
  | prompt (env : MineEnv) (sessionId : Option Text)
  | sessionEnd (env : MineEnv)
  | correction (env : MineEnv)
  | recordStall (reason : Text)
  | clearStall
  deriving DecidableEq

namespace CadenceCall

def call : CadenceCall → MineCall
  | prompt env sessionId => .afterUserPrompt env sessionId
  | sessionEnd env => .sessionEnd env
  | correction env => .correction env
  | recordStall reason => .recordStall reason
  | clearStall => .clearStall

def isCorrection : CadenceCall → Bool
  | correction _ => true
  | _ => false

def mines : CadenceCall → Bool
  | prompt _ _ | sessionEnd _ => true
  | _ => false

end CadenceCall

def serveMine (now : Int) (file : Option SessionMineState) :
    (query : MineQuery) → query.Answer × Option SessionMineState
  | .readState => (file, file)
  | .nowUnixMs => (now, file)
  | .writeState state => (⟨⟩, some state)

def CadenceCall.perform (call : CadenceCall) (now : Int) (file : Option SessionMineState) :
    MineOutcome × Option SessionMineState :=
  call.call.program.run (serveMine now) file

structure Event where
  call : CadenceCall
  time : Int
  fired : Bool
  deriving DecidableEq

structure Cadence where
  file : Option SessionMineState
  past : List Event

def Cadence.step (cadence : Cadence) (timed : CadenceCall × Int) : Cadence :=
  let done := timed.1.perform timed.2 cadence.file
  ⟨done.2, ⟨timed.1, timed.2, done.1 = .decided true⟩ :: cadence.past⟩

def cadence (calls : List (CadenceCall × Int)) : Cadence := calls.foldl Cadence.step ⟨none, []⟩

def lastSession : List Event → Text
  | [] => []
  | event :: older =>
    match event.call with
    | .prompt _ sessionId => ((sessionId.map trim).filter (· ≠ [])).getD (lastSession older)
    | _ => lastSession older

def changesSession (older : List Event) (sessionId : Option Text) : Bool :=
  ((sessionId.map trim).filter (· ≠ [])).any (lastSession older ≠ ·)

/-- The prompts since the later of the last fire of a prompt or a session end and the last change
of the session. -/
def promptsSince : List Event → Nat
  | [] => 0
  | event :: older =>
    match event.call with
    | .prompt _ sessionId =>
      if event.fired then 0
      else if changesSession older sessionId then 1
      else promptsSince older + 1
    | .sessionEnd _ => if event.fired then 0 else promptsSince older
    | _ => promptsSince older

def promptsCounted (older : List Event) (sessionId : Option Text) : Nat :=
  if changesSession older sessionId then 1 else promptsSince older + 1

def stallSince : List Event → Option Int
  | [] => none
  | event :: older =>
    match event.call with
    | .recordStall _ => some event.time
    | .clearStall => none
    | _ => stallSince older

def Paused (past : List Event) (now : Int) : Prop :=
  ∃ since, stallSince past = some since ∧ now - since < gateStallBackoffMs

def lastFire (relevant : CadenceCall → Bool) (past : List Event) : Option Int :=
  (past.find? fun event => relevant event.call && event.fired).map Event.time

def Cadenced (event : Event) (older : List Event) : Prop :=
  match event.call with
  | .prompt env sessionId => event.fired = true ↔ ¬ Paused older event.time ∧
      env.configuredTurnsPerFire ≤ promptsCounted older sessionId
  | .sessionEnd env => event.fired = true → ∀ earlier ∈ older, earlier.call.mines = true →
      earlier.fired = true → env.configuredSessionEndCooldownMs ≤ event.time - earlier.time
  | .correction env => event.fired = true → ∀ earlier ∈ older, earlier.call.isCorrection = true →
      earlier.fired = true → env.configuredCorrectionCooldownMs ≤ event.time - earlier.time
  | .recordStall _ | .clearStall => True

/-- The clock does not go back, and it reads a time after its epoch. -/
structure Clocked (calls : List (CadenceCall × Int)) : Prop where
  monotone : (calls.map Prod.snd).Pairwise (· ≤ ·)
  positive : ∀ timed ∈ calls, 0 < timed.2

section

variable (env : MineEnv) (sessionId : Option Text) (reason : Text) (now : Int)
  (file : Option SessionMineState)

def sessionEndFires (state : SessionMineState) : Bool :=
  !(gateStallRetryAfterMs state now).isSome && (state.lastFireTs = 0 ||
    now - state.lastFireTs ≥ env.configuredSessionEndCooldownMs)

def correctionFires (state : SessionMineState) : Bool :=
  !(gateStallRetryAfterMs state now).isSome && (state.lastCorrectionFireTs = 0 ||
    now - state.lastCorrectionFireTs ≥ env.configuredCorrectionCooldownMs)

def countPrompt (state : SessionMineState) : SessionMineState :=
  let entered := state.enterSession sessionId
  { entered with turnsSinceFire := min (entered.turnsSinceFire + 1) maxI64 }

theorem perform_prompt : (CadenceCall.prompt env sessionId).perform now file =
      (let state := countPrompt sessionId (file.getD .default)
      let fire := !(gateStallRetryAfterMs state now).isSome &&
        decide (state.turnsSinceFire ≥ env.configuredTurnsPerFire)
      (.decided fire, some (if fire then state.fired now else state))) := rfl

theorem run_decision (fire : Bool) (fired : SessionMineState) :
    Program.run (serveMine now) (decision (if fire then (do writeState fired; pure true)
      else pure false)) file = (.decided fire, if fire then some fired else file) := by
  cases fire <;> rfl

theorem perform_sessionEnd : (CadenceCall.sessionEnd env).perform now file =
      (.decided (sessionEndFires env now (file.getD .default)),
        if sessionEndFires env now (file.getD .default) then
          some ((file.getD .default).fired now) else file) := run_decision now file _ _

theorem perform_correction : (CadenceCall.correction env).perform now file =
      (.decided (correctionFires env now (file.getD .default)),
        if correctionFires env now (file.getD .default) then
          some { file.getD .default with lastCorrectionFireTs := now } else file) :=
  run_decision now file _ _

theorem perform_recordStall : (CadenceCall.recordStall reason).perform now file =
      (.done, some { file.getD .default with
        gateStalledSinceTs := now, gateStallReason := truncateReason reason }) := rfl

def stallClear (state : SessionMineState) : Bool :=
  state.gateStalledSinceTs = 0 && state.gateStallReason = []

theorem perform_clearStall : CadenceCall.clearStall.perform now file =
      (.done, if stallClear (file.getD .default) then file
        else some { file.getD .default with gateStalledSinceTs := 0, gateStallReason := [] }) := by
  change Program.run (serveMine now) ((if stallClear (file.getD .default) then pure ⟨⟩ else
    writeState { file.getD .default with gateStalledSinceTs := 0, gateStallReason := [] } :
      Mine PUnit) >>= fun _ => pure MineOutcome.done) file = _
  split <;> rfl

end

/-! ## The record reflects the past -/

structure Reflects (past : List Event) (state : SessionMineState) : Prop where
  turns : state.turnsSinceFire = min (promptsSince past : Int) maxI64
  session : state.lastSessionId = lastSession past
  fire : state.lastFireTs = (lastFire CadenceCall.mines past).getD 0
  correction : state.lastCorrectionFireTs = (lastFire CadenceCall.isCorrection past).getD 0
  stall : state.gateStalledSinceTs = (stallSince past).getD 0

/-- The latest event first, and every one after the epoch of the clock. -/
structure Ordered (past : List Event) : Prop where
  latestFirst : past.Pairwise fun newer older => older.time ≤ newer.time
  positive : ∀ event ∈ past, 0 < event.time

theorem Ordered.tail {event : Event} {older : List Event} (hpast : Ordered (event :: older)) :
    Ordered older :=
  ⟨(List.pairwise_cons.mp hpast.latestFirst).2,
    fun other hother => hpast.positive other (.tail _ hother)⟩

theorem stallSince_pos {past : List Event} (hpast : Ordered past) {since : Int}
    (hsince : stallSince past = some since) : 0 < since := by
  induction past with
  | nil => contradiction
  | cons event older ih =>
    rw [stallSince] at hsince
    split at hsince
    · exact Option.some.inj hsince ▸ hpast.positive event (.head _)
    · contradiction
    · exact ih hpast.tail hsince

theorem Reflects.paused_iff {past : List Event} {state : SessionMineState}
    (hstate : Reflects past state) (hpast : Ordered past) (now : Int) :
    (gateStallRetryAfterMs state now).isSome = true ↔ Paused past now := by
  rw [gateStallRetryAfterMs, hstate.stall, Paused]
  cases hsince : stallSince past with
  | none => simp
  | some since =>
    have hpos := stallSince_pos hpast hsince
    rw [Option.getD_some, if_neg (by omega)]
    dsimp only
    split
    next hover =>
      refine ⟨fun hsome => absurd hsome (by simp), ?_⟩
      rintro ⟨other, hother, hlong⟩
      rw [Option.some.injEq] at hother
      omega
    next hwithin => exact ⟨fun _ => ⟨since, rfl, Int.not_le.mp hwithin⟩, fun _ => rfl⟩

theorem exists_lastFire {relevant : CadenceCall → Bool} {past : List Event}
    (hpast : Ordered past) {earlier : Event} (hearlier : earlier ∈ past)
    (hrelevant : relevant earlier.call = true) (hfired : earlier.fired = true) :
    ∃ time, lastFire relevant past = some time ∧ earlier.time ≤ time ∧ 0 < time := by
  induction past with
  | nil => contradiction
  | cons event older ih =>
    rw [lastFire, List.find?_cons]
    cases hhead : relevant event.call && event.fired with
    | true =>
      refine ⟨event.time, rfl, ?_, hpast.positive event (.head _)⟩
      rcases List.mem_cons.mp hearlier with rfl | holder
      · exact Int.le_refl _
      · exact (List.pairwise_cons.mp hpast.latestFirst).1 earlier holder
    | false =>
      rcases List.mem_cons.mp hearlier with rfl | holder
      · rw [hrelevant, hfired] at hhead
        contradiction
      · exact ih hpast.tail holder

theorem lastFire_cons (relevant : CadenceCall → Bool) (event : Event) (older : List Event) :
    lastFire relevant (event :: older) =
      if relevant event.call && event.fired then some event.time else lastFire relevant older := by
  rw [lastFire, lastFire, List.find?_cons]
  cases relevant event.call && event.fired <;> rfl

theorem configuredTurnsPerFire_le (env : MineEnv) : env.configuredTurnsPerFire ≤ maxI64 := by
  rw [MineEnv.configuredTurnsPerFire, positiveI64]
  generalize hfound : Option.filter _ _ = found
  cases found with
  | none => decide
  | some value =>
    have hvalue := (Option.filter_eq_some_iff.mp hfound).2
    rw [Bool.and_eq_true, decide_eq_true_iff, decide_eq_true_iff] at hvalue
    exact hvalue.2

theorem enterSession_cases (state : SessionMineState) (sessionId : Option Text) :
    state.enterSession sessionId =
      if ((sessionId.map trim).filter (· ≠ [])).any (state.lastSessionId ≠ ·) then
        { state with
          lastSessionId := ((sessionId.map trim).filter (· ≠ [])).getD state.lastSessionId
          turnsSinceFire := 0 }
      else state := by
  rw [SessionMineState.enterSession]
  cases (sessionId.map trim).filter (· ≠ []) with
  | none => rfl
  | some id => simp

theorem Reflects.countPrompt {past : List Event} {state : SessionMineState}
    (hstate : Reflects past state) (sessionId : Option Text) :
    (SessionMine.countPrompt sessionId state).turnsSinceFire =
        min (promptsCounted past sessionId : Int) maxI64 ∧
      (SessionMine.countPrompt sessionId state).lastSessionId =
        ((sessionId.map trim).filter (· ≠ [])).getD (lastSession past) ∧
      SessionMine.countPrompt sessionId state = { state with
        turnsSinceFire := (SessionMine.countPrompt sessionId state).turnsSinceFire
        lastSessionId := (SessionMine.countPrompt sessionId state).lastSessionId } := by
  have hmax : (0 : Int) ≤ maxI64 := by decide
  rw [SessionMine.countPrompt, enterSession_cases, hstate.session, promptsCounted, changesSession]
  dsimp only
  split
  next hchanged => exact ⟨rfl, rfl, rfl⟩
  next hsame =>
    refine ⟨?_, ?_, rfl⟩
    · rw [hstate.turns]
      push_cast
      omega
    · rw [hstate.session]
      cases hid : (sessionId.map trim).filter (· ≠ []) with
      | none => rfl
      | some id =>
        rw [hid, Option.any_some, decide_eq_true_iff, not_not] at hsame
        exact hsame

/-! ## One step -/

section

variable {env : MineEnv} {sessionId : Option Text} {now : Int} {past : List Event}
  {state : SessionMineState}

theorem Reflects.prompt (hstate : Reflects past state) (hpast : Ordered past) :
    let counted := SessionMine.countPrompt sessionId state
    let fire := !(gateStallRetryAfterMs counted now).isSome &&
      decide (counted.turnsSinceFire ≥ env.configuredTurnsPerFire)
    Cadenced ⟨.prompt env sessionId, now, fire⟩ past ∧
      Reflects (⟨.prompt env sessionId, now, fire⟩ :: past)
        (if fire then counted.fired now else counted) := by
  obtain ⟨hturns, hsession, hcounted⟩ := hstate.countPrompt sessionId
  intro counted fire
  have hretry : gateStallRetryAfterMs counted now = gateStallRetryAfterMs state now := by
    change gateStallRetryAfterMs (SessionMine.countPrompt sessionId state) now = _
    rw [hcounted]
    rfl
  have hpaused := hstate.paused_iff hpast now
  have hmax := configuredTurnsPerFire_le env
  have hfire : fire = true ↔ ¬ Paused past now ∧
      env.configuredTurnsPerFire ≤ promptsCounted past sessionId := by
    change (!(gateStallRetryAfterMs counted now).isSome &&
      decide (counted.turnsSinceFire ≥ env.configuredTurnsPerFire)) = true ↔ _
    rw [Bool.and_eq_true, Bool.not_eq_true', ← Bool.not_eq_true, decide_eq_true_iff, hretry,
      hpaused, hturns, ge_iff_le, Int.le_min, and_iff_left hmax]
  refine ⟨hfire, ?_⟩
  have hother : counted.lastFireTs = state.lastFireTs ∧
      counted.lastCorrectionFireTs = state.lastCorrectionFireTs ∧
      counted.gateStalledSinceTs = state.gateStalledSinceTs := by
    change (SessionMine.countPrompt sessionId state).lastFireTs = _ ∧
      (SessionMine.countPrompt sessionId state).lastCorrectionFireTs = _ ∧
      (SessionMine.countPrompt sessionId state).gateStalledSinceTs = _
    rw [hcounted]
    exact ⟨rfl, rfl, rfl⟩
  cases hdecided : fire with
  | true =>
    exact {
      turns := rfl
      session := hsession
      fire := rfl
      correction := hother.2.1.trans hstate.correction
      stall := hother.2.2.trans hstate.stall }
  | false =>
    exact {
      turns := hturns
      session := hsession
      fire := hother.1.trans (by rw [lastFire_cons]; exact hstate.fire)
      correction := hother.2.1.trans hstate.correction
      stall := hother.2.2.trans hstate.stall }

theorem cooled_of_latest {relevant : CadenceCall → Bool} {cooldownMs latest : Int}
    (hpast : Ordered past) (hlatest : latest = (lastFire relevant past).getD 0)
    (hcooled : latest = 0 ∨ cooldownMs ≤ now - latest) :
    ∀ earlier ∈ past, relevant earlier.call = true → earlier.fired = true →
      cooldownMs ≤ now - earlier.time := by
  intro earlier hearlier hrelevant hfired
  obtain ⟨time, htime, hle, hpos⟩ := exists_lastFire hpast hearlier hrelevant hfired
  rw [htime, Option.getD_some] at hlatest
  omega

theorem Reflects.sessionEnd (hstate : Reflects past state) (hpast : Ordered past) :
    Cadenced ⟨.sessionEnd env, now, sessionEndFires env now state⟩ past ∧
      Reflects (⟨.sessionEnd env, now, sessionEndFires env now state⟩ :: past)
        (if sessionEndFires env now state then state.fired now else state) := by
  refine ⟨fun hfire => ?_, ?_⟩
  · apply cooled_of_latest hpast hstate.fire
    dsimp only at hfire
    rw [sessionEndFires, Bool.and_eq_true, Bool.or_eq_true, decide_eq_true_iff,
      decide_eq_true_iff] at hfire
    exact hfire.2
  · cases hdecided : sessionEndFires env now state with
    | true =>
      exact {
        turns := rfl
        session := hstate.session
        fire := rfl
        correction := hstate.correction
        stall := hstate.stall }
    | false =>
      exact {
        turns := hstate.turns
        session := hstate.session
        fire := by rw [lastFire_cons]; exact hstate.fire
        correction := hstate.correction
        stall := hstate.stall }

theorem Reflects.correctionCall (hstate : Reflects past state) (hpast : Ordered past) :
    Cadenced ⟨.correction env, now, correctionFires env now state⟩ past ∧
      Reflects (⟨.correction env, now, correctionFires env now state⟩ :: past)
        (if correctionFires env now state then { state with lastCorrectionFireTs := now }
          else state) := by
  refine ⟨fun hfire => ?_, ?_⟩
  · apply cooled_of_latest hpast hstate.correction
    dsimp only at hfire
    rw [correctionFires, Bool.and_eq_true, Bool.or_eq_true, decide_eq_true_iff,
      decide_eq_true_iff] at hfire
    exact hfire.2
  · cases hdecided : correctionFires env now state with
    | true =>
      exact {
        turns := hstate.turns
        session := hstate.session
        fire := hstate.fire
        correction := rfl
        stall := hstate.stall }
    | false =>
      exact {
        turns := hstate.turns
        session := hstate.session
        fire := hstate.fire
        correction := by rw [lastFire_cons]; exact hstate.correction
        stall := hstate.stall }

end

theorem Cadence.step_reflects {cadence : Cadence} {timed : CadenceCall × Int}
    (hstate : Reflects cadence.past (cadence.file.getD .default)) (hpast : Ordered cadence.past) :
    ∃ event, (cadence.step timed).past = event :: cadence.past ∧ event.call = timed.1 ∧
      event.time = timed.2 ∧ Cadenced event cadence.past ∧
      Reflects (event :: cadence.past) ((cadence.step timed).file.getD .default) := by
  obtain ⟨file, past⟩ := cadence
  obtain ⟨call, now⟩ := timed
  dsimp only at hstate hpast
  refine ⟨_, rfl, rfl, rfl, ?_⟩
  rw [Cadence.step]
  dsimp only
  cases call with
  | prompt env sessionId =>
    obtain ⟨hcadenced, hnext⟩ := hstate.prompt hpast
    rw [perform_prompt]
    simp only [MineOutcome.decided.injEq, Bool.decide_eq_true]
    exact ⟨hcadenced, hnext⟩
  | sessionEnd env =>
    obtain ⟨hcadenced, hnext⟩ := hstate.sessionEnd hpast
    rw [perform_sessionEnd]
    simp only [MineOutcome.decided.injEq, Bool.decide_eq_true]
    refine ⟨hcadenced, ?_⟩
    split <;> simp_all
  | correction env =>
    obtain ⟨hcadenced, hnext⟩ := hstate.correctionCall hpast
    rw [perform_correction]
    simp only [MineOutcome.decided.injEq, Bool.decide_eq_true]
    refine ⟨hcadenced, ?_⟩
    split <;> simp_all
  | recordStall reason =>
    exact ⟨trivial, ⟨hstate.turns, hstate.session, hstate.fire, hstate.correction, rfl⟩⟩
  | clearStall =>
    refine ⟨trivial, ?_⟩
    rw [perform_clearStall]
    dsimp only
    split
    next hclear =>
      rw [stallClear, Bool.and_eq_true, decide_eq_true_iff] at hclear
      exact ⟨hstate.turns, hstate.session, hstate.fire, hstate.correction, hclear.1⟩
    next => exact ⟨hstate.turns, hstate.session, hstate.fire, hstate.correction, rfl⟩

theorem cadence_append (calls : List (CadenceCall × Int)) (timed : CadenceCall × Int) :
    cadence (calls ++ [timed]) = (cadence calls).step timed := by
  rw [cadence, cadence, List.foldl_append]
  rfl

theorem Clocked.of_append {calls : List (CadenceCall × Int)} {timed : CadenceCall × Int}
    (hclocked : Clocked (calls ++ [timed])) :
    Clocked calls ∧ 0 < timed.2 ∧ ∀ earlier ∈ calls, earlier.2 ≤ timed.2 := by
  obtain ⟨hmonotone, hpositive⟩ := hclocked
  rw [List.map_append, List.pairwise_append] at hmonotone
  refine ⟨⟨hmonotone.1, fun other hother => hpositive other (List.mem_append_left _ hother)⟩,
    hpositive timed (List.mem_append_right _ (List.mem_singleton_self _)),
      fun earlier hearlier => ?_⟩
  exact hmonotone.2.2 earlier.2 (List.mem_map_of_mem hearlier) timed.2 (by simp)

/-- What a run keeps: every event obeys the cadence, and the record reflects them all. -/
structure Kept (calls : List (CadenceCall × Int)) : Prop where
  cadenced : ∀ newer event older, (cadence calls).past = newer ++ event :: older →
    Cadenced event older
  reflects : Reflects (cadence calls).past ((cadence calls).file.getD .default)
  ordered : Ordered (cadence calls).past
  timed : ∀ event ∈ (cadence calls).past, ∃ earlier ∈ calls, earlier.2 = event.time

theorem kept_nil : Kept [] where
  cadenced newer event older hpast := by
    rw [cadence, List.foldl_nil] at hpast
    simp at hpast
  reflects := ⟨by decide, rfl, rfl, rfl, rfl⟩
  ordered := ⟨List.Pairwise.nil, fun _ hevent => absurd hevent List.not_mem_nil⟩
  timed _ hevent := absurd hevent List.not_mem_nil

theorem Kept.step {calls : List (CadenceCall × Int)} {timed : CadenceCall × Int}
    (hkept : Kept calls) (hclocked : Clocked (calls ++ [timed])) : Kept (calls ++ [timed]) := by
  obtain ⟨-, hpositive, hlatest⟩ := hclocked.of_append
  obtain ⟨event, hpast, -, htime, hcadenced, hreflects⟩ :=
    @Cadence.step_reflects _ timed hkept.reflects hkept.ordered
  rw [← cadence_append] at hpast hreflects
  refine ⟨fun newer other older hsplit => ?_, hpast ▸ hreflects, ?_, fun other hother => ?_⟩
  · rw [hpast] at hsplit
    cases newer with
    | nil =>
      obtain ⟨rfl, rfl⟩ := List.cons.inj hsplit
      exact hcadenced
    | cons first newer =>
      exact hkept.cadenced newer other older (List.cons.inj hsplit).2
  · rw [hpast]
    refine ⟨List.pairwise_cons.mpr ⟨fun other hother => ?_, hkept.ordered.latestFirst⟩,
      fun other hother => ?_⟩
    · obtain ⟨earlier, hearlier, htimed⟩ := hkept.timed other hother
      exact htimed ▸ htime ▸ hlatest earlier hearlier
    · rcases List.mem_cons.mp hother with rfl | holder
      · exact htime ▸ hpositive
      · exact hkept.ordered.positive other holder
  · rw [hpast] at hother
    rcases List.mem_cons.mp hother with rfl | holder
    · exact ⟨timed, List.mem_append_right _ (List.mem_singleton_self _), htime.symm⟩
    · obtain ⟨earlier, hearlier, htimed⟩ := hkept.timed other holder
      exact ⟨earlier, List.mem_append_left _ hearlier, htimed⟩

theorem kept (calls : List (CadenceCall × Int)) (hclocked : Clocked calls) : Kept calls := by
  induction calls using List.reverseRecOn with
  | nil => exact kept_nil
  | append_singleton calls timed ih => exact (ih hclocked.of_append.1).step hclocked

/-! ## Without the corrections -/

def SameButCorrection (state other : SessionMineState) : Prop :=
  ∃ time, other = { state with lastCorrectionFireTs := time }

theorem SameButCorrection.refl (state : SessionMineState) : SameButCorrection state state :=
  ⟨state.lastCorrectionFireTs, rfl⟩

theorem CadenceCall.perform_congr {call : CadenceCall} (now : Int)
    {file other : Option SessionMineState} (hcall : call.isCorrection = false)
    (hsame : SameButCorrection (file.getD .default) (other.getD .default)) :
    (call.perform now file).1 = (call.perform now other).1 ∧
      SameButCorrection ((call.perform now file).2.getD .default)
        ((call.perform now other).2.getD .default) := by
  obtain ⟨time, hother⟩ := hsame
  cases call with
  | prompt env sessionId =>
    have hcounted : countPrompt sessionId (other.getD .default) =
        { countPrompt sessionId (file.getD .default) with lastCorrectionFireTs := time } := by
      rw [hother, countPrompt, countPrompt, enterSession_cases, enterSession_cases]
      dsimp only
      split <;> rfl
    have hretry : gateStallRetryAfterMs { countPrompt sessionId (file.getD .default) with
          lastCorrectionFireTs := time } now =
        gateStallRetryAfterMs (countPrompt sessionId (file.getD .default)) now := rfl
    rw [perform_prompt, perform_prompt, hcounted]
    refine ⟨rfl, time, ?_⟩
    dsimp only
    rw [hretry, Option.getD_some, Option.getD_some]
    split <;> rfl
  | sessionEnd env =>
    have hfires : sessionEndFires env now (other.getD .default) =
        sessionEndFires env now (file.getD .default) := by rw [hother]; rfl
    rw [perform_sessionEnd, perform_sessionEnd, hfires]
    refine ⟨rfl, time, ?_⟩
    dsimp only
    split
    next => rw [Option.getD_some, Option.getD_some, hother]; rfl
    next => exact hother
  | correction env => contradiction
  | recordStall reason =>
    refine ⟨rfl, time, ?_⟩
    rw [perform_recordStall, perform_recordStall, hother]
    rfl
  | clearStall =>
    have hclear : stallClear (other.getD .default) = stallClear (file.getD .default) := by
      rw [hother]; rfl
    rw [perform_clearStall, perform_clearStall, hclear]
    refine ⟨rfl, time, ?_⟩
    dsimp only
    split
    next => exact hother
    next => rw [Option.getD_some, Option.getD_some, hother]

theorem CadenceCall.perform_correction_same {call : CadenceCall} (now : Int)
    {file other : Option SessionMineState} (hcall : call.isCorrection = true)
    (hsame : SameButCorrection (file.getD .default) (other.getD .default)) :
    SameButCorrection ((call.perform now file).2.getD .default) (other.getD .default) := by
  obtain ⟨time, hother⟩ := hsame
  cases call with
  | correction env =>
    refine ⟨time, ?_⟩
    rw [perform_correction]
    dsimp only
    split
    next => rw [hother, Option.getD_some]
    next => exact hother
  | _ => contradiction

theorem past_without_corrections (calls : List (CadenceCall × Int)) :
    (cadence calls).past.filter (fun event => !event.call.isCorrection) =
        (cadence (calls.filter fun timed => !timed.1.isCorrection)).past ∧
      SameButCorrection ((cadence calls).file.getD .default)
        ((cadence (calls.filter fun timed => !timed.1.isCorrection)).file.getD .default) := by
  induction calls using List.reverseRecOn with
  | nil => exact ⟨rfl, .refl _⟩
  | append_singleton calls timed ih =>
    obtain ⟨hpast, hfile⟩ := ih
    rw [cadence_append, List.filter_append, Cadence.step]
    cases hcall : timed.1.isCorrection with
    | true =>
      have hnone : [timed].filter (fun timed => !timed.1.isCorrection) = [] := by simp [hcall]
      rw [hnone, List.append_nil]
      exact ⟨by rw [List.filter_cons_of_neg (by simp [hcall]), hpast],
        CadenceCall.perform_correction_same timed.2 hcall hfile⟩
    | false =>
      obtain ⟨hdone, hnext⟩ := CadenceCall.perform_congr timed.2 hcall hfile
      have hone : [timed].filter (fun timed => !timed.1.isCorrection) = [timed] := by
        simp [hcall]
      rw [hone, cadence_append, Cadence.step]
      exact ⟨by rw [List.filter_cons_of_pos (by simp [hcall]), hpast, hdone], hnext⟩

theorem cadence_kept (calls : List (CadenceCall × Int)) (hclocked : Clocked calls) :
    (∀ newer event older, (cadence calls).past = newer ++ event :: older → Cadenced event older) ∧
    (cadence calls).past.filter (fun event => !event.call.isCorrection) =
      (cadence (calls.filter fun timed => !timed.1.isCorrection)).past :=
  ⟨(kept calls hclocked).cadenced, (past_without_corrections calls).1⟩

/-- A prompt that fires, a session end within the cooldown, a correction, and a stall. -/
theorem cadence_kept_mixed :
    let env : MineEnv := ⟨some ['1'], none, none⟩
    let calls : List (CadenceCall × Int) := [(.prompt env (some ['s']), 1), (.correction env, 2),
      (.sessionEnd env, 3), (.recordStall ['q'], 4), (.prompt env none, 5), (.clearStall, 6),
      (.prompt env none, 6)]
    Clocked calls ∧ ((cadence calls).past.map Event.fired =
      [true, false, false, false, false, true, true]) ∧
    (∀ newer event older, (cadence calls).past = newer ++ event :: older → Cadenced event older) ∧
    (cadence calls).past.filter (fun event => !event.call.isCorrection) =
      (cadence (calls.filter fun timed => !timed.1.isCorrection)).past := by
  intro env calls
  have hclocked : Clocked calls := ⟨by decide, by decide⟩
  exact ⟨hclocked, by decide +kernel, cadence_kept calls hclocked⟩

/-- A clock at its epoch reads as "never": the second session end fires at once. -/
theorem epoch_fires_twice :
    ¬ ∀ calls : List (CadenceCall × Int), (calls.map Prod.snd).Pairwise (· ≤ ·) →
      ∀ newer event older, (cadence calls).past = newer ++ event :: older →
        Cadenced event older := by
  intro hall
  let env : MineEnv := ⟨none, none, none⟩
  have hsecond := hall [(.sessionEnd env, 0), (.sessionEnd env, 0)] (by decide) []
    ⟨.sessionEnd env, 0, true⟩ [⟨.sessionEnd env, 0, true⟩] (by decide +kernel)
  have hgap := hsecond rfl ⟨.sessionEnd env, 0, true⟩ (List.mem_singleton_self _) rfl rfl
  exact absurd hgap (by decide +kernel)

end Difflore.SessionMine

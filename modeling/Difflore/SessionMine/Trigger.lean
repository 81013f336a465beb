import Difflore.Foundation.Interleaving
import Difflore.Foundation.Lines

/-! # The session-mine fire watermark

Hook processes share one state file. Every trigger reads the whole record, reads the clock,
and writes the whole record back, each in a step of its own; so do the two operations on the
pause that a persistent failure of the gate calls for.
-/

namespace Difflore.SessionMine

open Foundation Text

def turnsPerFire : Int := 20

def sessionEndMineCooldownMs : Int := 300000

def correctionMineCooldownMs : Int := 60000

def gateStallBackoffMs : Int := 60 * 60 * 1000

def maxI64 : Int := 2 ^ 63 - 1

/-- Times are in Unix milliseconds; a fire time of `0` stands for "never", and a stall time of
`0` for "not paused". -/
structure SessionMineState where
  lastFireTs : Int
  turnsSinceFire : Int
  lastSessionId : Text
  gateStalledSinceTs : Int
  gateStallReason : Text
  lastCorrectionFireTs : Int
  deriving DecidableEq

def SessionMineState.default : SessionMineState where
  lastFireTs := 0
  turnsSinceFire := 0
  lastSessionId := []
  gateStalledSinceTs := 0
  gateStallReason := []
  lastCorrectionFireTs := 0

inductive GateCaptureStatus
  | ready
  | paused (sinceTs : Int) (reason : Text) (retryAfterMs : Int)
  deriving DecidableEq

/-- A positive 64-bit number. Any other value, a negative one included, gives the fallback. -/
def positiveI64 (raw : Option Text) (fallback : Int) : Int := ((raw.bind fun value =>
      let digits := (stripPrefix ['+'] (trim value)).getD (trim value)
      if digits ≠ [] && digits.all Char.isDigit then some (digitsValue digits : Int)
      else none).filter fun value => 0 < value && value ≤ maxI64).getD fallback

structure MineEnv where
  turns : Option Text
  cooldownMs : Option Text
  correctionCooldownMs : Option Text
  deriving DecidableEq

namespace MineEnv

variable (env : MineEnv)

def configuredTurnsPerFire : Int := positiveI64 env.turns turnsPerFire

def configuredSessionEndCooldownMs : Int := positiveI64 env.cooldownMs sessionEndMineCooldownMs

def configuredCorrectionCooldownMs : Int :=
  positiveI64 env.correctionCooldownMs correctionMineCooldownMs

end MineEnv

def gateStallRetryAfterMs (state : SessionMineState) (now : Int) : Option Int :=
  if state.gateStalledSinceTs ≤ 0 then none
  else
    let elapsed := now - state.gateStalledSinceTs
    if elapsed ≥ gateStallBackoffMs then none else some (gateStallBackoffMs - elapsed)

def gateCaptureStatusFromState (state : SessionMineState) (now : Int) : GateCaptureStatus :=
  match gateStallRetryAfterMs state now with
  | none => .ready
  | some retryAfterMs =>
    .paused state.gateStalledSinceTs (trim state.gateStallReason) retryAfterMs

def truncateReason (reason : Text) : Text :=
  let firstLine := trim ((Text.lines reason).headD [])
  if firstLine.length ≤ 240 then firstLine else firstLine.take 240 ++ ['.', '.', '.']

/-! ## Programs on the state file -/

/-- A file that is missing or malformed reads as `none`. -/
inductive MineQuery
  | readState
  | nowUnixMs
  | writeState (state : SessionMineState)

abbrev MineQuery.Answer : MineQuery → Type
  | .readState => Option SessionMineState
  | .nowUnixMs => Int
  | .writeState _ => PUnit

abbrev Mine := Program MineQuery MineQuery.Answer

def readState : Mine SessionMineState := do
  let state ← (.ask .readState .done : Mine (Option SessionMineState))
  pure (state.getD .default)

def nowUnixMs : Mine Int := .ask .nowUnixMs .done

def writeState (state : SessionMineState) : Mine PUnit := .ask (.writeState state) .done

def SessionMineState.enterSession (state : SessionMineState) (sessionId : Option Text) :
    SessionMineState :=
  match (sessionId.map trim).filter (· ≠ []) with
  | some sessionId =>
    if state.lastSessionId ≠ sessionId then
      { state with lastSessionId := sessionId, turnsSinceFire := 0 }
    else state
  | none => state

def SessionMineState.fired (state : SessionMineState) (now : Int) : SessionMineState :=
  { state with lastFireTs := now, turnsSinceFire := 0 }

def shouldTriggerAfterUserPrompt (env : MineEnv) (sessionId : Option Text) : Mine Bool := do
  let found ← readState
  let now ← nowUnixMs
  let entered := found.enterSession sessionId
  let state := { entered with turnsSinceFire := min (entered.turnsSinceFire + 1) maxI64 }
  let paused := (gateStallRetryAfterMs state now).isSome
  let fire := !paused && state.turnsSinceFire ≥ env.configuredTurnsPerFire
  writeState (if fire then state.fired now else state)
  pure fire

def shouldTriggerNowWithForce (env : MineEnv) (turnCount : Int) (forceSessionEnd : Bool) :
    Mine Bool := do
  let found ← readState
  let now ← nowUnixMs
  let state := { found with turnsSinceFire := max turnCount found.turnsSinceFire }
  let paused := (gateStallRetryAfterMs state now).isSome
  let fire := !paused && (forceSessionEnd || state.turnsSinceFire ≥ env.configuredTurnsPerFire)
  writeState (if fire then state.fired now else state)
  pure fire

def shouldTriggerSessionEnd (env : MineEnv) : Mine Bool := do
  let state ← readState
  let now ← nowUnixMs
  let paused := (gateStallRetryAfterMs state now).isSome
  let fire := !paused && (state.lastFireTs = 0 ||
    now - state.lastFireTs ≥ env.configuredSessionEndCooldownMs)
  if fire then do
    writeState (state.fired now)
    pure true
  else pure false

def shouldTriggerCorrection (env : MineEnv) : Mine Bool := do
  let state ← readState
  let now ← nowUnixMs
  let paused := (gateStallRetryAfterMs state now).isSome
  let fire := !paused && (state.lastCorrectionFireTs = 0 ||
    now - state.lastCorrectionFireTs ≥ env.configuredCorrectionCooldownMs)
  if fire then do
    writeState { state with lastCorrectionFireTs := now }
    pure true
  else pure false

def recordGateCaptureStall (reason : Text) : Mine PUnit := do
  let state ← readState
  let now ← nowUnixMs
  writeState { state with gateStalledSinceTs := now, gateStallReason := truncateReason reason }

def clearGateCaptureStall : Mine PUnit := do
  let state ← readState
  if state.gateStalledSinceTs = 0 && state.gateStallReason = [] then pure ⟨⟩
  else writeState { state with gateStalledSinceTs := 0, gateStallReason := [] }

def gateCaptureStatus : Mine GateCaptureStatus := do
  let state ← readState
  let now ← nowUnixMs
  pure (gateCaptureStatusFromState state now)

inductive MineCall
  | afterUserPrompt (env : MineEnv) (sessionId : Option Text)
  | nowWithForce (env : MineEnv) (turnCount : Int) (forceSessionEnd : Bool)
  | sessionEnd (env : MineEnv)
  | correction (env : MineEnv)
  | recordStall (reason : Text)
  | clearStall
  | status

inductive MineOutcome
  | decided (fire : Bool)
  | done
  | status (status : GateCaptureStatus)
  deriving DecidableEq

def decision (trigger : Mine Bool) : Mine MineOutcome := do
  let fire ← trigger
  pure (.decided fire)

def MineCall.program : MineCall → Mine MineOutcome
  | .afterUserPrompt env sessionId => decision (shouldTriggerAfterUserPrompt env sessionId)
  | .nowWithForce env turnCount forceSessionEnd =>
    decision (shouldTriggerNowWithForce env turnCount forceSessionEnd)
  | .sessionEnd env => decision (shouldTriggerSessionEnd env)
  | .correction env => decision (shouldTriggerCorrection env)
  | .recordStall reason => do
      recordGateCaptureStall reason
      pure .done
  | .clearStall => do
      clearGateCaptureStall
      pure .done
  | .status => do
      let status ← gateCaptureStatus
      pure (.status status)

end Difflore.SessionMine

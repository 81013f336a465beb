import Difflore.Foundation.Interleaving
import Difflore.Foundation.Text

/-! # The pid file of the outbox daemon

Starting a daemon, stopping one and the end of a process are programs of single file-system
and signal steps on one pid file. A claim of the file is made under a lock of its own; the
removals on exit and on stop are not.
-/

namespace Difflore.Daemon

open Foundation

abbrev Pid := Int

/-- `contents` is what `read_pid` makes of the text, which is empty until the pid is written;
`creator` is a history variable. -/
structure PidFile where
  creator : Option Pid
  contents : Option Pid

inductive DaemonError
  | conflict (msg : Text)
  | internal (msg : Text)

inductive CreateError
  | alreadyExists
  | other (e : Text)

inductive StopOutcome
  | notRunning
  | staleCleaned (pid : Pid)
  | terminated (pid : Pid)
  | killed (pid : Pid)

/-- `acquire` creates the directory, opens the lock file and locks it, `release` unlocks it;
`drain` is the loop until the shutdown signal. -/
inductive DaemonQuery
  | spawn (pid : Pid)
  | acquire (pid : Pid)
  | release (pid : Pid)
  | createNew (pid : Pid)
  | writeAll (pid : Pid)
  | removeFile
  | readFile
  | isProcessAlive (pid : Pid)
  | sendTerm (pid : Pid)
  | sendKill (pid : Pid)
  | initDb
  | drain

abbrev DaemonQuery.Answer : DaemonQuery → Type
  | .spawn _ | .release _ | .removeFile | .sendKill _ | .drain => PUnit
  | .acquire _ | .writeAll _ | .sendTerm _ | .initDb => Except Text PUnit
  | .createNew _ => Except CreateError PUnit
  | .readFile => Option Pid
  | .isProcessAlive _ => Bool

abbrev Steps := Program DaemonQuery DaemonQuery.Answer

def removePidFile : Steps PUnit := .ask .removeFile .done

def readPid : Steps (Option Pid) := .ask .readFile .done

def isProcessAlive (pid : Pid) : Steps Bool := .ask (.isProcessAlive pid) .done

def pidText (pid : Pid) : Text := (toString pid).toList

def writeNewPid (pid : Pid) : Steps (Except CreateError PUnit) := do
  match ← (.ask (.createNew pid) .done : Steps (Except CreateError PUnit)) with
  | .error e => pure (.error e)
  | .ok _ =>
    match ← (.ask (.writeAll pid) .done : Steps (Except Text PUnit)) with
    | .ok _ => pure (.ok ⟨⟩)
    | .error e => do
        removePidFile
        pure (.error (.other e))

def writeError (e : Text) : DaemonError := .internal ("write pid: " ++ e)

def alreadyRunning (existingPid : Pid) : DaemonError :=
  .conflict ("another daemon is already running (pid " ++ pidText existingPid ++
    "); stop that process before starting another")

def claimedConcurrently (owner : Option Pid) : DaemonError :=
  .conflict ("daemon pid file was claimed concurrently by " ++ match owner with
    | some existingPid => "pid " ++ pidText existingPid
    | none => "an unreadable pid file")

def replacePidFile (pid : Pid) : Steps (Except DaemonError PUnit) := do
  removePidFile
  match ← writeNewPid pid with
  | .ok _ => pure (.ok ⟨⟩)
  | .error .alreadyExists => do
      let owner ← readPid
      pure (.error (claimedConcurrently owner))
  | .error (.other e) => pure (.error (writeError e))

def reclaimStalePidFile (pid : Pid) : Steps (Except DaemonError PUnit) := do
  match ← readPid with
  | none => replacePidFile pid
  | some existingPid =>
    if ← isProcessAlive existingPid then pure (.error (alreadyRunning existingPid))
    else replacePidFile pid

def claimLocked (pid : Pid) : Steps (Except DaemonError PUnit) := do
  match ← writeNewPid pid with
  | .ok _ => pure (.ok ⟨⟩)
  | .error .alreadyExists => reclaimStalePidFile pid
  | .error (.other e) => pure (.error (writeError e))

def claimPidFile (pid : Pid) : Steps (Except DaemonError PUnit) := do
  match ← (.ask (.acquire pid) .done : Steps (Except Text PUnit)) with
  | .error e => pure (.error (.internal e))
  | .ok _ => do
      let claim ← claimLocked pid
      (.ask (.release pid) .done : Steps PUnit)
      pure claim

/-- A new process claims the file, drains until it is told to stop, and removes the file. -/
def run (pid : Pid) : Steps (Except DaemonError PUnit) := do
  (.ask (.spawn pid) .done : Steps PUnit)
  match ← claimPidFile pid with
  | .error e => pure (.error e)
  | .ok _ =>
    match ← (.ask .initDb .done : Steps (Except Text PUnit)) with
    | .error e => pure (.error (.internal e))
    | .ok _ => do
        (.ask .drain .done : Steps PUnit)
        removePidFile
        pure (.ok ⟨⟩)

/-- Poll until the process is gone, `polls` times before the grace period is over. -/
def awaitExit (pid : Pid) : Nat → Steps StopOutcome
  | 0 => do
      (.ask (.sendKill pid) .done : Steps PUnit)
      removePidFile
      pure (.killed pid)
  | polls + 1 => do
      if ← isProcessAlive pid then awaitExit pid polls
      else do
        removePidFile
        pure (.terminated pid)

def stopWithPidPath (polls : Nat) : Steps (Except DaemonError StopOutcome) := do
  match ← readPid with
  | none => pure (.ok .notRunning)
  | some pid =>
    if ← isProcessAlive pid then do
      match ← (.ask (.sendTerm pid) .done : Steps (Except Text PUnit)) with
      | .error e => pure (.error (.internal
          ("terminate pid " ++ pidText pid ++ ": " ++ e)))
      | .ok _ => do
          let outcome ← awaitExit pid polls
          pure (.ok outcome)
    else do
      removePidFile
      pure (.ok (.staleCleaned pid))

/-- `exit` is the end of a process, by itself or by a signal. -/
inductive DaemonCall
  | run (pid : Pid)
  | stop (polls : Nat)
  | exit (pid : Pid)

inductive DaemonResult
  | ran (result : Except DaemonError PUnit)
  | stopped (result : Except DaemonError StopOutcome)
  | exited

def DaemonCall.program : DaemonCall → Steps DaemonResult
  | .run pid => do
      let result ← Daemon.run pid
      pure (.ran result)
  | .stop polls => do
      let result ← stopWithPidPath polls
      pure (.stopped result)
  | .exit pid => do
      (.ask (.sendKill pid) .done : Steps PUnit)
      pure .exited

/-! ## Files, signals and processes -/

/-- How far a process has come with its claim: it created the file, wrote its pid, and passed
`claim_pid_file`. -/
inductive Standing
  | idle
  | created
  | written
  | passed
  deriving DecidableEq

/-- `standing` is a history variable. The lock of a process that died is free. -/
structure DaemonState where
  file : Option PidFile
  lock : Option Pid
  alive : Pid → Bool
  born : Pid → Bool
  standing : Pid → Standing

/-- What a process has done so far in its claim. `read existing` knows that nobody but
`existing` can still own the file. -/
inductive ClaimStep
  | unborn
  | waiting
  | locked
  | read (existing : Option Pid)
  | created
  | written
  | passed
  | returned

inductive DaemonPhase
  | starter (pid : Pid) (step : ClaimStep)
  | other

namespace DaemonPhase

def pid? : DaemonPhase → Option Pid
  | .starter pid _ => some pid
  | .other => none

def enter : DaemonCall → DaemonPhase
  | .run pid => .starter pid .unborn
  | .stop _ | .exit _ => .other

end DaemonPhase

def ClaimStep.observe : ClaimStep → (query : DaemonQuery) → query.Answer → ClaimStep
  | .unborn, .spawn _, _ => .waiting
  | .waiting, .acquire _, .ok _ => .locked
  | .waiting, .acquire _, .error _ => .returned
  | .locked, .createNew _, .ok _ => .created
  | .read .none, .createNew _, .ok _ => .created
  | .created, .writeAll _, .ok _ => .written
  | .created, .removeFile, _ => .locked
  | .locked, .readFile, existing => .read existing
  | .read _, .isProcessAlive _, alive => if alive then .locked else .read .none
  | .written, .release _, _ => .passed
  | .locked, .release _, _ => .returned
  | .read _, .release _, _ => .returned
  | .passed, .removeFile, _ => .returned
  | step, _, _ => step

def DaemonPhase.observe (phase : DaemonPhase) (query : DaemonQuery) (answer : query.Answer) :
    DaemonPhase :=
  match phase with
  | .starter pid step => .starter pid (step.observe query answer)
  | .other => .other

namespace DaemonState

def stand (state : DaemonState) (pid : Pid) (standing : Standing) : DaemonState :=
  { state with standing := Function.update state.standing pid standing }

def unlock (state : DaemonState) (pid : Pid) : DaemonState :=
  { state.stand pid (if state.standing pid = .written then .passed else state.standing pid) with
    lock := none }

/-- Writing to a file that was removed in the meantime changes nothing at the path. -/
def write (state : DaemonState) (pid : Pid) : DaemonState :=
  { state.stand pid .written with
    file := state.file.map fun file =>
      if file.creator = some pid then { file with contents := some pid } else file }

/-- Whoever removes the file on its own account stands for nothing any more. -/
def remove (state : DaemonState) (phase : DaemonPhase) (failure : Option Text) : DaemonState :=
  { (match phase with
      | .starter pid _ => state.stand pid .idle
      | .other => state) with
    file := if failure = none then none else state.file }

/-- The effect of a step of a live process. A system call may fail, with a text. -/
def perform (state : DaemonState) (phase : DaemonPhase) (failure : Option Text) :
    (query : DaemonQuery) → Option (query.Answer × DaemonState)
  | .spawn pid =>
    if state.born pid then none
    else some (⟨⟩, { state with
      born := Function.update state.born pid true
      alive := Function.update state.alive pid true })
  | .acquire pid =>
    match failure with
    | some e => some (.error e, state)
    | none =>
      if (state.lock.filter state.alive).isSome then none
      else some (.ok ⟨⟩, { state with lock := some pid })
  | .release pid => some (⟨⟩, state.unlock pid)
  | .createNew pid =>
    match failure, state.file with
    | some e, _ => some (.error (.other e), state)
    | none, some _ => some (.error .alreadyExists, state)
    | none, none =>
      some (.ok ⟨⟩, { state.stand pid .created with file := some ⟨some pid, none⟩ })
  | .writeAll pid =>
    match failure with
    | some e => some (.error e, state)
    | none => some (.ok ⟨⟩, state.write pid)
  | .removeFile => some (⟨⟩, state.remove phase failure)
  | .readFile => some (if failure = none then state.file.bind PidFile.contents else none, state)
  | .isProcessAlive pid => some (state.alive pid, state)
  | .sendTerm pid =>
    match failure with
    | some e => some (.error e, state)
    | none =>
      if state.alive pid then some (.ok ⟨⟩, state)
      else some (.error "No such process (os error 3)", state)
  | .sendKill pid =>
    some (⟨⟩, if failure = none then
      { state with alive := Function.update state.alive pid false } else state)
  | .initDb =>
    match failure with
    | some e => some (.error e, state)
    | none => some (.ok ⟨⟩, state)
  | .drain => some (⟨⟩, state)

def acts (state : DaemonState) : DaemonPhase → Bool
  | .starter _ .unborn | .other => true
  | .starter pid _ => state.alive pid

def serve (state : DaemonState) (phase : DaemonPhase) (failure : Option Text)
    (query : DaemonQuery) : Option (query.Answer × DaemonState) :=
  if state.acts phase then state.perform phase failure query else none

end DaemonState

def daemonService : Service DaemonQuery DaemonQuery.Answer DaemonResult DaemonCall DaemonState
    DaemonPhase (Option Text) where
  program := DaemonCall.program
  enter := fun _ => DaemonPhase.enter
  serve := DaemonState.serve
  observe := fun _ => DaemonPhase.observe
  finish := fun state _ _ => state

end Difflore.Daemon

import Difflore.Foundation.Interleaving
import Difflore.Foundation.Text

/-! # Binding the hook forwarder

Any number of launches want to listen at one socket path. Each is a program of single steps
at the path: it binds, and if the path is taken it probes what is there, removes what it takes
for dead, and binds once more.
-/

namespace Difflore.Forward

open Foundation

abbrev ListenerId := Nat

/-- What is at the path: a socket that somebody listens or has listened at, or another file. -/
inductive Entry
  | socket (listener : ListenerId)
  | plain
  deriving DecidableEq

inductive BindError
  | addrInUse
  | other (e : Text)

inductive ConnectError
  | connectionRefused
  | notFound
  | other (e : Text)

inductive ProbeResult
  | live
  | stale

/-- `symlinkMetadata` is answered by whether the entry is a socket, or by nothing. -/
inductive ForwardQuery
  | createDirAll
  | bind
  | symlinkMetadata
  | connect
  | removeFile

abbrev ForwardQuery.Answer : ForwardQuery → Type
  | .createDirAll => Except Text PUnit
  | .bind => Except BindError ListenerId
  | .symlinkMetadata => Option Bool
  | .connect => Except ConnectError PUnit
  | .removeFile => PUnit

abbrev Launch := Program ForwardQuery ForwardQuery.Answer

def tryBind (nameable : Bool) : Launch (Except BindError ListenerId) :=
  if nameable then .ask .bind .done else pure (.error (.other "invalid endpoint name"))

/-- A successful connect, or any error that is not plain, means a live owner. -/
def connectProbes : Nat → Launch ProbeResult
  | 0 => pure .stale
  | attempts + 1 => do
      match ← (.ask .connect .done : Launch (Except ConnectError PUnit)) with
      | .ok _ => pure .live
      | .error .connectionRefused | .error .notFound => connectProbes attempts
      | .error (.other _) => pure .live

def probeSocket (nameable : Bool) : Launch ProbeResult := do
  match ← (.ask .symlinkMetadata .done : Launch (Option Bool)) with
  | some false => pure .stale
  | some true | none => if nameable then connectProbes 3 else pure .live

/-- `none` means that another daemon owns the socket. -/
def bindOrYield (nameable : Bool) : Launch (Except Text (Option ListenerId)) := do
  match ← (.ask .createDirAll .done : Launch (Except Text PUnit)) with
  | .error e => pure (.error e)
  | .ok _ =>
    match ← tryBind nameable with
    | .ok listener => pure (.ok (some listener))
    | .error (.other e) => pure (.error ("bind hook daemon socket: " ++ e))
    | .error .addrInUse =>
      match ← probeSocket nameable with
      | .live => pure (.ok none)
      | .stale => do
          (.ask .removeFile .done : Launch PUnit)
          match ← tryBind nameable with
          | .ok listener => pure (.ok (some listener))
          | .error .addrInUse => pure (.ok none)
          | .error (.other e) => pure (.error ("re-bind hook daemon socket: " ++ e))

/-- `binds` counts the listeners that were bound here; `unlinked` are the live listeners whose
socket file was removed. Both are history variables. -/
structure Endpoint where
  entry : Option Entry
  live : ListenerId → Bool
  binds : Nat
  unlinked : List ListenerId

namespace Endpoint

def owner (endpoint : Endpoint) : Option ListenerId :=
  match endpoint.entry with
  | some (.socket listener) => if endpoint.live listener then some listener else none
  | _ => none

def newListener (endpoint : Endpoint) : Endpoint :=
  { endpoint with
    entry := some (.socket (endpoint.binds + 1))
    live := Function.update endpoint.live (endpoint.binds + 1) true
    binds := endpoint.binds + 1 }

def unlink (endpoint : Endpoint) : Endpoint :=
  { endpoint with
    entry := none
    unlinked := endpoint.owner.toList ++ endpoint.unlinked }

/-- The effect of a step. A system call may fail, with a text; a connect reaches a live
listener, and a bind finds a taken path taken. -/
def perform (endpoint : Endpoint) (failure : Option Text) :
    (query : ForwardQuery) → query.Answer × Endpoint
  | .createDirAll => (failure.elim (.ok ⟨⟩) .error, endpoint)
  | .bind =>
    match endpoint.entry, failure with
    | some _, _ => (.error .addrInUse, endpoint)
    | none, some e => (.error (.other e), endpoint)
    | none, none => (.ok (endpoint.binds + 1), endpoint.newListener)
  | .symlinkMetadata =>
    (if failure = none then endpoint.entry.map (· ≠ .plain) else none, endpoint)
  | .connect =>
    (match endpoint.owner, failure, endpoint.entry with
      | some _, _, _ => .ok ⟨⟩
      | none, some e, _ => .error (.other e)
      | none, none, some _ => .error .connectionRefused
      | none, none, none => .error .notFound, endpoint)
  | .removeFile => (⟨⟩, if failure = none then endpoint.unlink else endpoint)

end Endpoint

/-- A launch that has found the path without a live owner remembers how many listeners had been
bound by then. -/
inductive LaunchPhase
  | launched
  | foundDead (binds : Nat)

def LaunchPhase.observe (endpoint : Endpoint) (phase : LaunchPhase) :
    (query : ForwardQuery) → query.Answer → LaunchPhase
  | .symlinkMetadata, some false => .foundDead endpoint.binds
  | .connect, .error .connectionRefused | .connect, .error .notFound => .foundDead endpoint.binds
  | _, _ => phase

def forwardService : Service ForwardQuery ForwardQuery.Answer (Except Text (Option ListenerId))
    Bool Endpoint LaunchPhase (Option Text) where
  program := bindOrYield
  enter := fun _ _ => .launched
  serve := fun endpoint _ failure query => some (endpoint.perform failure query)
  observe := LaunchPhase.observe
  finish := fun endpoint _ _ => endpoint

end Difflore.Forward

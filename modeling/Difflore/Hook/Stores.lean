import Difflore.Cloud.HookSpill
import Difflore.Cloud.Observations.Storage
import Difflore.Cloud.Outbox
import Difflore.Hook.Classifier

/-! # What the hooks write

The two upload queues, the spill directory and the injection cache. Each write is one
operation; a store that cannot be opened or written is left as it is.
-/

namespace Difflore.Hook

open Foundation
open Cloud.HookSpill (observationKind isSpillJson badPath)
open Cloud.Observations (ObservationEvent Serde Trim queueOverflow newRow newRow_id)

structure RecordAcceptedEditRequest where
  beforeCode : Text
  afterCode : Text
  filePath : Option Text
  repoFullName : Option Text
  targetPrNumber : Option Int
  language : Option Text
  acceptanceSource : Option Text
  client : Option Text
  diffSignature : Option Text
  ruleIds : List Text

/-- What does not change between events: the libraries and the configuration. -/
structure Platform where
  serde : Serde
  encodeObservation : Observation → Text
  encodeAcceptedEdit : RecordAcceptedEditRequest → Text
  /-- The hex digest. -/
  sha256 : Text → Text
  recallSignals : Text → Text → List Text
  /-- `glob_match` with `GlobErrorPolicy::Drop`. -/
  filePatternsMatch : Option Text → Text → Bool
  detectLanguage : Text → Option Text

inductive SpillContent where
  | unreadable
  | malformed
  | record (kind payloadJson : Text) (lastError : Option Text)
  deriving DecidableEq

structure SpillFile where
  name : Text
  content : SpillContent

structure CacheEntry where
  tsMs : Int
  rulesInjected : Nat
  signalHash : Option Text

/-- A cache file that is missing or cannot be parsed is an empty cache. -/
structure Stores where
  outbox : AutoTable Cloud.Outbox.Row Cloud.Outbox.Row.id
  observations : Cloud.Observations.Table
  spill : List SpillFile
  cache : List (Text × CacheEntry)

def Stores.payloads (stores : Stores) : List (Text × Text) × List Text × List SpillContent :=
  (stores.outbox.rows.map fun row => (row.kind, row.payloadJson),
    stores.observations.rows.map (·.payloadJson),
    stores.spill.map (·.content))

def acceptedEditKind : Text := "accepted_edit"

def Stores.enqueue (kind payloadJson : Text) (now : Int) (stores : Stores) : Stores :=
  { stores with
    outbox := stores.outbox.insert (Cloud.Outbox.newRow kind payloadJson now)
      (Cloud.Outbox.newRow_id kind payloadJson now) }

/-- One trim of `cap_queue`, by the rows that are over the cap by then. -/
def trimOverflow (trim : Trim) (table : Cloud.Observations.Table) : Cloud.Observations.Table :=
  if 0 < queueOverflow table then trim.execute (queueOverflow table) table else table

def capQueue (table : Cloud.Observations.Table) : Cloud.Observations.Table :=
  trimOverflow .oldest (trimOverflow .abandoned (trimOverflow .sent table))

def Stores.emit (serde : Serde) (event : ObservationEvent) (now : Int) (stores : Stores) : Stores :=
  { stores with
    observations := capQueue
      (stores.observations.insert (newRow serde event now) (newRow_id serde event now)) }

def Stores.addSpill (name payloadJson : Text) (lastError : Text) (stores : Stores) : Stores :=
  { stores with
    spill := stores.spill ++
      [⟨name, .record observationKind payloadJson (some (Cloud.truncate lastError 2048))⟩] }

def Stores.removeSpill (name : Text) (stores : Stores) : Stores :=
  { stores with spill := stores.spill.filter (·.name ≠ name) }

def SpillFile.renamedBad (file : SpillFile) : SpillFile := { file with name := badPath file.name }

def Stores.quarantineBadSpill (name : Text) (stores : Stores) : Stores :=
  { stores with
    spill := stores.spill.map fun file => if file.name = name then file.renamedBad else file }

/-- `insert` is none when the outbox takes no row: capture is off, or it cannot be
written. That ends the replay. -/
def replaySpillFiles (insert : Option (Text → Text → Stores → Stores)) :
    List SpillFile → Stores → Stores
  | [], stores => stores
  | file :: rest, stores =>
    match file.content with
    | .unreadable => replaySpillFiles insert rest stores
    | .malformed => replaySpillFiles insert rest (stores.quarantineBadSpill file.name)
    | .record kind payloadJson _ =>
      if kind ≠ observationKind then
        replaySpillFiles insert rest (stores.quarantineBadSpill file.name)
      else match insert with
        | none => stores
        | some insertRow =>
          replaySpillFiles insert rest
            ((insertRow kind payloadJson stores).removeSpill file.name)

def hookSpillReplayMax : Nat := 16

def Stores.replayBatch (stores : Stores) : List SpillFile :=
  ((stores.spill.filter (isSpillJson ·.name)).insertionSort fun left right =>
    left.name ≤ right.name).take hookSpillReplayMax

def Stores.replay (insert : Option (Text → Text → Stores → Stores)) (stores : Stores) : Stores :=
  replaySpillFiles insert stores.replayBatch stores

def defaultTtlMs : Int := 120000

def cacheKey (projectHash filePath : Text) : Text := projectHash ++ (":post-edit:" ++
    (Text.trim filePath).map fun c => if c = '\\' then '/' else c)

def signalHash (sha256 : Text → Text) (signal : Text) : Option Text :=
  if Text.trim signal = [] then none else some ("sha256:" ++ sha256 (Text.trim signal))

def CacheEntry.isLive (ttlMs now : Int) (entry : CacheEntry) : Bool :=
  0 < ttlMs && now - entry.tsMs < ttlMs && entry.rulesInjected ≠ 0

/-- `signal_hash` is none only for a blank signal, which then matches every entry. -/
def CacheEntry.matchesSignal (signal : Option Text) (entry : CacheEntry) : Bool :=
  signal.all fun hash => entry.signalHash = some hash

def Stores.liveEntry (ttlMs now : Int) (key : Text) (stores : Stores) : Option CacheEntry :=
  (stores.cache.lookup key).filter (CacheEntry.isLive ttlMs now)

def Stores.shouldSkipRecent (ttlMs now : Int) (key : Text) (signal : Option Text)
    (stores : Stores) : Bool :=
  (stores.liveEntry ttlMs now key).any (CacheEntry.matchesSignal signal)

def Stores.rememberInjection (ttlMs now : Int) (key : Text) (rulesInjected : Nat)
    (signal : Option Text) (stores : Stores) : Stores :=
  { stores with
    cache := (key, ⟨now, rulesInjected, signal⟩) ::
      stores.cache.filter fun (other, entry) =>
        other ≠ key && now - entry.tsMs ≤ max ttlMs defaultTtlMs * 4 }

theorem payloads_quarantineBadSpill (name : Text) (stores : Stores) :
    (stores.quarantineBadSpill name).payloads = stores.payloads := by
  have hcontent : ∀ file : SpillFile,
      (if file.name = name then file.renamedBad else file).content = file.content := by
    intro file
    split <;> rfl
  simp [Stores.payloads, Stores.quarantineBadSpill, hcontent]

theorem payloads_replaySpillFiles_none (files : List SpillFile) (stores : Stores) :
    (replaySpillFiles none files stores).payloads = stores.payloads := by
  induction files generalizing stores with
  | nil => rfl
  | cons file rest ih =>
    unfold replaySpillFiles
    split
    next => exact ih stores
    next => rw [ih, payloads_quarantineBadSpill]
    next =>
      split
      next => rw [ih, payloads_quarantineBadSpill]
      next => rfl

theorem payloads_replay_none (stores : Stores) : (stores.replay none).payloads = stores.payloads :=
  payloads_replaySpillFiles_none _ stores

theorem shouldSkipRecent_of_liveEntry {ttlMs now : Int} {key : Text} {stores : Stores}
    (hlive : stores.liveEntry ttlMs now key = none) (signal : Option Text) :
    stores.shouldSkipRecent ttlMs now key signal = false := by
  rw [Stores.shouldSkipRecent, hlive, Option.any_none]

end Difflore.Hook

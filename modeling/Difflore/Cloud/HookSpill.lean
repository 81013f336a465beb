import Difflore.Cloud.Outbox
import Difflore.Foundation.KeyedTable
import Difflore.Foundation.Program
import Mathlib

/-! # The hook's spill directory

Payloads that the outbox could not take lie in files of their own. A replay pass takes the first
files by name: it inserts what it can read, sets aside what is no observation, and skips what is
no text.
-/

namespace Difflore.Cloud.HookSpill

open Foundation
open Outbox (World RowId)

inductive Node
  | file (bytes : ByteArray)
  | directory
  deriving DecidableEq

structure Entry where
  name : Text
  node : Node

abbrev Dir := KeyedTable Entry Entry.name

structure HookSpillRecord where
  version : Nat
  kind : Text
  payloadJson : Text
  createdAtMs : Int
  lastError : Option Text
  deriving DecidableEq

structure HookSpillReplayReport where
  attempted : Nat
  replayed : Nat
  failed : Nat

def HookSpillReplayReport.empty : HookSpillReplayReport := ⟨0, 0, 0⟩

def HookSpillReplayReport.fail (report : HookSpillReplayReport) : HookSpillReplayReport :=
  { report with attempted := report.attempted + 1, failed := report.failed + 1 }

def HookSpillReplayReport.replay (report : HookSpillReplayReport) : HookSpillReplayReport :=
  { report with attempted := report.attempted + 1, replayed := report.replayed + 1 }

inductive EnqueueOutcome
  | inserted (rowId : RowId)
  | captureDisabled

def observationKind : Text := "observation"

def jsonExtension : Text := ".json"

def isSpillJson (name : Text) : Bool := jsonExtension <:+ name && name ≠ jsonExtension

/-- `path.with_extension("bad")` of a spill file. -/
def badPath (name : Text) : Text := name.take (name.length - jsonExtension.length) ++ ".bad"

inductive Query
  | readDir
  | readToString (name : Text)
  | enqueueWithOutcome (kind payloadJson : Text)
  | removeFile (name : Text)
  | rename (name target : Text)

/-- `enqueueWithOutcome` answers `none` when the database refuses the row. -/
abbrev Answer : Query → Type
  | .readDir => List Text
  | .readToString _ => Option Text
  | .enqueueWithOutcome _ _ => Option EnqueueOutcome
  | .removeFile _ => PUnit
  | .rename _ _ => PUnit

abbrev Replay (Result : Type) := Program Query Answer Result

def readDir : Replay (List Text) := .ask .readDir .done

def readToString (name : Text) : Replay (Option Text) := .ask (.readToString name) .done

def enqueueWithOutcome (kind payloadJson : Text) : Replay (Option EnqueueOutcome) :=
  .ask (.enqueueWithOutcome kind payloadJson) .done

def removeFile (name : Text) : Replay PUnit := .ask (.removeFile name) .done

def quarantineBadSpill (name : Text) : Replay PUnit := .ask (.rename name (badPath name)) .done

section Pass

-- `serde_json::from_str::<HookSpillRecord>`.
variable (fromStr : Text → Option HookSpillRecord)

def replayFiles : List Text → HookSpillReplayReport → Replay HookSpillReplayReport
  | [], report => pure report
  | path :: files, report => do
      match ← readToString path with
      | none => replayFiles files report.fail
      | some raw =>
        match fromStr raw with
        | none => do
            quarantineBadSpill path
            replayFiles files report.fail
        | some record =>
          if record.kind ≠ observationKind then do
            quarantineBadSpill path
            replayFiles files report.fail
          else do
            match ← enqueueWithOutcome record.kind record.payloadJson with
            | some (.inserted _) => do
                removeFile path
                replayFiles files report.replay
            | some .captureDisabled | none => pure report.fail

def replaySpilledObservations (maxItems : Nat) : Replay HookSpillReplayReport :=
  if maxItems = 0 then pure .empty
  else do
    let files ← readDir
    replayFiles fromStr (((files.filter isSpillJson).insertionSort (· ≤ ·)).take maxItems) .empty

end Pass

/-! ## The directory and the queue -/

structure Env where
  captureEnabled : Bool
  databaseAccepts : Bool
  now : Int

structure Spool where
  dir : Dir
  outbox : World

namespace Spool

variable (spool : Spool)

def node (name : Text) : Option Node := (spool.dir.find name).map Entry.node

def textOf (name : Text) : Option Text :=
  match spool.node name with
  | some (.file bytes) => bytes.utf8Decode?.map Array.toList
  | some .directory | none => none

def rename (name target : Text) : Spool :=
  match spool.node name with
  | none => spool
  | some node =>
    if spool.node target = some .directory then spool
    else
      { spool with
        dir := (spool.dir.delete fun entry => entry.name = name ||
          entry.name = target).insertOrIgnore
          ⟨target, node⟩ }

def removeFile (name : Text) : Spool :=
  { spool with dir := spool.dir.delete fun entry => entry.name = name }

def enqueue (env : Env) (kind payloadJson : Text) : Option EnqueueOutcome × Spool :=
  if env.captureEnabled && !env.databaseAccepts then (none, spool)
  else
    match Outbox.enqueue env.captureEnabled kind payloadJson env.now spool.outbox with
    | (some rowId, outbox) => (some (.inserted rowId), { spool with outbox := outbox })
    | (none, outbox) => (some .captureDisabled, { spool with outbox := outbox })

def spilled : List Text := spool.dir.keys.filter isSpillJson

end Spool

def serve (env : Env) (spool : Spool) : (query : Query) → Answer query × Spool
  | .readDir => (spool.dir.keys, spool)
  | .readToString name => (spool.textOf name, spool)
  | .enqueueWithOutcome kind payloadJson => spool.enqueue env kind payloadJson
  | .removeFile name => (⟨⟩, spool.removeFile name)
  | .rename name target => (⟨⟩, spool.rename name target)

def Spool.batch (maxItems : Nat) (spool : Spool) : List Text :=
  (spool.spilled.insertionSort (· ≤ ·)).take maxItems

section State

variable {spool : Spool} {name target : Text}

theorem mem_spilled : name ∈ spool.spilled ↔ isSpillJson name ∧ (spool.node name).isSome := by
  rw [Spool.spilled, List.mem_filter, Spool.node, Option.isSome_map, and_comm]
  apply and_congr_right
  intro _
  rw [← not_iff_not, ← KeyedTable.find_eq_none, Option.not_isSome_iff_eq_none]

theorem nodup_spilled : spool.spilled.Nodup := spool.dir.nodup.filter _

theorem mem_batch {maxItems : Nat} (hname : name ∈ spool.batch maxItems) : name ∈ spool.spilled :=
  (List.mem_insertionSort _).mp (List.mem_of_mem_take hname)

theorem nodup_batch {maxItems : Nat} : (spool.batch maxItems).Nodup :=
  ((List.perm_insertionSort _ _).nodup_iff.mpr nodup_spilled).sublist (List.take_sublist _ _)

theorem badPath_append (stem : Text) : badPath (stem ++ jsonExtension) = stem ++ ".bad" := by
  simp [badPath]

theorem exists_stem (hname : isSpillJson name) : ∃ stem, name = stem ++ jsonExtension := by
  simp only [isSpillJson, Bool.and_eq_true, decide_eq_true_eq] at hname
  obtain ⟨stem, hstem⟩ := hname.1
  exact ⟨stem, hstem.symm⟩

theorem badPath_ne (hname : isSpillJson name) (other : Text) : badPath other ≠ name := by
  obtain ⟨stem, rfl⟩ := exists_stem hname
  intro hsame
  have hlast := congrArg List.getLast? hsame
  simp [badPath, jsonExtension] at hlast

theorem badPath_inj (hname : isSpillJson name) (htarget : isSpillJson target)
    (hsame : badPath name = badPath target) : name = target := by
  obtain ⟨stem, rfl⟩ := exists_stem hname
  obtain ⟨other, rfl⟩ := exists_stem htarget
  rw [badPath_append, badPath_append] at hsame
  rw [List.append_cancel_right hsame]

theorem node_removeFile (other : Text) :
    (spool.removeFile name).node other = if other = name then none else spool.node other := by
  unfold Spool.node Spool.removeFile
  rw [KeyedTable.find_delete]
  cases hfind : spool.dir.find other with
  | none => simp
  | some entry =>
    have hentry := (KeyedTable.find_eq_some.mp hfind).2
    by_cases hsame : other = name
    · simp [hentry, hsame]
    · simp [hentry, hsame]

theorem node_rename {moved : Node} (hmoved : spool.node name = some moved)
    (htarget : spool.node target ≠ some .directory) (other : Text) :
    (spool.rename name target).node other =
      if other = target then some moved else if other = name then none else spool.node other := by
  simp only [Spool.rename, hmoved, if_neg htarget]
  unfold Spool.node
  rw [KeyedTable.find_insertOrIgnore, KeyedTable.find_delete]
  cases hfind : spool.dir.find other with
  | none => by_cases hsame : other = target <;> simp [hsame]
  | some entry =>
    have hentry := (KeyedTable.find_eq_some.mp hfind).2
    simp only [Option.filter_some, hentry]
    by_cases hsame : other = target
    · simp [hsame]
    · by_cases hold : other = name
      · simp [hold, hold ▸ hsame]
      · simp [hsame, hold]

theorem outbox_rename : (spool.rename name target).outbox = spool.outbox := by
  unfold Spool.rename
  split
  · rfl
  · split <;> rfl

theorem rename_of_directory (htarget : spool.node target = some .directory) :
    spool.rename name target = spool := by
  unfold Spool.rename
  split
  · rfl
  · rw [if_pos htarget]

theorem utf8Decode_eq_some {bytes : ByteArray} {raw : Text} :
    bytes.utf8Decode?.map Array.toList = some raw ↔ bytes = raw.utf8Encode := by
  constructor
  · intro hdecode
    obtain ⟨chars, hchars, rfl⟩ := Option.map_eq_some_iff.mp hdecode
    have hencode := ByteArray.utf8Encode_get_utf8Decode? (h := Option.isSome_of_eq_some hchars)
    simpa only [hchars, Option.get_some] using hencode.symm
  · rintro rfl
    rw [List.utf8Decode?_utf8Encode]
    rfl

theorem textOf_eq_some {raw : Text} :
    spool.textOf name = some raw ↔ spool.node name = some (.file raw.utf8Encode) := by
  unfold Spool.textOf
  split
  next bytes hnode =>
    rw [hnode, utf8Decode_eq_some, Option.some.injEq, Node.file.injEq]
  next hnode => simp [hnode]
  next hnode => simp [hnode]

end State

end Difflore.Cloud.HookSpill

import Difflore.Cloud.HookSpill

/-! # What a replay of the spill directory leaves

While the outbox takes rows, a pass consumes every file of its batch that is text and, if it is no
observation, can be set aside. The other files stay first in line. In every state of a pass a spill
file is still there, set aside, or in the queue.
-/

namespace Difflore.Cloud.HookSpill

open Foundation
open Outbox (World RowId)

variable (fromStr : Text → Option HookSpillRecord)

variable {maxItems : Nat} {after : Spool}

/-- What a pass does with a spill file while the outbox takes rows. -/
inductive Fate
  | stays
  | quarantined
  | replayed (record : HookSpillRecord)
  deriving DecidableEq

namespace Spool

def observation (spool : Spool) (name : Text) : Option (Option HookSpillRecord) :=
  (spool.textOf name).map fun raw => (fromStr raw).filter (·.kind = observationKind)

def fate (spool : Spool) (name : Text) : Fate :=
  match spool.observation fromStr name with
  | none => .stays
  | some (some record) => .replayed record
  | some none => if spool.node (badPath name) = some .directory then .stays else .quarantined

def consume (env : Env) (spool : Spool) (name : Text) : Spool :=
  match spool.fate fromStr name with
  | .stays => spool
  | .quarantined => spool.rename name (badPath name)
  | .replayed record =>
    (spool.enqueue env record.kind record.payloadJson).2.removeFile name

def replay (env : Env) (maxItems : Nat) (spool : Spool) : Spool :=
  ((replaySpilledObservations fromStr maxItems).run (serve env) spool).2

/-- The environment may change from pass to pass, here it is given for each. -/
def replays (maxItems : Nat) (spool : Spool) (envs : List Env) : Spool :=
  envs.foldl (fun spool env => spool.replay fromStr env maxItems) spool

end Spool

/-- The file is valid UTF-8, and holds an observation unless it can be set aside. -/
def Spool.Consumable (spool : Spool) (name : Text) : Prop :=
  ∃ raw : Text, spool.node name = some (.file raw.utf8Encode) ∧
    (spool.node (badPath name) = some .directory →
      ∃ record, fromStr raw = some record ∧ record.kind = observationKind)

/-- The payload of the record is in a row that is newer than the start. -/
def Queued (start spool : Spool) (record : HookSpillRecord) : Prop :=
  ∃ id row, start.outbox.table.nextKey ≤ id ∧ spool.outbox.row id = some row ∧
    row.kind = record.kind ∧ row.payloadJson = record.payloadJson

/-- Every spill file of the start is still there, was set aside, or is in the queue. -/
def Accounted (start spool : Spool) : Prop := ∀ name ∈ start.spilled,
    spool.node name = start.node name ∨ spool.node (badPath name) = start.node name ∨
      ∃ raw record, start.node name = some (.file (List.utf8Encode raw)) ∧
        fromStr raw = some record ∧ record.kind = observationKind ∧ Queued start spool record

/-- However the environment answers, no payload is lost in any state of a pass. -/
def Spool.Conserves (maxItems : Nat) (spool : Spool) : Prop :=
  ∀ env, (replaySpilledObservations fromStr maxItems).Throughout (serve env)
    (Accounted fromStr spool) spool

/-- A pass over a directory with spill files replays or sets aside one of them. -/
def Spool.Progresses (env : Env) (maxItems : Nat) (spool : Spool) : Prop := spool.spilled ≠ [] →
    ∃ name ∈ spool.spilled, name ∉ (spool.replay fromStr env maxItems).spilled

def Env.Accepts (env : Env) : Prop := env.captureEnabled ∧ env.databaseAccepts

structure LeftOf (files : List Text) (spool after : Spool) : Prop where
  node : ∀ other, isSpillJson other → after.node other =
    if other ∈ files ∧ spool.fate fromStr other ≠ .stays then none else spool.node other
  directory : ∀ other, after.node other = some .directory ↔ spool.node other = some .directory

def Spool.Empties (maxItems : Nat) (spool : Spool) : Prop :=
  ∃ passes, ∀ envs : List Env, passes ≤ envs.length → (∀ env ∈ envs, env.Accepts) →
    (spool.replays fromStr maxItems envs).spilled = []

section Pass

variable {fromStr} {env : Env} {spool : Spool} {name other : Text}

theorem enqueue_cases (env : Env) (spool : Spool) (kind payloadJson : Text) :
    spool.enqueue env kind payloadJson = (none, spool) ∧ env.databaseAccepts = false ∨
      spool.enqueue env kind payloadJson = (some .captureDisabled, spool) ∧
        env.captureEnabled = false ∨
      spool.enqueue env kind payloadJson = (some (.inserted spool.outbox.table.nextKey),
        { spool with outbox :=
          (Outbox.enqueue true kind payloadJson env.now spool.outbox).2 }) := by
  unfold Spool.enqueue
  cases env.captureEnabled with
  | false => exact .inr (.inl ⟨rfl, rfl⟩)
  | true =>
    cases env.databaseAccepts with
    | false => exact .inl ⟨rfl, rfl⟩
    | true => exact .inr (.inr rfl)

theorem enqueue_of_accepts (haccepts : env.Accepts) (spool : Spool) (kind payloadJson : Text) :
    spool.enqueue env kind payloadJson = (some (.inserted spool.outbox.table.nextKey),
      { spool with outbox := (Outbox.enqueue true kind payloadJson env.now spool.outbox).2 }) := by
  rcases enqueue_cases env spool kind payloadJson with ⟨_, hrefused⟩ | ⟨_, hoff⟩ | hinserted
  · exact absurd haccepts.2 (by simp [hrefused])
  · exact absurd haccepts.1 (by simp [hoff])
  · exact hinserted

theorem node_enqueue (kind payloadJson : Text) :
    (spool.enqueue env kind payloadJson).2.node other = spool.node other := by
  rcases enqueue_cases env spool kind payloadJson with ⟨heq, _⟩ | ⟨heq, _⟩ | heq
  · rw [heq]
  · rw [heq]
  · rw [heq]
    rfl

section Step

variable {path : Text} {files : List Text} {report : HookSpillReplayReport}

theorem throughout_replayFiles_cons (holds : Spool → Prop) :
    (replayFiles fromStr (path :: files) report).Throughout (serve env) holds spool ↔ holds spool ∧
        match spool.observation fromStr path with
        | none => (replayFiles fromStr files report.fail).Throughout (serve env) holds spool
        | some none => (replayFiles fromStr files report.fail).Throughout (serve env) holds
            (spool.rename path (badPath path))
        | some (some record) =>
          match spool.enqueue env record.kind record.payloadJson with
          | (some (.inserted _), next) => holds next ∧
              (replayFiles fromStr files report.replay).Throughout (serve env) holds
                (next.removeFile path)
          | (_, next) => holds next := by
  have hread : (readToString path).run (serve env) spool = (spool.textOf path, spool) := rfl
  have hstates : (readToString path).Throughout (serve env) holds spool ↔ holds spool :=
    and_self_iff
  rw [replayFiles, Program.throughout_bind, hstates, hread, Spool.observation]
  apply and_congr_right
  intro hspool
  cases spool.textOf path with
  | none => rfl
  | some raw =>
    have haside : (quarantineBadSpill path >>= fun _ =>
        replayFiles fromStr files report.fail).Throughout (serve env) holds spool ↔
          (replayFiles fromStr files report.fail).Throughout (serve env) holds
            (spool.rename path (badPath path)) :=
      and_iff_right hspool
    simp only [Option.map_some]
    cases fromStr raw with
    | none => exact haside
    | some record =>
      by_cases hkind : record.kind = observationKind
      · have henqueue : (enqueueWithOutcome record.kind record.payloadJson).run (serve env)
            spool = spool.enqueue env record.kind record.payloadJson := rfl
        have hqueued : (enqueueWithOutcome record.kind record.payloadJson).Throughout (serve env)
            holds spool ↔ holds (spool.enqueue env record.kind record.payloadJson).2 :=
          and_iff_right hspool
        simp only [Option.filter_some, hkind, ne_eq, not_true_eq_false, if_false, decide_true,
          if_true]
        rw [← hkind, Program.throughout_bind, hqueued, henqueue]
        obtain ⟨outcome, next⟩ := spool.enqueue env record.kind record.payloadJson
        cases outcome with
        | none => exact and_self_iff
        | some outcome =>
          cases outcome with
          | inserted rowId => exact and_congr_right fun hnext => and_iff_right hnext
          | captureDisabled => exact and_self_iff
      · simp only [Option.filter_some, hkind, ne_eq, not_false_eq_true, if_true, decide_false]
        exact haside

theorem run_replayFiles_cons : (replayFiles fromStr (path :: files) report).run (serve env) spool =
      match spool.observation fromStr path with
      | none => (replayFiles fromStr files report.fail).run (serve env) spool
      | some none => (replayFiles fromStr files report.fail).run (serve env)
          (spool.rename path (badPath path))
      | some (some record) =>
        match spool.enqueue env record.kind record.payloadJson with
        | (some (.inserted _), next) =>
          (replayFiles fromStr files report.replay).run (serve env) (next.removeFile path)
        | (_, next) => (report.fail, next) := by
  have hread : (readToString path).run (serve env) spool = (spool.textOf path, spool) := rfl
  rw [replayFiles, Program.run_bind, hread, Spool.observation]
  cases spool.textOf path with
  | none => rfl
  | some raw =>
    simp only [Option.map_some]
    cases fromStr raw with
    | none => rfl
    | some record =>
      by_cases hkind : record.kind = observationKind
      · have henqueue : (enqueueWithOutcome record.kind record.payloadJson).run (serve env)
            spool = spool.enqueue env record.kind record.payloadJson := rfl
        simp only [Option.filter_some, hkind, ne_eq, not_true_eq_false, if_false, decide_true,
          if_true]
        rw [← hkind, Program.run_bind, henqueue]
        obtain ⟨outcome, next⟩ := spool.enqueue env record.kind record.payloadJson
        cases outcome with
        | none => rfl
        | some outcome => cases outcome <;> rfl
      · simp only [Option.filter_some, hkind, ne_eq, not_false_eq_true, if_true, decide_false]
        rfl

end Step

theorem run_replayFiles (haccepts : env.Accepts) (files : List Text)
    (report : HookSpillReplayReport) (spool : Spool) :
    ((replayFiles fromStr files report).run (serve env) spool).2 =
      files.foldl (Spool.consume fromStr env) spool := by
  induction files generalizing report spool with
  | nil => rfl
  | cons path files ih =>
    rw [run_replayFiles_cons, List.foldl_cons, Spool.consume, Spool.fate]
    cases spool.observation fromStr path with
    | none => exact ih _ _
    | some observed =>
      cases observed with
      | none =>
        by_cases hdirectory : spool.node (badPath path) = some .directory
        · simp only [if_pos hdirectory, rename_of_directory hdirectory]
          exact ih _ _
        · simp only [if_neg hdirectory]
          exact ih _ _
      | some record =>
        simp only [enqueue_of_accepts haccepts]
        exact ih _ _

/-! ## Which files go -/

theorem observation_eq_some {observed : Option HookSpillRecord}
    (hobserved : spool.observation fromStr name = some observed) :
    ∃ bytes, spool.node name = some (.file bytes) := by
  obtain ⟨raw, hraw, _⟩ := Option.map_eq_some_iff.mp hobserved
  exact ⟨raw.utf8Encode, textOf_eq_some.mp hraw⟩

theorem exists_file_of_quarantined (hfate : spool.fate fromStr name = .quarantined) :
    (∃ bytes, spool.node name = some (.file bytes)) ∧
      spool.node (badPath name) ≠ some .directory := by
  unfold Spool.fate at hfate
  split at hfate
  next => contradiction
  next => contradiction
  next hobserved =>
    split at hfate
    next => contradiction
    next hdirectory => exact ⟨observation_eq_some hobserved, hdirectory⟩

theorem exists_file_of_replayed {record : HookSpillRecord}
    (hfate : spool.fate fromStr name = .replayed record) :
    ∃ bytes, spool.node name = some (.file bytes) := by
  unfold Spool.fate at hfate
  split at hfate
  next => contradiction
  next hobserved => exact observation_eq_some hobserved
  next =>
    split at hfate
    next => contradiction
    next => contradiction

theorem node_consume (hother : isSpillJson other) : (spool.consume fromStr env name).node other =
      if other = name ∧ spool.fate fromStr name ≠ .stays then none else spool.node other := by
  unfold Spool.consume
  cases hfate : spool.fate fromStr name with
  | stays => simp
  | quarantined =>
    obtain ⟨⟨bytes, hfile⟩, hdirectory⟩ := exists_file_of_quarantined hfate
    simp only
    rw [node_rename hfile hdirectory, if_neg (badPath_ne hother name).symm]
    simp
  | replayed record =>
    simp only
    rw [node_removeFile, node_enqueue]
    simp

theorem directory_consume : (spool.consume fromStr env name).node other = some .directory ↔
    spool.node other = some .directory := by
  unfold Spool.consume
  cases hfate : spool.fate fromStr name with
  | stays => rfl
  | quarantined =>
    obtain ⟨⟨bytes, hfile⟩, hdirectory⟩ := exists_file_of_quarantined hfate
    simp only
    rw [node_rename hfile hdirectory]
    split
    next htarget => simp [htarget, hdirectory]
    next =>
      split
      next hname => simp [hname, hfile]
      next => rfl
  | replayed record =>
    obtain ⟨bytes, hfile⟩ := exists_file_of_replayed hfate
    simp only
    rw [node_removeFile, node_enqueue]
    split
    next hname => simp [hname, hfile]
    next => rfl

theorem fate_congr (hnode : after.node name = spool.node name)
    (hdirectory : after.node (badPath name) = some .directory ↔
      spool.node (badPath name) = some .directory) :
    after.fate fromStr name = spool.fate fromStr name := by
  unfold Spool.fate Spool.observation Spool.textOf
  simp only [hnode, hdirectory]

theorem LeftOf.fate {files : List Text} (hleft : LeftOf fromStr files spool after)
    (hother : isSpillJson other) (hkept : other ∉ files ∨ spool.fate fromStr other = .stays) :
    after.fate fromStr other = spool.fate fromStr other := by
  apply fate_congr _ (hleft.directory _)
  rw [hleft.node other hother, if_neg]
  rintro ⟨hmem, hgone⟩
  exact hkept.elim (· hmem) (hgone ·)

theorem leftOf_consume : LeftOf fromStr [name] spool (spool.consume fromStr env name) where
  node other hother := by
    rw [node_consume hother]
    by_cases hsame : other = name
    · simp [hsame]
    · simp [hsame]
  directory other := directory_consume

theorem LeftOf.cons {files : List Text} {middle : Spool} (hname : isSpillJson name)
    (hfresh : name ∉ files) (hfirst : LeftOf fromStr [name] spool middle)
    (hrest : LeftOf fromStr files middle after) : LeftOf fromStr (name :: files) spool after where
  node other hother := by
    rw [hrest.node other hother, hfirst.node other hother]
    by_cases hsame : other = name
    · subst hsame
      simp [hfresh]
    · rw [hfirst.fate hother (.inl (by simpa using hsame))]
      simp [hsame]
  directory other := (hrest.directory other).trans (hfirst.directory other)

theorem leftOf_foldl_consume {files : List Text} (hnodup : files.Nodup)
    (hspill : ∀ path ∈ files, isSpillJson path) (spool : Spool) :
    LeftOf fromStr files spool (files.foldl (Spool.consume fromStr env) spool) := by
  induction files generalizing spool with
  | nil =>
    constructor
    · intro other _
      simp
    · intro other
      rfl
  | cons path files ih =>
    obtain ⟨hfresh, hrest⟩ := List.nodup_cons.mp hnodup
    exact leftOf_consume.cons (hspill path (.head _)) hfresh
      (ih hrest (fun other hother => hspill other (.tail _ hother)) _)

theorem leftOf_replay (haccepts : env.Accepts) (hmax : 1 ≤ maxItems) (spool : Spool) :
    LeftOf fromStr (spool.batch maxItems) spool (spool.replay fromStr env maxItems) := by
  have hreplay : spool.replay fromStr env maxItems =
      (spool.batch maxItems).foldl (Spool.consume fromStr env) spool := by
    rw [Spool.replay, replaySpilledObservations, if_neg (by omega), Program.run_bind]
    exact run_replayFiles haccepts _ _ _
  rw [hreplay]
  apply leftOf_foldl_consume nodup_batch
  intro path hpath
  exact (mem_spilled.mp (mem_batch hpath)).1

theorem LeftOf.mem_spilled {files : List Text} (hleft : LeftOf fromStr files spool after) :
    other ∈ after.spilled ↔
      other ∈ spool.spilled ∧ (other ∈ files → spool.fate fromStr other = .stays) := by
  rw [HookSpill.mem_spilled, HookSpill.mem_spilled, and_assoc]
  apply and_congr_right
  intro hother
  rw [hleft.node other hother]
  split
  next hgone => simp [hgone.1, hgone.2]
  next hkept =>
    rw [not_and, not_not] at hkept
    exact (and_iff_left hkept).symm

theorem LeftOf.exists_gone_iff {files : List Text} (hleft : LeftOf fromStr files spool after)
    (hfiles : ∀ path ∈ files, path ∈ spool.spilled) :
    (∃ path ∈ spool.spilled, path ∉ after.spilled) ↔
      ∃ path ∈ files, spool.fate fromStr path ≠ .stays := by
  constructor
  · rintro ⟨path, hpath, hgone⟩
    rw [hleft.mem_spilled, not_and, Classical.not_imp] at hgone
    obtain ⟨hmem, hfate⟩ := hgone hpath
    exact ⟨path, hmem, hfate⟩
  · rintro ⟨path, hmem, hfate⟩
    refine ⟨path, hfiles path hmem, ?_⟩
    intro hkept
    exact hfate ((hleft.mem_spilled.mp hkept).2 hmem)

theorem fate_ne_stays_iff : spool.fate fromStr name ≠ .stays ↔ spool.Consumable fromStr name := by
  unfold Spool.Consumable
  simp only [← textOf_eq_some]
  unfold Spool.fate Spool.observation
  cases htext : spool.textOf name with
  | none => simp
  | some raw =>
    cases hrecord : fromStr raw with
    | none => simp [hrecord]
    | some record =>
      by_cases hkind : record.kind = observationKind
      · simp [hrecord, Option.filter_some, hkind]
      · simp [hrecord, Option.filter_some, hkind]

theorem batch_ne_nil (hmax : 1 ≤ maxItems) (hne : spool.spilled ≠ []) :
    spool.batch maxItems ≠ [] := by
  intro hnil
  have hlength := congrArg List.length hnil
  rw [Spool.batch, List.length_take, List.length_insertionSort, List.length_nil] at hlength
  have hpos := List.length_pos_iff.mpr hne
  omega

theorem LeftOf.consumable {files : List Text} (hleft : LeftOf fromStr files spool after)
    (hother : other ∈ after.spilled) :
    after.Consumable fromStr other ↔ spool.Consumable fromStr other := by
  obtain ⟨hold, hkept⟩ := hleft.mem_spilled.mp hother
  rw [← fate_ne_stays_iff, ← fate_ne_stays_iff,
    hleft.fate (HookSpill.mem_spilled.mp hold).1 (Decidable.not_or_of_imp hkept)]

theorem length_spilled_replay_lt (haccepts : env.Accepts) (hmax : 1 ≤ maxItems)
    (hall : ∀ path ∈ spool.spilled, spool.Consumable fromStr path) (hne : spool.spilled ≠ []) :
    (spool.replay fromStr env maxItems).spilled.length < spool.spilled.length := by
  have hleft : LeftOf fromStr _ _ _ := leftOf_replay haccepts hmax spool
  obtain ⟨path, hpath⟩ := List.exists_mem_of_ne_nil _ (batch_ne_nil hmax hne)
  have hstored := mem_batch hpath
  have hsubset : (spool.replay fromStr env maxItems).spilled ⊆ spool.spilled.erase path := by
    intro other hother
    obtain ⟨hold, hkept⟩ := hleft.mem_spilled.mp hother
    apply (List.mem_erase_of_ne _).mpr hold
    rintro rfl
    exact fate_ne_stays_iff.mpr (hall other hstored) (hkept hpath)
  have hlength := (List.subperm_of_subset nodup_spilled hsubset).length_le
  rw [List.length_erase_of_mem hstored] at hlength
  have hpos := List.length_pos_of_mem hstored
  omega

theorem spilled_replays_of_consumable (hmax : 1 ≤ maxItems) {envs : List Env}
    (haccepts : ∀ env ∈ envs, env.Accepts)
    (hall : ∀ path ∈ spool.spilled, spool.Consumable fromStr path)
    (hlength : spool.spilled.length ≤ envs.length) :
    (spool.replays fromStr maxItems envs).spilled = [] := by
  induction envs generalizing spool with
  | nil => exact List.length_eq_zero_iff.mp (Nat.le_zero.mp hlength)
  | cons env envs ih =>
    have henv := haccepts env (.head _)
    have hleft : LeftOf fromStr _ _ _ := leftOf_replay henv hmax spool
    apply ih (fun other hother => haccepts other (.tail _ hother))
    · intro path hpath
      exact (hleft.consumable hpath).mpr (hall path (hleft.mem_spilled.mp hpath).1)
    · by_cases hempty : spool.spilled = []
      · have hnone : (spool.replay fromStr env maxItems).spilled = [] := by
          apply List.eq_nil_iff_forall_not_mem.mpr
          intro path hpath
          simpa [hempty] using (hleft.mem_spilled.mp hpath).1
        simp [hnone]
      · have hlt := length_spilled_replay_lt henv hmax hall hempty
        rw [List.length_cons] at hlength
        exact Nat.le_of_lt_succ (hlt.trans_le hlength)

theorem mem_spilled_replays (hmax : 1 ≤ maxItems) {envs : List Env}
    (haccepts : ∀ env ∈ envs, env.Accepts) (hname : name ∈ spool.spilled)
    (hstuck : ¬ spool.Consumable fromStr name) :
    name ∈ (spool.replays fromStr maxItems envs).spilled := by
  induction envs generalizing spool with
  | nil => exact hname
  | cons env envs ih =>
    have hleft : LeftOf fromStr _ _ _ := leftOf_replay (haccepts env (.head _)) hmax spool
    have hkept : name ∈ (spool.replay fromStr env maxItems).spilled :=
      hleft.mem_spilled.mpr ⟨hname, fun _ =>
        Decidable.not_not.mp fun hgoes => hstuck (fate_ne_stays_iff.mp hgoes)⟩
    apply ih (fun other hother => haccepts other (.tail _ hother)) hkept
    rwa [hleft.consumable hkept]

/-! ## No payload is lost -/

variable {start : Spool} {record : HookSpillRecord}

theorem Queued.enqueue {kind payloadJson : Text} (hqueued : Queued start spool record) :
    Queued start (spool.enqueue env kind payloadJson).2 record := by
  rcases enqueue_cases env spool kind payloadJson with ⟨heq, _⟩ | ⟨heq, _⟩ | heq
  · rwa [heq]
  · rwa [heq]
  · rw [heq]
    obtain ⟨id, row, hnew, hrow, hsame⟩ := hqueued
    refine ⟨id, row, hnew, ?_, hsame⟩
    rw [Outbox.row_enqueue, if_neg (AutoTable.find_lt hrow).ne]
    exact hrow

theorem queued_of_inserted {rowId : RowId} {next : Spool}
    (hinserted : spool.enqueue env record.kind record.payloadJson = (some (.inserted rowId), next))
    (hnew : start.outbox.table.nextKey ≤ spool.outbox.table.nextKey) :
    Queued start next record := by
  rcases enqueue_cases env spool record.kind record.payloadJson with ⟨heq, _⟩ | ⟨heq, _⟩ | heq
  · simp [hinserted] at heq
  · simp [hinserted] at heq
  · obtain ⟨_, rfl⟩ := Prod.mk.inj (hinserted.symm.trans heq)
    refine ⟨_, Outbox.newRow record.kind record.payloadJson env.now spool.outbox.table.nextKey,
      hnew, ?_, rfl, rfl⟩
    rw [Outbox.row_enqueue, if_pos rfl]

theorem nextKey_le_enqueue (kind payloadJson : Text) :
    spool.outbox.table.nextKey ≤ (spool.enqueue env kind payloadJson).2.outbox.table.nextKey := by
  rcases enqueue_cases env spool kind payloadJson with ⟨heq, _⟩ | ⟨heq, _⟩ | heq
  · rw [heq]
  · rw [heq]
  · rw [heq]
    exact Nat.le_succ _

theorem exists_text_of_observation
    (hobserved : spool.observation fromStr name = some (some record)) :
    ∃ raw : Text, spool.node name = some (.file raw.utf8Encode) ∧ fromStr raw = some record ∧
      record.kind = observationKind := by
  obtain ⟨raw, hraw, hrecord⟩ := Option.map_eq_some_iff.mp hobserved
  rw [Option.filter_eq_some_iff, decide_eq_true_iff] at hrecord
  exact ⟨raw, textOf_eq_some.mp hraw, hrecord⟩

theorem Accounted.rename {path : Text} (hacc : Accounted fromStr start spool)
    (hpath : path ∈ start.spilled) (hpending : spool.node path = start.node path)
    (hfile : ∃ bytes, spool.node path = some (.file bytes))
    (hdirectory : spool.node (badPath path) ≠ some .directory) :
    Accounted fromStr start (spool.rename path (badPath path)) := by
  obtain ⟨bytes, hbytes⟩ := hfile
  have hspill := (mem_spilled.mp hpath).1
  have hnode := node_rename hbytes hdirectory
  intro name hname
  have hother := (mem_spilled.mp hname).1
  by_cases hsame : name = path
  · right
    left
    rw [hsame, hnode, if_pos rfl, ← hbytes, hpending]
  · have hbad : badPath name ≠ badPath path := fun heq => hsame (badPath_inj hother hspill heq)
    rw [hnode, hnode, if_neg (badPath_ne hother path).symm, if_neg hsame, if_neg hbad,
      if_neg (badPath_ne hspill name)]
    simpa only [Queued, outbox_rename] using hacc name hname

theorem Accounted.enqueue (hacc : Accounted fromStr start spool) (kind payloadJson : Text) :
    Accounted fromStr start (spool.enqueue env kind payloadJson).2 := by
  intro name hname
  rw [node_enqueue, node_enqueue]
  rcases hacc name hname with hstays | haside | ⟨raw, record, hfile, hrecord, hkind, hqueued⟩
  · exact .inl hstays
  · exact .inr (.inl haside)
  · exact .inr (.inr ⟨raw, record, hfile, hrecord, hkind, hqueued.enqueue⟩)

theorem Accounted.removeFile {path raw : Text} (hacc : Accounted fromStr start spool)
    (hpath : path ∈ start.spilled) (hfile : start.node path = some (.file raw.utf8Encode))
    (hrecord : fromStr raw = some record) (hkind : record.kind = observationKind)
    (hqueued : Queued start spool record) : Accounted fromStr start (spool.removeFile path) := by
  have hspill := (mem_spilled.mp hpath).1
  intro name hname
  by_cases hsame : name = path
  · right
    right
    exact ⟨raw, record, hsame ▸ hfile, hrecord, hkind, hqueued⟩
  · rw [node_removeFile, node_removeFile, if_neg hsame, if_neg (badPath_ne hspill name)]
    exact hacc name hname

theorem accounted_replayFiles {files : List Text} (hnodup : files.Nodup)
    (hfiles : ∀ path ∈ files, path ∈ start.spilled)
    (hpending : ∀ path ∈ files, spool.node path = start.node path)
    (hnew : start.outbox.table.nextKey ≤ spool.outbox.table.nextKey)
    (hacc : Accounted fromStr start spool) (report : HookSpillReplayReport) :
    (replayFiles fromStr files report).Throughout (serve env) (Accounted fromStr start) spool := by
  induction files generalizing spool report with
  | nil => exact hacc
  | cons path files ih =>
    obtain ⟨hfresh, hnodup⟩ := List.nodup_cons.mp hnodup
    have hpath := hfiles path (.head _)
    have hnode := hpending path (.head _)
    have hlater : ∀ other ∈ files, other ∈ start.spilled := fun other hother =>
      hfiles other (.tail _ hother)
    have hkept : ∀ other ∈ files, other ≠ path ∧ spool.node other = start.node other :=
      fun other hother => ⟨fun heq => hfresh (heq ▸ hother), hpending other (.tail _ hother)⟩
    rw [throughout_replayFiles_cons]
    refine ⟨hacc, ?_⟩
    cases hobserved : spool.observation fromStr path with
    | none => exact ih hnodup hlater (fun other hother => (hkept other hother).2) hnew hacc _
    | some observed =>
      cases observed with
      | none =>
        simp only
        by_cases hdirectory : spool.node (badPath path) = some .directory
        · rw [rename_of_directory hdirectory]
          exact ih hnodup hlater (fun other hother => (hkept other hother).2) hnew hacc _
        · have hfile := observation_eq_some hobserved
          obtain ⟨bytes, hbytes⟩ := hfile
          apply ih hnodup hlater
          · intro other hother
            have hspill := (mem_spilled.mp (hlater other hother)).1
            rw [node_rename hbytes hdirectory, if_neg (badPath_ne hspill path).symm,
              if_neg (hkept other hother).1]
            exact (hkept other hother).2
          · rwa [outbox_rename]
          · exact hacc.rename hpath hnode ⟨bytes, hbytes⟩ hdirectory
      | some record =>
        obtain ⟨raw, hraw, hrecord, hkind⟩ := exists_text_of_observation hobserved
        simp only
        split
        next rowId next hinserted =>
          have hqueued := queued_of_inserted hinserted hnew
          have hnext : next = (spool.enqueue env record.kind record.payloadJson).2 :=
            (congrArg Prod.snd hinserted).symm
          have hstored : Accounted fromStr start next := hnext ▸ hacc.enqueue _ _
          refine ⟨hstored, ih hnodup hlater ?_ ?_ ?_ _⟩
          · intro other hother
            rw [node_removeFile, if_neg (hkept other hother).1, hnext, node_enqueue]
            exact (hkept other hother).2
          · rw [hnext]
            exact hnew.trans (nextKey_le_enqueue _ _)
          · exact hstored.removeFile hpath (hnode ▸ hraw) hrecord hkind hqueued
        next next hother hqueue =>
          have hnext : next = (spool.enqueue env record.kind record.payloadJson).2 :=
            (congrArg Prod.snd hqueue).symm
          exact hnext ▸ hacc.enqueue _ _

theorem conserves_replay (maxItems : Nat) (spool : Spool) : spool.Conserves fromStr maxItems := by
  intro env
  have hstart : Accounted fromStr spool spool := fun name _ => .inl rfl
  unfold replaySpilledObservations
  split
  next => exact hstart
  next =>
    refine ⟨hstart, ?_⟩
    apply accounted_replayFiles nodup_batch (fun path => mem_batch) (fun _ _ => rfl) le_rfl hstart

theorem progresses_iff (haccepts : env.Accepts) (hmax : 1 ≤ maxItems) (spool : Spool) :
    spool.Progresses fromStr env maxItems ↔
      (spool.spilled ≠ [] → ∃ name ∈ spool.batch maxItems, spool.Consumable fromStr name) := by
  apply imp_congr_right
  intro _
  rw [(leftOf_replay haccepts hmax spool).exists_gone_iff fun path => mem_batch]
  simp only [fate_ne_stays_iff]

theorem empties_iff (hmax : 1 ≤ maxItems) (spool : Spool) :
    spool.Empties fromStr maxItems ↔ ∀ name ∈ spool.spilled, spool.Consumable fromStr name := by
  constructor
  · rintro ⟨passes, hempties⟩ name hname
    by_contra hstuck
    have haccepts : ∀ env ∈ List.replicate passes (⟨true, true, 0⟩ : Env), env.Accepts := by
      intro env henv
      rw [List.eq_of_mem_replicate henv]
      exact ⟨rfl, rfl⟩
    have hkept := mem_spilled_replays hmax haccepts hname hstuck
    rw [hempties _ (by simp) haccepts] at hkept
    contradiction
  · intro hall
    exact ⟨spool.spilled.length, fun envs hlength haccepts =>
      spilled_replays_of_consumable hmax haccepts hall hlength⟩

end Pass

/-- No pass loses a payload. While the outbox takes rows, a pass makes progress exactly when one
of the files it looks at can be consumed, and passes empty the directory exactly when all can. -/
theorem replay_progress_iff (hmax : 1 ≤ maxItems) (spool : Spool) :
    spool.Conserves fromStr maxItems ∧
      (∀ env : Env, env.Accepts → (spool.Progresses fromStr env maxItems ↔
        (spool.spilled ≠ [] → ∃ name ∈ spool.batch maxItems, spool.Consumable fromStr name))) ∧
      (spool.Empties fromStr maxItems ↔ ∀ name ∈ spool.spilled, spool.Consumable fromStr name) :=
  ⟨conserves_replay maxItems spool, fun _ haccepts => progresses_iff haccepts hmax spool,
    empties_iff hmax spool⟩

def oneFile (bytes : ByteArray) : Spool :=
  ⟨⟨[⟨"1.json", .file bytes⟩], List.nodup_singleton _⟩, .init⟩

theorem replay_progress_iff_of_oneFile :
    (oneFile (List.utf8Encode ['{'])).Conserves (fun _ => none) 16 ∧ (∀ env : Env, env.Accepts →
        ((oneFile (List.utf8Encode ['{'])).Progresses (fun _ => none) env 16 ↔
          ((oneFile (List.utf8Encode ['{'])).spilled ≠ [] →
            ∃ name ∈ (oneFile (List.utf8Encode ['{'])).batch 16,
              (oneFile (List.utf8Encode ['{'])).Consumable (fun _ => none) name))) ∧
      ((oneFile (List.utf8Encode ['{'])).Empties (fun _ => none) 16 ↔
        ∀ name ∈ (oneFile (List.utf8Encode ['{'])).spilled,
          (oneFile (List.utf8Encode ['{'])).Consumable (fun _ => none) name) :=
  replay_progress_iff _ (by decide) _

/-- A file whose bytes are no UTF-8 is neither replayed nor set aside. -/
theorem invalid_utf8_starves : ¬ ∀ (fromStr : Text → Option HookSpillRecord) (env : Env)
    (maxItems : Nat) (spool : Spool), env.Accepts → 1 ≤ maxItems →
    spool.Progresses fromStr env maxItems := by
  intro hclaim
  have hprogress := hclaim (fun _ => none) ⟨true, true, 0⟩ 1 (oneFile ⟨#[255]⟩) ⟨rfl, rfl⟩ le_rfl
  have hspilled : (oneFile ⟨#[255]⟩).spilled = ["1.json"] := by decide
  have hgone := hprogress (by simp [hspilled])
  rw [(leftOf_replay ⟨rfl, rfl⟩ le_rfl _).exists_gone_iff fun path => mem_batch] at hgone
  obtain ⟨path, hpath, hfate⟩ := hgone
  obtain ⟨raw, hfile, _⟩ := fate_ne_stays_iff.mp hfate
  have hname : path = "1.json" := by
    simpa [hspilled] using mem_batch hpath
  have hnode : (oneFile ⟨#[255]⟩).node path = some (.file ⟨#[255]⟩) := by
    rw [hname]
    rfl
  have hbytes : List.utf8Encode raw = ⟨#[255]⟩ := by
    simpa [hfile] using hnode
  have hinvalid : ¬ (⟨#[255]⟩ : ByteArray).IsValidUTF8 := by decide
  exact hinvalid ⟨raw, hbytes.symm⟩

end Difflore.Cloud.HookSpill

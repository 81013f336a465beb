import Difflore.Cloud.Outbox
import Difflore.Foundation.Json
import Mathlib.Data.List.Dedup

/-! # Local approval of session-mined candidates

Candidates mined from a session wait in `cloud_outbox` until they are approved
in the inbox. The rule that keeps the others from being uploaded is written
three times, in the `WHERE` clauses of `claim_next`, `claim_next_kind` and
`pending_counts_by_kind`.
-/

namespace Difflore.Cloud.Outbox

open Foundation

variable {inbox : Inbox} {staleCutoff now : Int} {rows : List Row} {row : Row} {id : RowId}
  {kind : Text} {world next : World}

def insertMember (name : Text) (value : Json) (members : List (Text × Json)) : List (Text × Json) :=
  members.filter (·.1 ≠ name) ++ [(name, value)]

def localReviewKey : Text := "localReview"
def localReviewStatusKey : Text := "status"
def localReviewRuleIdKey : Text := "ruleId"
def localReviewReviewedAtKey : Text := "reviewedAtMs"
def localReviewStatusApproved : Text := "approved"

/-- `LOWER(COALESCE(json_extract(payload_json, '$.localReview.status'), '')) =
'approved'`. What `json_extract` returns for a value that is no string never
reads `approved`. -/
def jsonLocallyApproved (payload : Json) : Bool :=
  match (payload.get localReviewKey).bind (Json.get localReviewStatusKey) with
  | some (.string status) => Text.toAsciiLowercase status = localReviewStatusApproved
  | _ => false

inductive SessionMinedLocalTriageStatus
  | supersededBy
  | clusteredInto
  | droppedLowSignal
  | unknown
  deriving DecidableEq

def SessionMinedLocalTriageStatus.toJson : SessionMinedLocalTriageStatus → Json
  | .supersededBy => .string "superseded_by"
  | .clusteredInto => .string "clustered_into"
  | .droppedLowSignal => .string "dropped_low_signal"
  | .unknown => .string "unknown"

structure SessionMinedLocalTriage where
  status : SessionMinedLocalTriageStatus
  reason : Text
  reference : Option Text
  atMs : Int
  deriving DecidableEq

structure SessionMinedLocalEvidence where
  distinctEvidenceCount : Nat
  updatedAt : Int

structure SessionMinedCandidate where
  sessionId : Text
  tsMs : Int
  sourceRepo : Text
  title : Text
  body : Text
  filePatterns : List Text
  gateModel : Text
  gateVerdict : Text
  contentHash : Text
  origin : Text
  requiresHumanApproval : Bool
  localTriage : Option SessionMinedLocalTriage
  localEvidence : Option SessionMinedLocalEvidence

def intJson (value : Int) : Json := .number (.integer value)

def SessionMinedLocalTriage.toJson (triage : SessionMinedLocalTriage) : Json := .object <|
    [("status".toList, triage.status.toJson), ("reason".toList, .string triage.reason)] ++
    (triage.reference.map fun reference => ("ref".toList, Json.string reference)).toList ++
    [("at".toList, intJson triage.atMs)]

def SessionMinedLocalEvidence.toJson (evidence : SessionMinedLocalEvidence) : Json := .object
    [("distinctEvidenceCount", intJson evidence.distinctEvidenceCount),
     ("updatedAt", intJson evidence.updatedAt)]

def requiredMembers (candidate : SessionMinedCandidate) : List (Text × Json) :=
  [("session_id", .string candidate.sessionId), ("ts_ms", intJson candidate.tsMs),
   ("source_repo", .string candidate.sourceRepo),
   ("title", .string candidate.title),
   ("body", .string candidate.body),
   ("file_patterns", .array (candidate.filePatterns.map .string)),
   ("gate_model", .string candidate.gateModel),
   ("gate_verdict", .string candidate.gateVerdict),
   ("content_hash", .string candidate.contentHash),
   ("origin", .string candidate.origin),
   ("requires_human_approval", .bool candidate.requiresHumanApproval)]

/-- The wire form of a candidate. Members that are `None` are skipped. -/
def SessionMinedCandidate.toJson (candidate : SessionMinedCandidate) : Json := .object <|
    requiredMembers candidate ++
    (candidate.localTriage.map fun triage => ("localTriage".toList, triage.toJson)).toList ++
    (candidate.localEvidence.map fun evidence => ("localEvidence".toList, evidence.toJson)).toList

theorem requiredMembers_names (candidate : SessionMinedCandidate) :
    ∀ member ∈ requiredMembers candidate, member.1 ≠ localReviewKey := by
  have hnames : (requiredMembers candidate).map (·.1) =
      ["session_id", "ts_ms", "source_repo", "title", "body",
        "file_patterns", "gate_model", "gate_verdict", "content_hash",
        "origin", "requires_human_approval"] := rfl
  have hnone : localReviewKey ∉ (requiredMembers candidate).map (·.1) := by
    rw [hnames]
    decide
  intro member hmember heq
  exact hnone (heq ▸ List.mem_map_of_mem hmember)

theorem locallyApproved_toJson (candidate : SessionMinedCandidate) :
    jsonLocallyApproved candidate.toJson = false := by
  have hnone : candidate.toJson.get localReviewKey = none := by
    simp only [SessionMinedCandidate.toJson, Json.get, Option.map_eq_none_iff, List.find?_eq_none,
      List.mem_append, Option.mem_toList, Option.map_eq_some_iff, decide_eq_true_eq]
    rintro member ((hrequired | ⟨_, _, rfl⟩) | ⟨_, _, rfl⟩)
    · exact requiredMembers_names candidate member hrequired
    · show "localTriage" ≠ localReviewKey
      decide
    · show "localEvidence" ≠ localReviewKey
      decide
  simp only [jsonLocallyApproved, hnone, Option.bind_none]

section Predicates

variable (approves : Text → Bool)

/-- The `WHERE` clause of the subquery of `claim_next`. -/
def claimNextWhere (staleCutoff : Int) (row : Row) : Bool := claimableAt staleCutoff row &&
    (row.kind ≠ sessionMinedCandidate || approves row.payloadJson)

/-- The `WHERE` clause of the subquery of `claim_next_kind`. Its approval test
looks at the kind that is asked for. -/
def claimNextKindWhere (kind : Text) (staleCutoff : Int) (row : Row) : Bool :=
  row.kind = kind && claimableAt staleCutoff row &&
    (kind ≠ sessionMinedCandidate || approves row.payloadJson)

/-- The `WHERE` clause of `pending_counts_by_kind`. -/
def pendingCountsWhere (row : Row) : Bool :=
  row.status = .pending && (row.kind ≠ sessionMinedCandidate || approves row.payloadJson)

/-- `SELECT kind, COUNT(*) … GROUP BY kind`, sorted by kind. -/
def pendingCountsByKind (world : World) : List (Text × Nat) := (drainSummary
    ((world.table.rows.filter (pendingCountsWhere approves)).map Row.kind)).perKind

theorem claimCandidates_none (staleCutoff : Int) (rows : List Row) :
    claimCandidates approves none staleCutoff rows =
      rows.filter (claimNextWhere approves staleCutoff) := by
  simp only [claimCandidates, Option.all_none, Bool.true_and]
  rfl

theorem claimCandidates_some (kind : Text) (staleCutoff : Int) (rows : List Row) :
    claimCandidates approves (some kind) staleCutoff rows =
      rows.filter (claimNextKindWhere approves kind staleCutoff) := by
  apply List.filter_congr
  intro row _
  by_cases hkind : row.kind = kind
  · simp [claimNextKindWhere, approvedForUpload, hkind]
  · simp [claimNextKindWhere, hkind]

/-- A row passes `claim_next` when it passes `claim_next_kind` for its own kind. -/
theorem claimNextKindWhere_iff : claimNextKindWhere approves kind staleCutoff row = true ↔
      row.kind = kind ∧ claimNextWhere approves staleCutoff row = true := by
  simp only [claimNextKindWhere, claimNextWhere, Bool.and_eq_true, decide_eq_true_eq, and_assoc]
  constructor
  · rintro ⟨rfl, hrest⟩
    exact ⟨rfl, hrest⟩
  · rintro ⟨rfl, hrest⟩
    exact ⟨rfl, hrest⟩

/-- `claim_next_kind` looks at the rows of `claim_next` that have its kind. -/
theorem mem_claimCandidates_some : row ∈ claimCandidates approves (some kind) staleCutoff rows ↔
      row.kind = kind ∧ row ∈ claimCandidates approves none staleCutoff rows := by
  rw [claimCandidates_some, claimCandidates_none, List.mem_filter, List.mem_filter,
    claimNextKindWhere_iff]
  tauto

def Row.age (row : Row) : Int ×ₗ RowId := toLex (row.createdAt, row.id)

def FirstServed (rows : Set Row) (result : Option Row) : Prop :=
  match result with
  | none => rows = ∅
  | some row => row ∈ rows ∧ ∀ other ∈ rows, row.age ≤ other.age

/-- What `claim_next_kind` returns for some kind. -/
def claimableByKind (drainer : Drainer) (now : Int) (world : World) : Set Row :=
  {row | ∃ kind, (claimNextKind approves kind drainer now world).1 = some row}

theorem claim_result (kind : Option Text) (drainer : Drainer) (now : Int) (world : World) :
    (claim approves kind drainer now world).1 =
      if (circuitState (world.breaker drainer) now).1.isSome then none
      else (oldest (claimCandidates approves kind (now - defaultStaleSeconds * 1000)
        world.table.rows)).map (claimRow now) := by
  unfold claim
  split
  next hstate => simp [hstate]
  next hstate =>
    simp only [hstate, Option.isSome_none, Bool.false_eq_true, if_false]
    split
    next holdest => simp [holdest]
    next row holdest => simp [holdest]

theorem oldest_spec (holdest : oldest rows = some row) :
    row ∈ rows ∧ ∀ other ∈ rows, row.age ≤ other.age :=
  ⟨List.argmin_mem holdest, fun _ hother => List.le_of_mem_argmin hother holdest⟩

theorem oldest_eq_none : oldest rows = none ↔ rows = [] := List.argmin_eq_none

theorem eq_of_age {other : Row} (hrow : row ∈ world.table.rows) (hother : other ∈ world.table.rows)
    (hage : row.age = other.age) : row = other := by
  have hid : row.id = other.id := congrArg (fun age => (ofLex age).2) hage
  have hfind := AutoTable.find_of_mem hrow
  rw [hid, AutoTable.find_of_mem hother] at hfind
  exact (Option.some.inj hfind).symm

/-- With the breaker closed, the oldest row over all kinds is the oldest of
the rows that are oldest of their kind. -/
theorem firstServed_claimNext (drainer : Drainer) (now : Int) (world : World) :
    FirstServed (claimableByKind approves drainer now world)
      (claimNext approves drainer now world).1 := by
  have hkinds : ∀ row, row ∈ claimableByKind approves drainer now world →
      ∃ old, claimRow now old = row ∧ old ∈ claimCandidates approves none
        (now - defaultStaleSeconds * 1000) world.table.rows ∧
        (circuitState (world.breaker drainer) now).1.isSome = false := by
    rintro row ⟨kind, hrow⟩
    rw [claimNextKind, claim_result] at hrow
    split at hrow
    next => contradiction
    next hclosed =>
      obtain ⟨old, holdest, hclaimed⟩ := Option.map_eq_some_iff.mp hrow
      refine ⟨old, hclaimed, ?_, by simpa using hclosed⟩
      exact ((mem_claimCandidates_some approves).mp (oldest_spec holdest).1).2
  cases hresult : (claimNext approves drainer now world).1 with
  | none =>
    apply Set.eq_empty_of_forall_notMem
    intro row hrow
    obtain ⟨old, _, hold, hclosed⟩ := hkinds row hrow
    rw [claimNext, claim_result, hclosed] at hresult
    simp only [Bool.false_eq_true, if_false, Option.map_eq_none_iff, oldest_eq_none] at hresult
    rw [hresult] at hold
    contradiction
  | some row =>
    rw [claimNext, claim_result] at hresult
    split at hresult
    next => contradiction
    next hclosed =>
      obtain ⟨old, holdest, rfl⟩ := Option.map_eq_some_iff.mp hresult
      obtain ⟨hmem, hleast⟩ := oldest_spec holdest
      constructor
      · refine ⟨old.kind, ?_⟩
        rw [claimNextKind, claim_result, if_neg hclosed]
        have hcandidate : old ∈ claimCandidates approves (some old.kind)
            (now - defaultStaleSeconds * 1000) world.table.rows :=
          (mem_claimCandidates_some approves).mpr ⟨rfl, hmem⟩
        cases hkind : oldest (claimCandidates approves (some old.kind)
            (now - defaultStaleSeconds * 1000) world.table.rows) with
        | none =>
          rw [oldest_eq_none.mp hkind] at hcandidate
          contradiction
        | some first =>
          obtain ⟨hfirst, hfirstLeast⟩ := oldest_spec hkind
          have hall := ((mem_claimCandidates_some approves).mp hfirst).2
          have hage : first.age = old.age :=
            le_antisymm (hfirstLeast old hcandidate) (hleast first hall)
          rw [eq_of_age (List.mem_of_mem_filter hall) (List.mem_of_mem_filter hmem) hage]
          rfl
      · intro other hother
        obtain ⟨source, rfl, hsource, _⟩ := hkinds other hother
        exact hleast source hsource

theorem mem_drainSummary_perKind {kinds : List Text} {count : Nat} :
    (kind, count) ∈ (drainSummary kinds).perKind ↔ kind ∈ kinds ∧ count = kinds.count kind := by
  simp only [drainSummary, List.mem_map, List.mem_insertionSort, List.mem_dedup, Prod.mk.injEq]
  constructor
  · rintro ⟨_, hmem, rfl, rfl⟩
    exact ⟨hmem, rfl⟩
  · rintro ⟨hmem, rfl⟩
    exact ⟨kind, hmem, rfl, rfl⟩

/-- Every kind is listed once, with the number of its pending rows that
`claim_next_kind` picks from, whatever its cutoff; kinds with none are left out. -/
def CountsClaimable (world : World) : Prop :=
  ((pendingCountsByKind approves world).map (·.1)).Nodup ∧
  ∀ staleCutoff kind count, (kind, count) ∈ pendingCountsByKind approves world ↔
    0 < count ∧ count = (claimCandidates approves (some kind) staleCutoff
      world.table.rows).countP (·.status = .pending)

theorem nodup_drainSummary_perKind (kinds : List Text) :
    ((drainSummary kinds).perKind.map (·.1)).Nodup := by
  have hkinds : (drainSummary kinds).perKind.map (·.1) = kinds.dedup.insertionSort (· ≤ ·) := by
    simp only [drainSummary, List.map_map]
    exact List.map_id _
  rw [hkinds, (List.perm_insertionSort _ _).nodup_iff]
  exact kinds.nodup_dedup

theorem pendingCountsWhere_iff : (pendingCountsWhere approves row ∧ row.kind = kind) ↔
      claimNextKindWhere approves kind staleCutoff row = true ∧ row.status = .pending := by
  simp only [claimNextKindWhere_iff, pendingCountsWhere, claimNextWhere, Bool.and_eq_true,
    decide_eq_true_eq]
  constructor
  · rintro ⟨⟨hpending, happroved⟩, hkind⟩
    exact ⟨⟨hkind, by simp [claimableAt, hpending], happroved⟩, hpending⟩
  · rintro ⟨⟨hkind, _, happroved⟩, hpending⟩
    exact ⟨⟨hpending, happroved⟩, hkind⟩

theorem countsClaimable (world : World) : CountsClaimable approves world := by
  refine ⟨nodup_drainSummary_perKind _, ?_⟩
  intro staleCutoff kind count
  have hcount : ((world.table.rows.filter (pendingCountsWhere approves)).map Row.kind).count
      kind = (claimCandidates approves (some kind) staleCutoff
        world.table.rows).countP (·.status = .pending) := by
    rw [claimCandidates_some, List.countP_filter, List.count, List.countP_map, List.countP_filter]
    apply List.countP_congr
    intro row _
    have hrow : (pendingCountsWhere approves row ∧ row.kind = kind) ↔
        claimNextKindWhere approves kind staleCutoff row = true ∧ row.status = .pending :=
      pendingCountsWhere_iff approves
    simpa [and_comm] using hrow
  rw [pendingCountsByKind, mem_drainSummary_perKind, ← List.count_pos_iff, hcount]
  constructor
  · rintro ⟨hpos, rfl⟩
    exact ⟨hpos, rfl⟩
  · rintro ⟨hpos, rfl⟩
    exact ⟨hpos, rfl⟩

end Predicates

/-! ## The inbox

An approval reads the payload and writes it back with a review in two
statements, as `mark_failed` does; a rejection deletes the row.
-/

/-- A `mark_session_mined_locally_approved` call between its `SELECT` and its
`UPDATE`, with the payload it is about to write. -/
structure ApprovingCall where
  id : RowId
  marked : Text
  deriving DecidableEq

/-- The queue, and the approvals under way. `approved` is a history variable:
the rows that an approval has been written to. -/
structure Inbox where
  queue : World
  approving : List ApprovingCall
  approved : List RowId

def Inbox.init : Inbox := ⟨.init, [], []⟩

section Review

-- `serde_json::from_str` and `serde_json::to_string` on JSON values.
variable (parse : Text → Option Json) (render : Json → Text)

/-- The payload with an approved `localReview` member; only objects can have one. -/
def sessionMinedPayloadWithLocalApproval (payloadJson ruleId : Text) (now : Int) : Option Text :=
  match parse payloadJson with
  | some (.object members) =>
    some <| render <| .object <| insertMember localReviewKey
      (.object
        [(localReviewStatusKey, .string localReviewStatusApproved),
         (localReviewRuleIdKey, .string ruleId),
         (localReviewReviewedAtKey, intJson now)]) members
  | _ => none

/-- The `SELECT` of an approval. A vanished row or an odd payload ends the call. -/
def approveSelect (id : RowId) (ruleId : Text) (now : Int) (inbox : Inbox) : Inbox :=
  match (inbox.queue.row id).bind fun row =>
      sessionMinedPayloadWithLocalApproval parse render row.payloadJson ruleId now with
  | none => inbox
  | some marked => { inbox with approving := ⟨id, marked⟩ :: inbox.approving }

def approveRow (marked : Text) (row : Row) : Row :=
  { row with
    payloadJson := marked, status := .pending, retryCount := 0, claimedAt := none,
    lastError := none }

theorem approveRow_id (marked : Text) (row : Row) : (approveRow marked row).id = row.id := rfl

/-- The `UPDATE` of an approval. It names the row by its id only. -/
def approveUpdate (call : ApprovingCall) (inbox : Inbox) : Inbox where
  queue :=
    { inbox.queue with
      table := inbox.queue.table.update (·.id = call.id) (approveRow call.marked)
        (approveRow_id call.marked) }
  approving := inbox.approving.erase call
  approved := call.id :: inbox.approved

/-- `DELETE FROM cloud_outbox WHERE id = ?1`. -/
def reject (id : RowId) (inbox : Inbox) : Inbox :=
  { inbox with queue := { inbox.queue with table := inbox.queue.table.delete (·.id = id) } }

def enqueueCandidate (captureEnabled : Bool) (candidate : SessionMinedCandidate) (now : Int)
    (inbox : Inbox) : Inbox :=
  { inbox with
    queue := (enqueue captureEnabled sessionMinedCandidate (render candidate.toJson) now
      inbox.queue).2 }

inductive InboxAction
  | queue (action : Action)
  | enqueueCandidate (captureEnabled : Bool) (candidate : SessionMinedCandidate)
  | approveSelect (id : RowId) (ruleId : Text)
  | approveUpdate (call : ApprovingCall)
  | reject (id : RowId)

/-- Rows of the session-mined kind come from `enqueue_candidate` alone. -/
def OtherKinds : InboxAction → Prop
  | .queue (.enqueue _ kind _) => kind ≠ sessionMinedCandidate
  | _ => True

instance : (action : InboxAction) → Decidable (OtherKinds action)
  | .queue (.enqueue _ kind _) => inferInstanceAs (Decidable (kind ≠ sessionMinedCandidate))
  | .queue (.claimNext _) | .queue (.claimNextKind ..) | .queue (.confirm ..)
  | .queue (.markFailedSelect ..) | .queue (.markFailedUpdate _) | .queue (.resetStale _)
  | .queue (.drainAbandonedOlderThan ..) | .enqueueCandidate .. | .approveSelect ..
  | .approveUpdate _ | .reject _ => isTrue trivial

variable (approves : Text → Bool)

def Inbox.perform (inbox : Inbox) (now : Int) : InboxAction → Option Inbox
  | .queue action =>
    (inbox.queue.perform approves now action).map fun queue =>
      { inbox with queue := queue }
  | .enqueueCandidate captureEnabled candidate =>
    some (Outbox.enqueueCandidate render captureEnabled candidate now inbox)
  | .approveSelect id ruleId => some (Outbox.approveSelect parse render id ruleId now inbox)
  | .approveUpdate call =>
    if call ∈ inbox.approving then some (Outbox.approveUpdate call inbox) else none
  | .reject id => some (Outbox.reject id inbox)

def Inbox.step (inbox : Inbox) (timed : Int × InboxAction) : Option Inbox :=
  if inbox.queue.clock ≤ timed.1 then
    Inbox.perform parse render approves
      { inbox with queue := { inbox.queue with clock := timed.1 } } timed.1 timed.2
  else none

def Row.content (row : Row) : Text × Text := (row.kind, row.payloadJson)

theorem content_failRow (call : FailingCall) (row : Row) :
    (failRow call row).content = row.content := by
  unfold failRow
  split <;> rfl

theorem content_of_map {set : Row → Row} (hnext : next.row id = (world.row id).map set)
    (hset : ∀ old, (set old).content = old.content) (hrow : next.row id = some row) :
    ∃ old, world.row id = some old ∧ row.content = old.content := by
  rw [hnext, Option.map_eq_some_iff] at hrow
  obtain ⟨old, hold, rfl⟩ := hrow
  exact ⟨old, hold, hset old⟩

theorem content_claim {kind : Option Text} {drainer : Drainer} {result : Option Row}
    (hclaim : claim approves kind drainer now world = (result, next))
    (hrow : next.row id = some row) :
    ∃ old, world.row id = some old ∧ row.content = old.content := by
  obtain ⟨breaker, ⟨_, rfl⟩ | ⟨granted, _, _, _, _, rfl⟩⟩ := claim_cases approves hclaim
  · exact ⟨row, hrow, rfl⟩
  · apply content_of_map (row_grant _ drainer now granted id) _ hrow
    intro old
    split <;> rfl

theorem perform_content {action : Action} (hperform : world.perform approves now action = some next)
    (hrow : next.row id = some row) :
    (∃ old, world.row id = some old ∧ row.content = old.content) ∨
      ∃ kind payloadJson, action = .enqueue true kind payloadJson ∧
        row = newRow kind payloadJson now id := by
  cases performed_of_perform hperform with
  | enqueue captureEnabled kind payloadJson =>
    cases captureEnabled with
    | false => exact .inl ⟨row, hrow, rfl⟩
    | true =>
      rw [row_enqueue] at hrow
      split at hrow
      next hid =>
        subst hid
        exact .inr ⟨kind, payloadJson, rfl, (Option.some.inj hrow).symm⟩
      next => exact .inl ⟨row, hrow, rfl⟩
  | claimNext drainer =>
    exact .inl (content_claim approves rfl hrow)
  | claimNextKind kind drainer =>
    exact .inl (content_claim approves rfl hrow)
  | confirm drainer other =>
    rw [row_confirm, Option.filter_eq_some_iff] at hrow
    exact .inl ⟨row, hrow.1, rfl⟩
  | markFailedSelect drainer other err =>
    unfold markFailedSelect at hrow
    split at hrow <;> exact .inl ⟨row, hrow, rfl⟩
  | markFailedUpdate call =>
    refine .inl (content_of_map (row_markFailedUpdate call now world id) ?_ hrow)
    intro old
    split
    · exact content_failRow call old
    · rfl
  | resetStale thresholdSecs =>
    refine .inl (content_of_map (row_resetStale thresholdSecs now world id) ?_ hrow)
    intro old
    split <;> rfl
  | drainAbandonedOlderThan drainer cutoff dryRun =>
    rcases drainAbandonedOlderThan_cases drainer cutoff dryRun world rfl with
      hsame | ⟨hrows, _⟩
    · rw [hsame] at hrow
      exact .inl ⟨row, hrow, rfl⟩
    · refine .inl (content_of_map (hrows id) ?_ hrow)
      intro old
      split <;> rfl

theorem map_content {set : Row → Row} (hnext : next.row id = (world.row id).map set)
    (hset : ∀ old, (set old).content = old.content) :
    (next.row id).map Row.content = (world.row id).map Row.content := by
  rw [hnext, Option.map_map]
  exact congrArg (Option.map · (world.row id)) (funext hset)

theorem map_content_claim {kind : Option Text} {drainer : Drainer} :
    ((claim approves kind drainer now world).2.row id).map Row.content =
      (world.row id).map Row.content := by
  obtain ⟨breaker, ⟨_, hnext⟩ | ⟨granted, _, _, _, _, hnext⟩⟩ :=
    claim_cases approves (Prod.eta (claim approves kind drainer now world)).symm
  · rw [hnext]
    rfl
  · rw [hnext]
    refine map_content (row_grant { world with breaker := breaker } drainer now granted id) ?_
    intro old
    split <;> rfl

/-- Only its `confirm` takes a stored row out of the queue, and no step changes what it sends. -/
theorem content_step {timed : Int × Action}
    (hstep : world.step approves timed = some next) (hstored : (world.row id).isSome)
    (hconfirm : ∀ drainer, timed.2 ≠ .confirm drainer id) :
    (next.row id).map Row.content = (world.row id).map Row.content := by
  obtain ⟨now, action⟩ := timed
  obtain ⟨-, hdone⟩ := performed_of_step hstep
  cases hdone with
  | enqueue captureEnabled kind payloadJson =>
    cases captureEnabled with
    | false => rfl
    | true =>
      obtain ⟨row, hrow⟩ := Option.isSome_iff_exists.mp hstored
      have hold : id < world.table.nextKey := AutoTable.find_lt hrow
      rw [row_enqueue, if_neg hold.ne]
      rfl
  | claimNext drainer => exact map_content_claim approves
  | claimNextKind kind drainer => exact map_content_claim approves
  | confirm drainer other =>
    have hother : other ≠ id := fun hsame => hconfirm drainer (hsame ▸ rfl)
    rw [row_confirm]
    cases hrow : world.row id with
    | none => simp [hrow] at hstored
    | some row =>
      have hid : row.id = id := AutoTable.find_key hrow
      have hkept : ({ world with clock := now } : World).row id = some row := hrow
      rw [hkept, Option.filter_some, if_pos]
      simpa [hid] using hother.symm
  | markFailedSelect drainer failed err =>
    unfold markFailedSelect
    split <;> rfl
  | markFailedUpdate call =>
    refine map_content (row_markFailedUpdate call now _ id) fun old => ?_
    split
    · exact content_failRow call old
    · rfl
  | resetStale thresholdSecs =>
    refine map_content (row_resetStale thresholdSecs now _ id) fun old => ?_
    split <;> rfl
  | drainAbandonedOlderThan drainer cutoff dryRun =>
    rcases drainAbandonedOlderThan_cases drainer cutoff dryRun _ rfl with hsame | ⟨hrows, _⟩
    · rw [hsame]
      rfl
    · refine map_content (hrows id) fun old => ?_
      split <;> rfl

/-- What was taken into the queue stays there as it is until it is confirmed. -/
theorem content_of_run {guard : World → Int × Action → Prop} {schedule : List (Int × Action)}
    (hrun : Run (World.step approves) guard world schedule next) (hrow : world.row id = some row)
    (hconfirm : ∀ now drainer, (now, .confirm drainer id) ∉ schedule) :
    (next.row id).map Row.content = some row.content := by
  have hstart : (world.row id).map Row.content = some row.content := by rw [hrow]; rfl
  clear hrow
  induction hrun with
  | nil state => exact hstart
  | @cons state middle final timed rest allowed taken _ ih =>
    have hstored : (state.row id).isSome := by
      rw [← Option.isSome_map, hstart]
      rfl
    apply ih (fun now drainer hmem => hconfirm now drainer (List.mem_cons_of_mem _ hmem))
    rw [← hstart]
    refine content_step approves taken hstored fun drainer haction => ?_
    exact hconfirm timed.1 drainer (haction ▸ List.mem_cons_self)

def retriedSchedule : List (Int × Action) :=
  [(0, .claimNext 1), (1, .markFailedSelect 1 1 "timeout"),
    (1, .markFailedUpdate ⟨1, 1, 0, "timeout"⟩)]

theorem content_of_run_retried : ∃ final, execute (World.step fun _ => false) (fun _ _ => True)
      (enqueue true "observation" "{}" 0 .init).2 retriedSchedule = some final ∧
      (final.row 1).map Row.content = some ("observation".toList, "{}".toList) := by
  obtain ⟨final, hfinal⟩ : ∃ final, execute (World.step fun _ => false) (fun _ _ => True)
      (enqueue true "observation" "{}" 0 .init).2 retriedSchedule = some final :=
    Option.isSome_iff_exists.mp (by decide)
  have hrow : (enqueue true "observation" "{}" 0 .init).2.row 1 =
      some (newRow "observation" "{}" 0 1) := rfl
  exact ⟨final, hfinal, content_of_run _ (.of_execute hfinal) hrow (by simp [retriedSchedule])⟩

/-- Approvals are the only rows of the session-mined kind that read as approved. -/
def ApprovalsRecorded (inbox : Inbox) : Prop :=
  ∀ id row, inbox.queue.row id = some row → row.kind = sessionMinedCandidate →
    approves row.payloadJson → id ∈ inbox.approved

namespace ApprovalsRecorded

variable {parse render approves}

theorem init : ApprovalsRecorded approves .init := by
  intro id row hrow
  contradiction

section

variable (hinv : ApprovalsRecorded approves inbox)
include hinv

theorem preserve {next : Inbox} (happroved : inbox.approved ⊆ next.approved)
    (hrows : ∀ id row, next.queue.row id = some row → row.kind = sessionMinedCandidate →
      approves row.payloadJson → id ∈ next.approved ∨
        ∃ old, inbox.queue.row id = some old ∧ row.content = old.content) :
    ApprovalsRecorded approves next := by
  intro id row hrow hkind hreads
  rcases hrows id row hrow hkind hreads with hdone | ⟨old, hold, hcontent⟩
  · exact hdone
  · obtain ⟨holdKind, holdPayload⟩ := Prod.mk.inj hcontent
    exact happroved (hinv id old hold (holdKind ▸ hkind) (holdPayload ▸ hreads))

theorem perform {next : Inbox}
    (hrender : ∀ value : Json, approves (render value) = jsonLocallyApproved value)
    {action : InboxAction} (hkinds : OtherKinds action)
    (hperform : inbox.perform parse render approves now action = some next) :
    ApprovalsRecorded approves next := by
  cases action with
  | queue action =>
    obtain ⟨queue, hqueue, rfl⟩ := Option.map_eq_some_iff.mp hperform
    refine hinv.preserve (List.Subset.refl _) ?_
    intro id row hrow hkind _
    rcases perform_content approves hqueue hrow with hold | ⟨kind, _, rfl, rfl⟩
    · exact .inr hold
    · exact absurd hkind hkinds
  | enqueueCandidate captureEnabled candidate =>
    obtain rfl := Option.some.inj hperform
    refine hinv.preserve (List.Subset.refl _) ?_
    intro id row hrow _ hreads
    right
    cases captureEnabled with
    | false => exact ⟨row, hrow, rfl⟩
    | true =>
      have hrow := (row_enqueue _ _ now inbox.queue id).symm.trans hrow
      split at hrow
      next =>
        -- A fresh candidate reads as not approved.
        obtain rfl := Option.some.inj hrow
        simp only [newRow, hrender, locallyApproved_toJson] at hreads
        contradiction
      next => exact ⟨row, hrow, rfl⟩
  | approveSelect id ruleId =>
    obtain rfl := Option.some.inj hperform
    unfold approveSelect
    split <;> exact hinv
  | approveUpdate call =>
    simp only [Inbox.perform, Option.ite_none_right_eq_some] at hperform
    obtain ⟨_, hnext⟩ := hperform
    obtain rfl := Option.some.inj hnext
    refine hinv.preserve (List.subset_cons_self _ _) ?_
    intro id row hrow _ _
    have hmap :=
      (AutoTable.find_update inbox.queue.table (fun row : Row => decide (row.id = call.id))
      (approveRow_id call.marked) id).symm.trans hrow
    obtain ⟨old, hold, hset⟩ := Option.map_eq_some_iff.mp hmap
    have hid : old.id = id := AutoTable.find_key hold
    split at hset
    next happroved =>
      left
      have hcall : id = call.id := hid.symm.trans (of_decide_eq_true happroved)
      exact hcall ▸ (.head _)
    next => exact .inr ⟨old, hold, hset ▸ rfl⟩
  | reject id =>
    obtain rfl := Option.some.inj hperform
    refine hinv.preserve (List.Subset.refl _) ?_
    intro other row hrow _ _
    have hfilter := (AutoTable.find_delete inbox.queue.table (fun row : Row => decide (row.id = id))
      other).symm.trans hrow
    exact .inr ⟨row, (Option.filter_eq_some_iff.mp hfilter).1, rfl⟩

theorem step {next : Inbox}
    (hrender : ∀ value : Json, approves (render value) = jsonLocallyApproved value)
    {timed : Int × InboxAction} (hkinds : OtherKinds timed.2)
    (hstep : inbox.step parse render approves timed = some next) :
    ApprovalsRecorded approves next := by
  unfold Inbox.step at hstep
  split at hstep
  next =>
    have hadvanced : ApprovalsRecorded approves
        { inbox with queue := { inbox.queue with clock := timed.1 } } := hinv
    exact hadvanced.perform hrender hkinds hstep
  next => contradiction

theorem approved_of_claim {kind : Option Text}
    {drainer : Drainer} (hclaim : (claim approves kind drainer now inbox.queue).1 = some row)
    (hkind : row.kind = sessionMinedCandidate) : row.id ∈ inbox.approved := by
  obtain ⟨_, ⟨hnone, _⟩ | ⟨old, hold, _, happroved, hrow, _⟩⟩ :=
    claim_cases approves (Prod.ext hclaim rfl)
  · contradiction
  · obtain rfl := Option.some.inj hrow
    refine hinv old.id old hold hkind ?_
    have hsession : old.kind = sessionMinedCandidate := hkind
    simpa [approvedForUpload, hsession] using happroved

end

end ApprovalsRecorded

/-- The approval gate: in every state that the queue and the inbox can reach, claims return
session-mined rows only after their approval, `claim_next` serves the first of the rows that
`claim_next_kind` serves, and the pending counts are those of the claimable rows. -/
theorem approvalGate_of_run
    (hrender : ∀ value : Json, approves (render value) = jsonLocallyApproved value)
    {schedule : List (Int × InboxAction)}
    (hrun : Run (Inbox.step parse render approves) (fun _ timed => OtherKinds timed.2)
      .init schedule inbox) :
    (∀ drainer now row, row.kind = sessionMinedCandidate →
      (claimNext approves drainer now inbox.queue).1 = some row ∨
        row ∈ claimableByKind approves drainer now inbox.queue →
      row.id ∈ inbox.approved) ∧
    (∀ drainer now, FirstServed (claimableByKind approves drainer now inbox.queue)
      (claimNext approves drainer now inbox.queue).1) ∧
    CountsClaimable approves inbox.queue := by
  have hinv : ApprovalsRecorded approves inbox := by
    refine hrun.invariant ?_ .init
    intro inbox timed next hinv hkinds hstep
    exact hinv.step hrender hkinds hstep
  refine ⟨?_, ?_, countsClaimable approves inbox.queue⟩
  · intro drainer now row hkind hclaim
    rcases hclaim with hclaim | ⟨kind, hclaim⟩
    · exact hinv.approved_of_claim hclaim hkind
    · exact hinv.approved_of_claim hclaim hkind
  · intro drainer now
    exact firstServed_claimNext approves drainer now inbox.queue

end Review

def minedCandidate : SessionMinedCandidate where
  sessionId := "s"
  tsMs := 0
  sourceRepo := "o/r"
  title := "t"
  body := "b"
  filePatterns := ["*"]
  gateModel := "m"
  gateVerdict := "KEEP"
  contentHash := "h"
  origin := "session_mined"
  requiresHumanApproval := true
  localTriage := none
  localEvidence := none

def minedPayload : Text :=
  "\x7b\"session_id\":\"s\",\"ts_ms\":0,\"source_repo\":\"o/r\",\"title\":\"t\"," ++
    "\"body\":\"b\",\"file_patterns\":[\"*\"],\"gate_model\":\"m\"," ++
    "\"gate_verdict\":\"KEEP\",\"content_hash\":\"h\",\"origin\":\"session_mined\"," ++
    "\"requires_human_approval\":true\x7d".toList

/-- The same payload once it is approved: the members are sorted by name. -/
def approvedPayload : Text :=
  "\x7b\"body\":\"b\",\"content_hash\":\"h\",\"file_patterns\":[\"*\"]," ++
    "\"gate_model\":\"m\",\"gate_verdict\":\"KEEP\",\"localReview\":" ++
    "\x7b\"reviewedAtMs\":0,\"ruleId\":\"r\",\"status\":\"approved\"\x7d,".toList ++
    "\"origin\":\"session_mined\",\"requires_human_approval\":true," ++
    "\"session_id\":\"s\",\"source_repo\":\"o/r\",\"title\":\"t\",\"ts_ms\":0\x7d".toList

def renderMined (value : Json) : Text :=
  if jsonLocallyApproved value then approvedPayload else minedPayload

def parseMined (payload : Text) : Option Json :=
  if payload = minedPayload then some minedCandidate.toJson else none

def readsApproved (payload : Text) : Bool := payload = approvedPayload

theorem readsApproved_renderMined (value : Json) :
    readsApproved (renderMined value) = jsonLocallyApproved value := by
  unfold renderMined
  split
  next happroved => simp [readsApproved, happroved]
  next hfresh =>
    rw [Bool.not_eq_true] at hfresh
    rw [hfresh]
    decide

/-- One candidate waits, is claimed once it is approved, and another is rejected. -/
def reviewSchedule : List (Int × InboxAction) := [ (0, .enqueueCandidate true minedCandidate),
    (0, .queue (.enqueue true "observation" "\x7b\x7d".toList)),
    (0, .enqueueCandidate true minedCandidate),
    (0, .queue (.claimNext 1)),
    (0, .approveSelect 1 "r"),
    (0, .approveUpdate ⟨1, approvedPayload⟩),
    (0, .reject 3) ]

theorem approvalGate_of_run_review : ∃ inbox row,
    execute (Inbox.step parseMined renderMined readsApproved) (fun _ timed => OtherKinds timed.2)
      .init reviewSchedule = some inbox ∧
    (claimNext readsApproved 2 0 inbox.queue).1 = some row ∧ row.id ∈ inbox.approved := by
  have hrun : ∃ inbox, execute (Inbox.step parseMined renderMined readsApproved)
      (fun _ timed => OtherKinds timed.2) .init reviewSchedule = some inbox ∧
      (claimNext readsApproved 2 0 inbox.queue).1.any (·.kind = sessionMinedCandidate) = true :=
    (Option.any_eq_true _ _).mp (by decide +kernel)
  obtain ⟨inbox, hinbox, hclaim⟩ := hrun
  obtain ⟨row, hrow, hkind⟩ := (Option.any_eq_true _ _).mp hclaim
  refine ⟨inbox, row, hinbox, hrow, ?_⟩
  exact (approvalGate_of_run parseMined renderMined readsApproved readsApproved_renderMined
    (.of_execute hinbox)).1 2 0 row (of_decide_eq_true hkind) (.inl hrow)

end Difflore.Cloud.Outbox

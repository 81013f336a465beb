import Difflore.Foundation.Reference
import Difflore.Foundation.Text

/-! # Session-mined candidates in the outbox

A candidate is hidden by its local triage. A superseded or clustered one names
the candidate it was folded into.
-/

namespace Difflore.Memory

open Foundation Text

inductive SessionMinedLocalTriageStatus
  | supersededBy
  | clusteredInto
  | droppedLowSignal
  | unknown
  deriving DecidableEq

structure SessionMinedLocalTriage where
  status : SessionMinedLocalTriageStatus
  reason : Text
  reference : Option Text
  deriving DecidableEq

structure SessionMinedCandidate where
  contentHash : Text
  localTriage : Option SessionMinedLocalTriage
  localEvidence : Option Nat
  deriving DecidableEq

/-- A payload that parses, or one that does not but may still have a hash. -/
inductive Payload
  | candidate (candidate : SessionMinedCandidate)
  | unreadable (contentHash : Option Text)
  deriving DecidableEq

structure SessionMinedRow where
  id : Nat
  payload : Payload
  locallyApproved : Bool
  deriving DecidableEq

abbrev Inbox := List SessionMinedRow

structure RejectedSessionMinedCandidate where
  itemId : Text
  contentHash : Text
  outboxId : Nat

namespace SessionMinedCandidate

def untriaged (candidate : SessionMinedCandidate) : Bool :=
  candidate.localTriage.all (·.status = .unknown)

def folded (candidate : SessionMinedCandidate) : Bool := candidate.localTriage.any fun triage =>
    triage.status = .supersededBy || triage.status = .clusteredInto

def dropped (candidate : SessionMinedCandidate) : Bool :=
  candidate.localTriage.any (·.status = .droppedLowSignal)

def reference (candidate : SessionMinedCandidate) : Option Text :=
  candidate.localTriage.bind SessionMinedLocalTriage.reference

theorem not_folded_of_untriaged {candidate : SessionMinedCandidate}
    (huntriaged : candidate.untriaged = true) : candidate.folded = false := by
  unfold untriaged at huntriaged
  unfold folded
  cases htriage : candidate.localTriage with
  | none => rfl
  | some triage => simp_all

theorem not_folded_of_dropped {candidate : SessionMinedCandidate}
    (hdropped : candidate.dropped = true) :
    candidate.folded = false ∧ candidate.untriaged = false := by
  unfold dropped at hdropped
  unfold folded untriaged
  cases htriage : candidate.localTriage with
  | none => simp_all
  | some triage => simp_all

end SessionMinedCandidate

namespace SessionMinedRow

def candidate? (row : SessionMinedRow) : Option SessionMinedCandidate :=
  match row.payload with
  | .candidate candidate => some candidate
  | .unreadable _ => none

/-- `json_extract(payload_json, '$.content_hash')`. -/
def contentHash? (row : SessionMinedRow) : Option Text :=
  match row.payload with
  | .candidate candidate => some candidate.contentHash
  | .unreadable contentHash => contentHash

def rejected (row : SessionMinedRow) (candidate : SessionMinedCandidate) :
    RejectedSessionMinedCandidate where
  itemId := "session:" ++ candidate.contentHash
  contentHash := candidate.contentHash
  outboxId := row.id

def modify (change : SessionMinedCandidate → SessionMinedCandidate) (row : SessionMinedRow) :
    SessionMinedRow :=
  match row.payload with
  | .candidate candidate => { row with payload := .candidate (change candidate) }
  | .unreadable _ => row

theorem candidate?_modify (change : SessionMinedCandidate → SessionMinedCandidate)
    (row : SessionMinedRow) : (row.modify change).candidate? = row.candidate?.map change := by
  unfold modify
  cases hpayload : row.payload with
  | candidate candidate => simp [candidate?, hpayload]
  | unreadable contentHash => simp [candidate?, hpayload]

end SessionMinedRow

namespace Inbox

/-- The rows a delete of the predicate leaves: all but the readable ones that
meet it and are not approved. -/
def stays (p : SessionMinedCandidate → Bool) (row : SessionMinedRow) : Bool :=
  row.locallyApproved || !row.candidate?.any p

def sessionMinedLocalTriageJson (status : SessionMinedLocalTriageStatus) (reason : Text)
    (reference : Option Text) : Except Text SessionMinedLocalTriage :=
  let reason := trim reason
  if reason = [] then .error "session-mined triage reason must not be empty"
  else
    let reference := (reference.map trim).filter (· ≠ [])
    if (status = .supersededBy ∨ status = .clusteredInto) ∧ reference = none then
      .error "session-mined triage reference is required for superseded/clustered candidates"
    else .ok ⟨status, reason, reference⟩

def triageable (target : Text) (candidate : SessionMinedCandidate) : Bool :=
  candidate.contentHash = target && candidate.untriaged

def triaged (target : Text) (triage : SessionMinedLocalTriage)
    (candidate : SessionMinedCandidate) : SessionMinedCandidate :=
  if triageable target candidate then { candidate with localTriage := some triage } else candidate

/-- Triage every untriaged row with the hash. Returns the first row changed. -/
def setCandidateTriage (contentHash : Text) (status : SessionMinedLocalTriageStatus)
    (reason : Text) (reference : Option Text) (rows : Inbox) :
    Except Text (Option Nat) × Inbox :=
  let target := trim contentHash
  if target = [] then (.ok none, rows)
  else if (status = .supersededBy ∨ status = .clusteredInto) ∧
      reference.any (trim · = target) = true then
    (.error "session-mined local triage reference must not point at the candidate itself", rows)
  else
    match sessionMinedLocalTriageJson status reason reference with
    | .error e => (.error e, rows)
    | .ok triage =>
      (.ok ((rows.find? (·.candidate?.any (triageable target))).map SessionMinedRow.id),
        rows.map (·.modify (triaged target triage)))

def evidenceDiffers (target : Text) (count : Nat) (candidate : SessionMinedCandidate) : Bool :=
  candidate.contentHash = target && candidate.localEvidence ≠ some count

def withEvidence (target : Text) (count : Nat) (candidate : SessionMinedCandidate) :
    SessionMinedCandidate :=
  if evidenceDiffers target count candidate then { candidate with localEvidence := some count }
  else candidate

def setCandidateDistinctEvidenceCount (contentHash : Text) (count : Nat) (rows : Inbox) :
    Option Nat × Inbox :=
  let target := trim contentHash
  if target = [] ∨ count = 0 then (none, rows)
  else
    ((rows.find? (·.candidate?.any (evidenceDiffers target count))).map SessionMinedRow.id,
      rows.map (·.modify (withEvidence target count)))

def deleteWhere (p : SessionMinedCandidate → Bool) (rows : Inbox) :
    List RejectedSessionMinedCandidate × Inbox :=
  ((rows.filter (!stays p ·)).filterMap fun row => row.candidate?.map row.rejected,
    rows.filter (stays p))

def deleteSessionMinedCandidatesByContentHash (contentHash : Text) (rows : Inbox) :
    List RejectedSessionMinedCandidate × Inbox :=
  let target := trim contentHash
  if target = [] then ([], rows) else deleteWhere (·.contentHash = target) rows

def deleteDroppedLowSignalSessionMinedCandidates (rows : Inbox) :
    List RejectedSessionMinedCandidate × Inbox :=
  deleteWhere (·.dropped) rows

def liveSessionCandidateExists (contentHash : Text) (rows : Inbox) : Bool :=
  rows.any (·.contentHash? = some contentHash)

def candidates (rows : Inbox) : List SessionMinedCandidate := rows.filterMap (·.candidate?)

def Refers (rows : Inbox) (source target : Option Text) : Prop :=
  ∃ candidate ∈ rows.candidates, candidate.folded = true ∧
    source = some candidate.contentHash ∧ target = candidate.reference

def Live (rows : Inbox) (hash : Option Text) : Prop :=
  ∃ candidate ∈ rows.candidates, candidate.untriaged = true ∧ hash = some candidate.contentHash

/-- From every folded candidate, fold targets can be followed to a candidate
that is neither deleted nor triaged itself. -/
def NoneStranded (rows : Inbox) : Prop := Grounded (Refers rows) (Live rows)

end Inbox

end Difflore.Memory

import Difflore.SessionMine.Candidate

/-! # The inbox of session lessons

Candidates are stored in the outbox. An enqueue folds into the newest row that matches, or else
inserts. The user approves and rejects what is visible; triage hides rows and cleanup deletes
them.
-/

namespace Difflore.SessionMine

open Foundation Text Memory

/-- The session-mined rows, newest first, with what no operation rewrites: the lesson and the
creation time, by row id. Ids are never used again. -/
structure Outbox where
  rows : Inbox
  lessons : Nat → Lesson
  createdAt : Nat → Int
  lastId : Nat

def dayMs : Int := 86400000

def naturalDay (tsMs : Int) : Int := tsMs / dayMs

def Lesson.evidence (lesson : Lesson) : Text × Int := (lesson.sessionId, naturalDay lesson.tsMs)

def sameEvidenceDay (existing incoming : Lesson) : Bool :=
  existing.sessionId = incoming.sessionId && naturalDay existing.tsMs = naturalDay incoming.tsMs

def existingEvidenceCount (candidate : SessionMinedCandidate) : Nat :=
  max (candidate.localEvidence.getD 1) 1

/-- The hash a repeated capture counts for. A dropped row has none. -/
def foldTarget (existing : SessionMinedCandidate) : Option Text :=
  if existing.dropped then none
  else if existing.folded then existing.reference
  else some existing.contentHash

def visible (row : SessionMinedRow) : Bool :=
  !row.locallyApproved && !row.candidate?.any fun candidate => candidate.folded || candidate.dropped

namespace Outbox

variable (outbox : Outbox)

def matchesRow (incoming : Lesson) (row : SessionMinedRow) : Bool := row.candidate?.isSome &&
    sessionMinedCandidatesSemanticallyMatch (outbox.lessons row.id) incoming

def currentSessionEvidenceCount (contentHash sourceRepo : Text) : Option Nat :=
  ((outbox.rows.reverse.find? fun row => row.candidate?.any (·.contentHash = contentHash) &&
    eqIgnoreAsciiCase (outbox.lessons row.id).sourceRepo sourceRepo).bind
      SessionMinedRow.candidate?).map existingEvidenceCount

def foldInto (row : SessionMinedRow) (incoming : Lesson) : Outbox :=
  match row.candidate?.bind foldTarget with
  | none => outbox
  | some target =>
    match outbox.currentSessionEvidenceCount target incoming.sourceRepo with
    | none => outbox
    | some current =>
      let next :=
        if sameEvidenceDay (outbox.lessons row.id) incoming then current else current + 1
      { outbox with
        rows := (Inbox.setCandidateDistinctEvidenceCount target next outbox.rows).2 }

def foldExistingSessionCandidate (incoming : Lesson) : Option (Nat × Outbox) :=
  (outbox.rows.find? (outbox.matchesRow incoming)).map fun row =>
    (row.id, outbox.foldInto row incoming)

/-- `INSERT` of a new row at the time. -/
def insert (candidate : Candidate) (now : Int) : Outbox where
  rows := ⟨outbox.lastId + 1, .candidate candidate.toSessionMinedCandidate, false⟩ :: outbox.rows
  lessons := Function.update outbox.lessons (outbox.lastId + 1) candidate.toLesson
  createdAt := Function.update outbox.createdAt (outbox.lastId + 1) now
  lastId := outbox.lastId + 1

/-- The row the candidate is in, or `0` where capture is disabled. -/
def enqueueCandidate (captureEnabled : Bool) (now : Int) (candidate : Candidate) :
    Except Text Nat × Outbox :=
  match candidate.validate with
  | .error e => (.error ("session-mine: invalid candidate: " ++ e.message), outbox)
  | .ok () =>
    match outbox.foldExistingSessionCandidate candidate.toLesson with
    | some (rowId, folded) => (.ok rowId, folded)
    | none =>
      if captureEnabled then (.ok (outbox.lastId + 1), outbox.insert candidate now)
      else (.ok 0, outbox)

def laterFirst (left right : SessionMinedRow) : Prop :=
  outbox.createdAt right.id < outbox.createdAt left.id ∨
    (outbox.createdAt left.id = outbox.createdAt right.id ∧ right.id ≤ left.id)

instance : DecidableRel outbox.laterFirst := fun _ _ => inferInstanceAs (Decidable (_ ∨ _))

def shows (target : Text) (row : SessionMinedRow) : Bool :=
  visible row && row.candidate?.any (·.contentHash = target)

/-- The visible rows are read newest first by their creation times. -/
def findSessionMinedRowByContentHash (contentHash : Text) : Option SessionMinedRow :=
  let target := trim contentHash
  if target = [] then none
  else ((outbox.rows.filter visible).insertionSort outbox.laterFirst).find? (shows target)

def deleteRow (id : Nat) : Outbox := { outbox with rows := outbox.rows.filter (·.id ≠ id) }

def sessionCandidateNotFound (contentHash : Text) : Text :=
  "candidate rule `session:" ++ (trim contentHash ++ "` not found")

def rejectSessionMinedCandidate (contentHash : Text) :
    Except Text RejectedSessionMinedCandidate × Outbox :=
  match outbox.findSessionMinedRowByContentHash contentHash with
  | none => (.error (sessionCandidateNotFound contentHash), outbox)
  | some row =>
    match row.candidate? with
    | none => (.error (sessionCandidateNotFound contentHash), outbox)
    | some candidate => (.ok (row.rejected candidate), outbox.deleteRow row.id)

def markSessionMinedLocallyApproved (id : Nat) : Outbox :=
  { outbox with
    rows := outbox.rows.map fun row => if row.id = id then { row with locallyApproved := true }
      else row }

def validateSessionCandidate (row : SessionMinedRow) (candidate : SessionMinedCandidate) :
    Except Text Unit :=
  (Candidate.validate ⟨outbox.lessons row.id, candidate⟩).mapError fun e =>
    "candidate rule row " ++ (Nat.toDigits 10 row.id ++
      (" is invalid and cannot be approved locally: " ++ e.message))

/-- Approve the visible candidate. `activated` is what became of its rule in the skill table. -/
def approveSessionMinedCandidate (contentHash : Text) (activated : Except Text Unit) :
    Except Text Nat × Outbox :=
  match outbox.findSessionMinedRowByContentHash contentHash with
  | none => (.error (sessionCandidateNotFound contentHash), outbox)
  | some row =>
    match (row.candidate?.elim (.ok ()) (outbox.validateSessionCandidate row)).bind
      fun _ => activated with
    | .error e => (.error e, outbox)
    | .ok () => (.ok row.id, outbox.markSessionMinedLocallyApproved row.id)

def markSessionMinedCandidateApprovedForRule (contentHash : Text) :
    Except Text (Option Nat) × Outbox :=
  match outbox.findSessionMinedRowByContentHash contentHash with
  | none => (.ok none, outbox)
  | some row =>
    match row.candidate?.elim (.ok ()) (outbox.validateSessionCandidate row) with
    | .error e => (.error e, outbox)
    | .ok () => (.ok (some row.id), outbox.markSessionMinedLocallyApproved row.id)

end Outbox

/-! ## Histories -/

inductive InboxAction
  | enqueue (args : SessionMinedCandidateArgs) (captureEnabled : Bool) (now : Int)
  | elsewhere
  | reject (contentHash : Text)
  | triage (contentHash : Text) (status : SessionMinedLocalTriageStatus) (reason : Text)
      (reference : Option Text)
  | deleteByContentHash (contentHash : Text)
  | deleteDroppedLowSignal
  | approve (contentHash : Text) (activated : Except Text Unit)
  | approveForRule (contentHash : Text)

/-- The outbox, with the row every enqueued lesson went to, and the lessons that were rejected,
or dropped as low signal and deleted. -/
structure History where
  outbox : Outbox
  captured : List (Nat × Lesson)
  cleared : List Lesson

namespace History

variable (sha256 : Text → Digest) (history : History)

def enqueue (candidate : Candidate) (captureEnabled : Bool) (now : Int) : History :=
  match history.outbox.enqueueCandidate captureEnabled now candidate with
  | (.ok rowId, outbox) =>
    { history with outbox, captured := (rowId, candidate.toLesson) :: history.captured }
  | (.error _, outbox) => { history with outbox }

def reject (contentHash : Text) : History :=
  match history.outbox.rejectSessionMinedCandidate contentHash with
  | (.ok rejected, outbox) =>
    { history with
      outbox, cleared := history.outbox.lessons rejected.outboxId :: history.cleared }
  | (.error _, outbox) => { history with outbox }

/-- The lessons of the dropped rows that the rows left behind lack. -/
def droppedLessons (rest : Inbox) : List Lesson :=
  (history.outbox.rows.filter fun row => row.candidate?.any (·.dropped) && !rest.any (· = row)).map
    fun row => history.outbox.lessons row.id

def cleanUp (rest : Inbox) : History where
  outbox := { history.outbox with rows := rest }
  captured := history.captured
  cleared := history.droppedLessons rest ++ history.cleared

def step : InboxAction → History
  | .enqueue args captureEnabled now =>
    match Candidate.tryNew sha256 args with
    | .error _ => history
    | .ok candidate => history.enqueue candidate captureEnabled now
  | .elsewhere =>
    { history with outbox := { history.outbox with lastId := history.outbox.lastId + 1 } }
  | .reject contentHash => history.reject contentHash
  | .triage contentHash status reason reference =>
    { history with
      outbox := { history.outbox with
        rows := (Inbox.setCandidateTriage contentHash status reason reference
          history.outbox.rows).2 } }
  | .deleteByContentHash contentHash =>
    history.cleanUp
      (Inbox.deleteSessionMinedCandidatesByContentHash contentHash history.outbox.rows).2
  | .deleteDroppedLowSignal =>
    history.cleanUp (Inbox.deleteDroppedLowSignalSessionMinedCandidates history.outbox.rows).2
  | .approve contentHash activated =>
    { history with
      outbox := (history.outbox.approveSessionMinedCandidate contentHash activated).2 }
  | .approveForRule contentHash =>
    { history with
      outbox := (history.outbox.markSessionMinedCandidateApprovedForRule contentHash).2 }

def initial (lessons : Nat → Lesson) (createdAt : Nat → Int) (lastId : Nat) : History where
  outbox := ⟨[], lessons, createdAt, lastId⟩
  captured := []
  cleared := []

end History

namespace Outbox

variable {outbox : Outbox}

theorem enqueueCandidate_of_find {candidate : Candidate} {row : SessionMinedRow}
    (captureEnabled : Bool) (now : Int) (hvalid : candidate.validate = .ok ())
    (hfind : outbox.rows.find? (outbox.matchesRow candidate.toLesson) = some row) :
    outbox.enqueueCandidate captureEnabled now candidate =
      (.ok row.id, outbox.foldInto row candidate.toLesson) := by
  unfold enqueueCandidate foldExistingSessionCandidate
  rw [hvalid, hfind]
  rfl

theorem enqueueCandidate_of_find_none {candidate : Candidate} (captureEnabled : Bool) (now : Int)
    (hvalid : candidate.validate = .ok ())
    (hfind : outbox.rows.find? (outbox.matchesRow candidate.toLesson) = none) :
    outbox.enqueueCandidate captureEnabled now candidate =
      if captureEnabled then (.ok (outbox.lastId + 1), outbox.insert candidate now)
      else (.ok 0, outbox) := by
  unfold enqueueCandidate foldExistingSessionCandidate
  rw [hvalid, hfind]
  rfl

def KeepsTriage (change : SessionMinedCandidate → SessionMinedCandidate) : Prop :=
  ∀ candidate, (change candidate).contentHash = candidate.contentHash ∧
    (change candidate).localTriage = candidate.localTriage

theorem modify_id (row : SessionMinedRow) : row.modify id = row := by
  unfold SessionMinedRow.modify
  cases row with
  | mk rowId payload approved => cases payload <;> rfl

theorem setCandidateDistinctEvidenceCount_eq_map (contentHash : Text) (count : Nat)
    (rows : Inbox) : ∃ change, KeepsTriage change ∧
      (Inbox.setCandidateDistinctEvidenceCount contentHash count rows).2 =
        rows.map (·.modify change) := by
  unfold Inbox.setCandidateDistinctEvidenceCount
  dsimp only
  split
  next =>
    refine ⟨id, fun candidate => ⟨rfl, rfl⟩, ?_⟩
    rw [funext modify_id]
    exact (List.map_id' rows).symm
  next =>
    refine ⟨_, fun candidate => ?_, rfl⟩
    unfold Inbox.withEvidence
    split <;> exact ⟨rfl, rfl⟩

theorem foldInto_eq (row : SessionMinedRow) (incoming : Lesson) : ∃ change, KeepsTriage change ∧
      outbox.foldInto row incoming = { outbox with rows := outbox.rows.map (·.modify change) } := by
  have hsame : ∃ change, KeepsTriage change ∧
      outbox = { outbox with rows := outbox.rows.map (·.modify change) } := by
    refine ⟨id, fun candidate => ⟨rfl, rfl⟩, ?_⟩
    rw [funext modify_id, List.map_id']
  unfold foldInto
  split
  next => exact hsame
  next target htarget =>
    split
    next => exact hsame
    next current hcurrent =>
      dsimp only
      obtain ⟨change, hkeeps, hrows⟩ := setCandidateDistinctEvidenceCount_eq_map target
        (if sameEvidenceDay (outbox.lessons row.id) incoming then current else current + 1)
        outbox.rows
      exact ⟨change, hkeeps, by rw [hrows]⟩

end Outbox

end Difflore.SessionMine

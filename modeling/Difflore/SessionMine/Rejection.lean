import Difflore.SessionMine.Evidence

/-! # Rejected lessons

A decision about a lesson is remembered by its row alone. A deleted row is forgotten, and the
next capture of the lesson is stored again.
-/

namespace Difflore.SessionMine

open Foundation Text Memory

variable (sha256 : Text → Digest)

def WasCleared (history : History) (candidate : Candidate) : Prop := ∃ lesson ∈ history.cleared,
    sessionMinedCandidatesSemanticallyMatch lesson candidate.toLesson = true

/-- An enqueue of a lesson that was cleared makes no row visible. Right after a rejection no
visible row has the hash. -/
def StaysRejected (history : History) : InboxAction → Prop
  | .enqueue args captureEnabled now => ∀ candidate,
      Candidate.tryNew sha256 args = .ok candidate → WasCleared history candidate →
      ∀ row ∈ (history.step sha256 (.enqueue args captureEnabled now)).outbox.rows,
        visible row = true → ∃ earlier ∈ history.outbox.rows, earlier.id = row.id ∧
          visible earlier = true
  | .reject contentHash => ∀ rejected,
      (history.outbox.rejectSessionMinedCandidate contentHash).1 = .ok rejected →
      ∀ row ∈ (history.step sha256 (.reject contentHash)).outbox.rows,
        Outbox.shows rejected.contentHash row = false
  | _ => True

/-- Where capture is enabled, a row that is still stored matches what is enqueued after it was
cleared; and a rejected hash is visible in one row only. -/
def Remembers (history : History) : InboxAction → Prop
  | .enqueue args captureEnabled _ => ∀ candidate,
      Candidate.tryNew sha256 args = .ok candidate → WasCleared history candidate →
      captureEnabled = true →
      ∃ row ∈ history.outbox.rows, history.outbox.matchesRow candidate.toLesson row = true
  | .reject contentHash => trim contentHash ≠ [] →
      ∀ row ∈ history.outbox.rows, ∀ other ∈ history.outbox.rows,
        Outbox.shows (trim contentHash) row = true →
        Outbox.shows (trim contentHash) other = true → row.id = other.id
  | _ => True

/-! ## The rows of a history -/

def Known (outbox : Outbox) : Prop := ∀ row ∈ outbox.rows, row.id ≤ outbox.lastId

section Known

variable {outbox : Outbox}

section

variable (hknown : Known outbox)
include hknown

theorem Known.map {change : SessionMinedRow → SessionMinedRow}
    (hid : ∀ row, (change row).id = row.id) :
    Known { outbox with rows := outbox.rows.map change } := by
  intro changed hchanged
  obtain ⟨row, hrow, rfl⟩ := List.mem_map.mp hchanged
  rw [hid]
  exact hknown row hrow

theorem Known.filter (p : SessionMinedRow → Bool) :
    Known { outbox with rows := outbox.rows.filter p } := by
  intro row hrow
  exact hknown row (List.mem_of_mem_filter hrow)

theorem Known.foldInto (row : SessionMinedRow) (incoming : Lesson) :
    Known (outbox.foldInto row incoming) := by
  obtain ⟨change, _, heq⟩ := outbox.foldInto_eq row incoming
  rw [heq]
  exact hknown.map fun row => id_modify row change

theorem Known.insert (candidate : Candidate) (now : Int) :
    Known (outbox.insert candidate now) := by
  intro row hrow
  rcases List.mem_cons.mp hrow with rfl | hrow
  · exact le_refl _
  · exact Nat.le_succ_of_le (hknown row hrow)

theorem Known.markApproved (id : Nat) :
    Known (outbox.markSessionMinedLocallyApproved id) := by
  apply hknown.map
  intro row
  split <;> rfl

theorem Known.setTriage (contentHash : Text)
    (status : SessionMinedLocalTriageStatus) (reason : Text) (reference : Option Text) :
    Known { outbox with
      rows := (Inbox.setCandidateTriage contentHash status reason reference outbox.rows).2 } := by
  unfold Inbox.setCandidateTriage
  dsimp only
  split
  next => exact hknown
  next =>
    split
    next => exact hknown
    next =>
      split
      next => exact hknown
      next triage _ => exact hknown.map fun row => id_modify row _

end

end Known

variable {history : History}

theorem Known.enqueue (hknown : Known history.outbox) {candidate : Candidate}
    (hfresh : Fresh sha256 candidate) (captureEnabled : Bool) (now : Int) :
    Known (history.enqueue candidate captureEnabled now).outbox := by
  unfold History.enqueue
  cases hfind : history.outbox.rows.find? (history.outbox.matchesRow candidate.toLesson) with
  | some row =>
    rw [Outbox.enqueueCandidate_of_find captureEnabled now hfresh.valid hfind]
    exact hknown.foldInto row candidate.toLesson
  | none =>
    rw [Outbox.enqueueCandidate_of_find_none captureEnabled now hfresh.valid hfind]
    cases captureEnabled with
    | true => exact hknown.insert candidate now
    | false => exact hknown

theorem Known.reject (hknown : Known history.outbox) (contentHash : Text) :
    Known (history.reject contentHash).outbox := by
  unfold History.reject Outbox.rejectSessionMinedCandidate
  cases history.outbox.findSessionMinedRowByContentHash contentHash with
  | none => exact hknown
  | some row =>
    dsimp only
    cases row.candidate? with
    | none => exact hknown
    | some candidate => exact hknown.filter _

theorem Known.step (hknown : Known history.outbox) (action : InboxAction) :
    Known (history.step sha256 action).outbox := by
  cases action with
  | enqueue args captureEnabled now =>
    unfold History.step
    dsimp only
    cases hnew : Candidate.tryNew sha256 args with
    | error e => exact hknown
    | ok candidate => exact hknown.enqueue sha256 (fresh_of_tryNew sha256 hnew) captureEnabled now
  | elsewhere =>
    intro row hrow
    exact Nat.le_succ_of_le (hknown row hrow)
  | reject contentHash => exact hknown.reject contentHash
  | triage contentHash status reason reference =>
    exact hknown.setTriage contentHash status reason reference
  | deleteByContentHash contentHash =>
    unfold History.step History.cleanUp Inbox.deleteSessionMinedCandidatesByContentHash
    dsimp only
    split
    next => exact hknown
    next => exact hknown.filter _
  | deleteDroppedLowSignal => exact hknown.filter _
  | approve contentHash activated =>
    unfold History.step Outbox.approveSessionMinedCandidate
    dsimp only
    split
    next => exact hknown
    next row _ =>
      split
      next => exact hknown
      next => exact hknown.markApproved row.id
  | approveForRule contentHash =>
    unfold History.step Outbox.markSessionMinedCandidateApprovedForRule
    dsimp only
    split
    next => exact hknown
    next row _ =>
      split
      next => exact hknown
      next => exact hknown.markApproved row.id

theorem visible_modify {change : SessionMinedCandidate → SessionMinedCandidate}
    (hkeeps : Outbox.KeepsTriage change) (row : SessionMinedRow) :
    visible (row.modify change) = visible row := by
  have happroved : (row.modify change).locallyApproved = row.locallyApproved := by
    unfold SessionMinedRow.modify
    split <;> rfl
  unfold visible
  rw [happroved, SessionMinedRow.candidate?_modify]
  cases row.candidate? with
  | none => rfl
  | some candidate =>
    simp only [Option.map_some, Option.any_some, SessionMinedCandidate.folded,
      SessionMinedCandidate.dropped, (hkeeps candidate).2]

theorem enqueue_shows_iff (hknown : Known history.outbox) {candidate : Candidate}
    (hfresh : Fresh sha256 candidate) (captureEnabled : Bool) (now : Int) :
    (∀ row ∈ (history.enqueue candidate captureEnabled now).outbox.rows, visible row = true →
      ∃ earlier ∈ history.outbox.rows, earlier.id = row.id ∧ visible earlier = true) ↔
    (captureEnabled = true → ∃ row ∈ history.outbox.rows,
      history.outbox.matchesRow candidate.toLesson row = true) := by
  unfold History.enqueue
  cases hfind : history.outbox.rows.find? (history.outbox.matchesRow candidate.toLesson) with
  | some row =>
    rw [Outbox.enqueueCandidate_of_find captureEnabled now hfresh.valid hfind]
    obtain ⟨change, hkeeps, heq⟩ := history.outbox.foldInto_eq row candidate.toLesson
    dsimp only
    rw [heq]
    apply iff_of_true
    · intro changed hchanged hvisible
      obtain ⟨earlier, hearlier, rfl⟩ := List.mem_map.mp hchanged
      rw [visible_modify hkeeps] at hvisible
      exact ⟨earlier, hearlier, (id_modify earlier change).symm, hvisible⟩
    · intro _
      exact ⟨row, List.mem_of_find?_eq_some hfind, List.find?_some hfind⟩
  | none =>
    rw [Outbox.enqueueCandidate_of_find_none captureEnabled now hfresh.valid hfind]
    cases captureEnabled with
    | false =>
      apply iff_of_true
      · intro row hrow hvisible
        exact ⟨row, hrow, rfl, hvisible⟩
      · intro henabled
        contradiction
    | true =>
      apply iff_of_false
      · intro hall
        have hvisible : visible ⟨history.outbox.lastId + 1,
            .candidate candidate.toSessionMinedCandidate, false⟩ = true := by
          simp [visible, SessionMinedRow.candidate?, SessionMinedCandidate.folded,
            SessionMinedCandidate.dropped, hfresh.untriaged]
        obtain ⟨earlier, hearlier, hid, _⟩ := hall _ (.head _) hvisible
        have hle := hknown earlier hearlier
        rw [hid] at hle
        exact absurd hle (Nat.not_succ_le_self _)
      · intro hmatch
        obtain ⟨row, hrow, hmatches⟩ := hmatch rfl
        exact absurd hmatches (List.find?_eq_none.mp hfind row hrow)

theorem findSessionMinedRow_eq_some {outbox : Outbox} {contentHash : Text} {row : SessionMinedRow}
    (hfind : outbox.findSessionMinedRowByContentHash contentHash = some row) :
    trim contentHash ≠ [] ∧ row ∈ outbox.rows ∧ Outbox.shows (trim contentHash) row = true := by
  unfold Outbox.findSessionMinedRowByContentHash at hfind
  dsimp only at hfind
  split at hfind
  next => contradiction
  next htarget =>
    have hmem := List.mem_of_find?_eq_some hfind
    rw [List.mem_insertionSort] at hmem
    exact ⟨htarget, List.mem_of_mem_filter hmem, List.find?_some hfind⟩

theorem findSessionMinedRow_eq_none {outbox : Outbox} {contentHash : Text}
    (hfind : outbox.findSessionMinedRowByContentHash contentHash = none)
    (htarget : trim contentHash ≠ []) :
    ∀ row ∈ outbox.rows, Outbox.shows (trim contentHash) row = false := by
  intro row hrow
  unfold Outbox.findSessionMinedRowByContentHash at hfind
  dsimp only at hfind
  rw [if_neg htarget, List.find?_eq_none] at hfind
  by_contra hshows
  rw [Bool.not_eq_false] at hshows
  have hvisible : visible row = true := by
    unfold Outbox.shows at hshows
    rw [Bool.and_eq_true] at hshows
    exact hshows.1
  refine hfind row ?_ hshows
  rw [List.mem_insertionSort]
  exact List.mem_filter.mpr ⟨hrow, hvisible⟩

theorem candidate_of_shows {target : Text} {row : SessionMinedRow}
    (hshows : Outbox.shows target row = true) :
    ∃ candidate, row.candidate? = some candidate ∧ candidate.contentHash = target := by
  unfold Outbox.shows at hshows
  rw [Bool.and_eq_true, Option.any_eq_true] at hshows
  obtain ⟨_, candidate, hcandidate, hhash⟩ := hshows
  exact ⟨candidate, hcandidate, of_decide_eq_true hhash⟩

theorem reject_clears_iff (contentHash : Text) :
    (∀ rejected, (history.outbox.rejectSessionMinedCandidate contentHash).1 = .ok rejected →
      ∀ row ∈ (history.reject contentHash).outbox.rows,
        Outbox.shows rejected.contentHash row = false) ↔
    (trim contentHash ≠ [] → ∀ row ∈ history.outbox.rows, ∀ other ∈ history.outbox.rows,
      Outbox.shows (trim contentHash) row = true →
      Outbox.shows (trim contentHash) other = true → row.id = other.id) := by
  unfold History.reject Outbox.rejectSessionMinedCandidate
  cases hfind : history.outbox.findSessionMinedRowByContentHash contentHash with
  | none =>
    apply iff_of_true
    · intro rejected hrejected
      contradiction
    · intro htarget row hrow other _ hshows _
      rw [findSessionMinedRow_eq_none hfind htarget row hrow] at hshows
      contradiction
  | some found =>
    obtain ⟨htarget, hmem, hshows⟩ := findSessionMinedRow_eq_some hfind
    obtain ⟨candidate, hcandidate, hhash⟩ := candidate_of_shows hshows
    dsimp only
    rw [hcandidate]
    dsimp only
    constructor
    · intro hcleared _ row hrow other hother hrowShows hotherShows
      have hid : ∀ row ∈ history.outbox.rows,
          Outbox.shows (trim contentHash) row = true → row.id = found.id := by
        intro row hrow hrowShows
        by_contra hne
        have hstays : row ∈ (history.outbox.deleteRow found.id).rows :=
          List.mem_filter.mpr ⟨hrow, decide_eq_true hne⟩
        have hnot := hcleared _ rfl row hstays
        change Outbox.shows candidate.contentHash row = false at hnot
        rw [hhash, hrowShows] at hnot
        contradiction
      rw [hid row hrow hrowShows, hid other hother hotherShows]
    · intro honce rejected hrejected row hrow
      obtain rfl := Except.ok.inj hrejected
      obtain ⟨hrow, hne⟩ := List.mem_filter.mp hrow
      change Outbox.shows candidate.contentHash row = false
      rw [hhash]
      by_contra hrowShows
      rw [Bool.not_eq_false] at hrowShows
      exact of_decide_eq_true hne (honce htarget row hrow found hmem hrowShows hshows)

theorem staysRejected_iff (hknown : Known history.outbox) (action : InboxAction) :
    StaysRejected sha256 history action ↔ Remembers sha256 history action := by
  cases action with
  | enqueue args captureEnabled now =>
    refine forall_congr' fun candidate => forall_congr' fun hnew => forall_congr' fun _ => ?_
    have hstep : history.step sha256 (.enqueue args captureEnabled now) =
        history.enqueue candidate captureEnabled now := by
      unfold History.step
      dsimp only
      rw [hnew]
    rw [hstep]
    exact enqueue_shows_iff sha256 hknown (fresh_of_tryNew sha256 hnew) captureEnabled now
  | reject contentHash => exact reject_clears_iff contentHash
  | elsewhere => exact Iff.rfl
  | triage contentHash status reason reference => exact Iff.rfl
  | deleteByContentHash contentHash => exact Iff.rfl
  | deleteDroppedLowSignal => exact Iff.rfl
  | approve contentHash activated => exact Iff.rfl
  | approveForRule contentHash => exact Iff.rfl

/-- Decisions outlive their rows in exactly the histories where every enqueue of a cleared lesson
still finds a row, and no rejected hash is visible twice. -/
theorem rejections_stick_iff (lessons : Nat → Lesson) (createdAt : Nat → Int) (lastId : Nat)
    (actions : List InboxAction) :
    EachStep (History.step sha256) (StaysRejected sha256) (.initial lessons createdAt lastId)
        actions ↔
      EachStep (History.step sha256) (Remembers sha256) (.initial lessons createdAt lastId)
        actions := by
  have hstep : ∀ (history : History) action, Known history.outbox →
      StaysRejected sha256 history action → Known (history.step sha256 action).outbox := by
    intro history action hknown _
    exact hknown.step sha256 action
  refine EachStep.iff_of_invariant hstep ?_ ?_ actions
  · intro history action hknown
    exact staysRejected_iff sha256 hknown action
  · intro row hrow
    exact absurd hrow List.not_mem_nil

theorem sample_reject (lessons : Nat → Lesson) :
    (sampleHistory lessons [sampleLesson "a" 0] none).step sampleSha256
      (.reject sampleHash) =
        { outbox :=
            { rows := []
              lessons := Function.update lessons 1 (sampleLesson "a" 0)
              createdAt := Function.update (fun _ => 0) 1 0
              lastId := 1 }
          captured := [(1, sampleLesson "a" 0)]
          cleared := [Function.update lessons 1 (sampleLesson "a" 0) 1] } := by
  have hfind : (sampleHistory lessons [sampleLesson "a" 0]
      none).outbox.findSessionMinedRowByContentHash sampleHash = some (sampleRow 1 none) := by
    unfold Outbox.findSessionMinedRowByContentHash sampleHistory
    dsimp only
    rw [sampleHash, trim_computeContentHash, if_neg (computeContentHash_ne_nil sampleSha256 _ _ _)]
    have hvisible : [sampleRow 1 none].filter visible = [sampleRow 1 none] := by decide
    rw [hvisible]
    simp only [List.insertionSort_cons, List.insertionSort_nil, List.orderedInsert_nil]
    apply List.find?_cons_of_pos
    decide
  change (sampleHistory lessons _ none).reject sampleHash = _
  unfold History.reject Outbox.rejectSessionMinedCandidate
  rw [hfind]
  rfl

/-- The lesson of a rejected row is captured again, and stored again. -/
theorem rejected_lesson_returns :
    ¬ EachStep (History.step sampleSha256) (StaysRejected sampleSha256)
      (.initial (fun _ => sampleLesson [] 0) (fun _ => 0) 0)
      [.enqueue (sampleArgs "a" 0) true 0, .reject sampleHash,
        .enqueue (sampleArgs "b" dayMs) true 0] := by
  intro hstays
  have hreturns := hstays.2.2.1
  rw [sample_first, sample_reject] at hreturns
  have hnew : Candidate.tryNew sampleSha256 (sampleArgs "b" dayMs) =
      .ok ⟨sampleLesson "b" dayMs, ⟨sampleHash, none, none⟩⟩ := by decide
  have hknown : Known (⟨[], Function.update (fun _ => sampleLesson [] 0) 1
      (sampleLesson "a" 0), Function.update (fun _ => 0) 1 0, 1⟩ : Outbox) := by
    intro row hrow
    exact absurd hrow List.not_mem_nil
  obtain ⟨row, hrow, _⟩ := (staysRejected_iff sampleSha256 hknown _).mp hreturns _ hnew
    ⟨_, .head _, sampleLesson_matches _ _ _ _⟩ rfl
  exact List.not_mem_nil hrow

end Difflore.SessionMine

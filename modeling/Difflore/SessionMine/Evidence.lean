import Difflore.Foundation.Run
import Difflore.SessionMine.Inbox
import Mathlib.Data.Finset.Card

/-! # Evidence of distinct sessions and days

A stored candidate counts the captures folded into it by session and UTC day, but remembers
only the session and the day of the first. A later pair is told from it, not from each other.
-/

namespace Difflore.SessionMine

open Foundation Text Memory Skills

namespace History

variable (history : History)

/-- The session and day of every capture from the row's repository that went to the row. -/
def counted (id : Nat) : List (Text × Int) := (history.captured.filter fun entry => entry.1 = id &&
    eqIgnoreAsciiCase (history.outbox.lessons id).sourceRepo entry.2.sourceRepo).map
      (·.2.evidence)

end History

/-- Every stored candidate counts the distinct sessions and days of its own captures. -/
def EvidenceCounted (history : History) : Prop :=
  ∀ row ∈ history.outbox.rows, ∀ candidate, row.candidate? = some candidate →
    existingEvidenceCount candidate = (history.counted row.id).toFinset.card

variable (sha256 : Text → Digest)

/-- Only enqueues and inserts of other kinds. A capture that is folded goes to a row whose hash
no other row has; and where the row is of its repository, its session and day are those of the
row itself, or new to the row. -/
def FoldsOnce (history : History) : InboxAction → Prop
  | .enqueue args _ _ => ∀ candidate row, Candidate.tryNew sha256 args = .ok candidate →
      history.outbox.rows.find? (history.outbox.matchesRow candidate.toLesson) = some row →
      (∀ other ∈ history.outbox.rows, other.contentHash? = row.contentHash? → other = row) ∧
        (eqIgnoreAsciiCase (history.outbox.lessons row.id).sourceRepo
            candidate.sourceRepo = true →
          candidate.evidence = (history.outbox.lessons row.id).evidence ∨
            candidate.evidence ∉ history.counted row.id)
  | .elsewhere => True
  | _ => False

structure Stored (outbox : Outbox) (row : SessionMinedRow) : Prop where
  positive : 0 < row.id
  known : row.id ≤ outbox.lastId
  candidate : ∃ candidate, row.payload = .candidate candidate ∧ candidate.localTriage = none ∧
    trim candidate.contentHash = candidate.contentHash ∧ candidate.contentHash ≠ []

structure Counted (history : History) : Prop where
  stored : ∀ row ∈ history.outbox.rows, Stored history.outbox row
  distinct : (history.outbox.rows.map SessionMinedRow.id).Nodup
  captured : ∀ entry ∈ history.captured, entry.1 ≤ history.outbox.lastId
  own : ∀ row ∈ history.outbox.rows,
    (history.outbox.lessons row.id).evidence ∈ history.counted row.id
  counts : EvidenceCounted history

section Capture

variable (history : History) (rowId : Nat) (lesson : Lesson) (outbox : Outbox)

def History.capture : History where
  outbox
  captured := (rowId, lesson) :: history.captured
  cleared := history.cleared

variable {history rowId lesson outbox}

theorem counted_capture_of_ne {id : Nat} (hne : rowId ≠ id)
    (hlessons : outbox.lessons id = history.outbox.lessons id) :
    (history.capture rowId lesson outbox).counted id = history.counted id := by
  unfold History.counted History.capture
  rw [List.filter_cons_of_neg (by simp [hne]), hlessons]

theorem counted_capture_of_foreign {id : Nat}
    (hforeign : eqIgnoreAsciiCase (outbox.lessons id).sourceRepo lesson.sourceRepo = false)
    (hlessons : outbox.lessons id = history.outbox.lessons id) :
    (history.capture rowId lesson outbox).counted id = history.counted id := by
  unfold History.counted History.capture
  rw [List.filter_cons_of_neg (by simp [hforeign]), hlessons]

theorem counted_capture_self
    (hrepo : eqIgnoreAsciiCase (outbox.lessons rowId).sourceRepo lesson.sourceRepo = true)
    (hlessons : outbox.lessons rowId = history.outbox.lessons rowId) :
    (history.capture rowId lesson outbox).counted rowId =
      lesson.evidence :: history.counted rowId := by
  unfold History.counted History.capture
  rw [List.filter_cons_of_pos (by simp [hrepo]), hlessons, List.map_cons]

end Capture

theorem sameEvidenceDay_eq (existing incoming : Lesson) :
    sameEvidenceDay existing incoming = decide (incoming.evidence = existing.evidence) := by
  unfold sameEvidenceDay Lesson.evidence
  rw [Bool.eq_iff_iff, Bool.and_eq_true, decide_eq_true_eq, decide_eq_true_eq,
    decide_eq_true_eq, Prod.mk.injEq]
  exact and_congr eq_comm eq_comm

theorem card_cons_evidence {pair own : Text × Int} {pairs : List (Text × Int)}
    (hown : own ∈ pairs) (honce : pair = own ∨ pair ∉ pairs) :
    (pair :: pairs).toFinset.card =
      if pair = own then pairs.toFinset.card else pairs.toFinset.card + 1 := by
  rw [List.toFinset_cons]
  by_cases hsame : pair = own
  · rw [if_pos hsame, hsame, Finset.insert_eq_of_mem (List.mem_toFinset.mpr hown)]
  · have hnew : pair ∉ pairs.toFinset := by
      rw [List.mem_toFinset]
      exact honce.resolve_left hsame
    rw [if_neg hsame, Finset.card_insert_of_notMem hnew]

section Fold

variable {outbox : Outbox} {row : SessionMinedRow} {stored : SessionMinedCandidate}
  {incoming : Lesson}

theorem foldTarget_of_untriaged (htriage : stored.localTriage = none) :
    foldTarget stored = some stored.contentHash := by
  unfold foldTarget SessionMinedCandidate.dropped SessionMinedCandidate.folded
  rw [htriage]
  rfl

theorem currentSessionEvidenceCount_of_unique (hmem : row ∈ outbox.rows)
    (hpayload : row.payload = .candidate stored)
    (hunique : ∀ other ∈ outbox.rows, other.contentHash? = row.contentHash? → other = row) :
    outbox.currentSessionEvidenceCount stored.contentHash incoming.sourceRepo =
      if eqIgnoreAsciiCase (outbox.lessons row.id).sourceRepo incoming.sourceRepo then
        some (existingEvidenceCount stored) else none := by
  have hcandidate : row.candidate? = some stored := by
    unfold SessionMinedRow.candidate?
    rw [hpayload]
  have honly : ∀ other ∈ outbox.rows.reverse,
      other.candidate?.any (·.contentHash = stored.contentHash) = true → other = row := by
    intro other hother hhash
    apply hunique other (List.mem_reverse.mp hother)
    unfold SessionMinedRow.candidate? at hhash
    unfold SessionMinedRow.contentHash?
    rw [hpayload]
    cases hpayload' : other.payload with
    | candidate candidate => simpa [hpayload'] using hhash
    | unreadable contentHash => simp [hpayload'] at hhash
  unfold Outbox.currentSessionEvidenceCount
  split
  next hrepo =>
    cases hfind : outbox.rows.reverse.find? _ with
    | none =>
      rw [List.find?_eq_none] at hfind
      have hnot := hfind row (List.mem_reverse.mpr hmem)
      simp [hcandidate, hrepo] at hnot
    | some found =>
      have hhash := List.find?_some hfind
      rw [Bool.and_eq_true] at hhash
      rw [honly found (List.mem_of_find?_eq_some hfind) hhash.1]
      simp [hcandidate]
  next hforeign =>
    rw [List.find?_eq_none.mpr]
    · rfl
    intro other hother hhash
    rw [Bool.and_eq_true] at hhash
    rw [honly other hother hhash.1] at hhash
    exact hforeign hhash.2

theorem foldInto_of_foreign (hmem : row ∈ outbox.rows)
    (hpayload : row.payload = .candidate stored) (htriage : stored.localTriage = none)
    (hunique : ∀ other ∈ outbox.rows, other.contentHash? = row.contentHash? → other = row)
    (hforeign : eqIgnoreAsciiCase (outbox.lessons row.id).sourceRepo incoming.sourceRepo =
      false) : outbox.foldInto row incoming = outbox := by
  have htarget : row.candidate?.bind foldTarget = some stored.contentHash := by
    unfold SessionMinedRow.candidate?
    rw [hpayload]
    exact foldTarget_of_untriaged htriage
  unfold Outbox.foldInto
  rw [htarget]
  dsimp only
  rw [currentSessionEvidenceCount_of_unique hmem hpayload hunique, hforeign]
  rfl

theorem foldInto_of_unique (hmem : row ∈ outbox.rows)
    (hpayload : row.payload = .candidate stored) (htriage : stored.localTriage = none)
    (htrim : trim stored.contentHash = stored.contentHash) (hhash : stored.contentHash ≠ [])
    (hunique : ∀ other ∈ outbox.rows, other.contentHash? = row.contentHash? → other = row)
    (hrepo : eqIgnoreAsciiCase (outbox.lessons row.id).sourceRepo incoming.sourceRepo = true) :
    outbox.foldInto row incoming =
      { outbox with
        rows := outbox.rows.map (·.modify (Inbox.withEvidence stored.contentHash
          (if incoming.evidence = (outbox.lessons row.id).evidence then
            existingEvidenceCount stored else existingEvidenceCount stored + 1))) } := by
  have htarget : row.candidate?.bind foldTarget = some stored.contentHash := by
    unfold SessionMinedRow.candidate?
    rw [hpayload]
    exact foldTarget_of_untriaged htriage
  have hpositive : 0 < existingEvidenceCount stored := by
    unfold existingEvidenceCount
    omega
  unfold Outbox.foldInto
  rw [htarget]
  dsimp only
  rw [currentSessionEvidenceCount_of_unique hmem hpayload hunique, hrepo, if_pos rfl]
  dsimp only
  rw [sameEvidenceDay_eq]
  simp only [decide_eq_true_eq]
  unfold Inbox.setCandidateDistinctEvidenceCount
  dsimp only
  rw [htrim, if_neg]
  intro hnone
  rcases hnone with hnil | hzero
  · exact hhash hnil
  · split at hzero <;> omega

end Fold

/-! ## One step -/

section Step

variable {history : History} {candidate : Candidate}

theorem modify_withEvidence_of_ne {row : SessionMinedRow} {hash : Text} {count : Nat}
    (hne : row.contentHash? ≠ some hash) : row.modify (Inbox.withEvidence hash count) = row := by
  unfold SessionMinedRow.modify
  cases hpayload : row.payload with
  | candidate candidate =>
    have hother : candidate.contentHash ≠ hash := by
      intro heq
      apply hne
      simp [SessionMinedRow.contentHash?, hpayload, heq]
    have hsame : Inbox.withEvidence hash count candidate = candidate := by
      simp [Inbox.withEvidence, Inbox.evidenceDiffers, hother]
    cases row
    simp_all
  | unreadable contentHash => rfl

theorem withEvidence_self (stored : SessionMinedCandidate) (count : Nat) :
    Inbox.withEvidence stored.contentHash count stored =
      { stored with localEvidence := some count } := by
  unfold Inbox.withEvidence Inbox.evidenceDiffers
  by_cases hsame : stored.localEvidence = some count
  · simp [← hsame]
  · simp [hsame]

theorem id_modify (row : SessionMinedRow)
    (change : SessionMinedCandidate → SessionMinedCandidate) : (row.modify change).id = row.id := by
  unfold SessionMinedRow.modify
  split <;> rfl

theorem payload_modify {row : SessionMinedRow} {stored : SessionMinedCandidate}
    (hpayload : row.payload = .candidate stored)
    (change : SessionMinedCandidate → SessionMinedCandidate) :
    (row.modify change).payload = .candidate (change stored) := by
  unfold SessionMinedRow.modify
  rw [hpayload]

theorem Counted.disabled (hcounted : Counted history) (lesson : Lesson) :
    Counted (history.capture 0 lesson history.outbox) := by
  have hsame : ∀ row ∈ history.outbox.rows,
      (history.capture 0 lesson history.outbox).counted row.id = history.counted row.id := by
    intro row hrow
    exact counted_capture_of_ne (hcounted.stored row hrow).positive.ne rfl
  refine ⟨hcounted.stored, hcounted.distinct, ?_, ?_, ?_⟩
  · intro entry hentry
    rcases List.mem_cons.mp hentry with rfl | hentry
    · exact Nat.zero_le _
    · exact hcounted.captured entry hentry
  · intro row hrow
    rw [hsame row hrow]
    exact hcounted.own row hrow
  · intro row hrow stored hstored
    rw [hsame row hrow]
    exact hcounted.counts row hrow stored hstored

theorem Counted.foreign (hcounted : Counted history) {row : SessionMinedRow} {lesson : Lesson}
    (hmem : row ∈ history.outbox.rows)
    (hforeign : eqIgnoreAsciiCase (history.outbox.lessons row.id).sourceRepo
      lesson.sourceRepo = false) : Counted (history.capture row.id lesson history.outbox) := by
  have hsame : ∀ id, (history.capture row.id lesson history.outbox).counted id =
      history.counted id := by
    intro id
    by_cases hid : row.id = id
    · subst hid
      exact counted_capture_of_foreign hforeign rfl
    · exact counted_capture_of_ne hid rfl
  refine ⟨hcounted.stored, hcounted.distinct, ?_, ?_, ?_⟩
  · intro entry hentry
    rcases List.mem_cons.mp hentry with rfl | hentry
    · exact (hcounted.stored row hmem).known
    · exact hcounted.captured entry hentry
  · intro other hother
    rw [hsame]
    exact hcounted.own other hother
  · intro other hother stored hstored
    rw [hsame]
    exact hcounted.counts other hother stored hstored

theorem Counted.inserted (hcounted : Counted history) (hfresh : Fresh sha256 candidate)
    (now : Int) : Counted (history.capture (history.outbox.lastId + 1) candidate.toLesson
      (history.outbox.insert candidate now)) := by
  have hold : ∀ id, id ≤ history.outbox.lastId →
      (history.outbox.insert candidate now).lessons id = history.outbox.lessons id := by
    intro id hid
    exact Function.update_of_ne (by omega) _ _
  have hlesson : (history.outbox.insert candidate now).lessons (history.outbox.lastId + 1) =
      candidate.toLesson := Function.update_self ..
  have hsame : ∀ row ∈ history.outbox.rows, (history.capture (history.outbox.lastId + 1)
      candidate.toLesson (history.outbox.insert candidate now)).counted row.id =
        history.counted row.id := by
    intro row hrow
    have hknown := (hcounted.stored row hrow).known
    exact counted_capture_of_ne (by omega) (hold _ hknown)
  -- no earlier capture went to the new row
  have hfirst : (history.capture (history.outbox.lastId + 1) candidate.toLesson
      (history.outbox.insert candidate now)).counted (history.outbox.lastId + 1) =
        [candidate.evidence] := by
    unfold History.counted History.capture
    dsimp only
    rw [hlesson, List.filter_cons_of_pos (by simp [eqIgnoreAsciiCase]), List.filter_eq_nil_iff.mpr]
    · rfl
    intro entry hentry
    have hknown := hcounted.captured entry hentry
    simp only [Bool.and_eq_true, decide_eq_true_eq, not_and]
    intro heq
    omega
  refine ⟨?_, ?_, ?_, ?_, ?_⟩
  · intro row hrow
    rcases List.mem_cons.mp hrow with rfl | hrow
    · refine ⟨Nat.succ_pos _, le_refl _, _, rfl, hfresh.untriaged, ?_, ?_⟩
      · rw [hfresh.hash]
        exact trim_computeContentHash sha256 _ _ _
      · rw [hfresh.hash]
        exact computeContentHash_ne_nil sha256 _ _ _
    · obtain ⟨hpositive, hknown, hcandidate⟩ := hcounted.stored row hrow
      exact ⟨hpositive, Nat.le_succ_of_le hknown, hcandidate⟩
  · refine List.nodup_cons.mpr ⟨?_, hcounted.distinct⟩
    intro hmem
    obtain ⟨row, hrow, hid⟩ := List.mem_map.mp hmem
    have hknown := (hcounted.stored row hrow).known
    dsimp only at hid
    omega
  · intro entry hentry
    rcases List.mem_cons.mp hentry with rfl | hentry
    · exact le_refl _
    · exact Nat.le_succ_of_le (hcounted.captured entry hentry)
  · intro row hrow
    rcases List.mem_cons.mp hrow with rfl | hrow
    · rw [hfirst]
      change ((history.outbox.insert candidate now).lessons _).evidence ∈ _
      rw [hlesson]
      exact List.mem_singleton_self _
    · rw [hsame row hrow]
      change ((history.outbox.insert candidate now).lessons _).evidence ∈ _
      rw [hold _ (hcounted.stored row hrow).known]
      exact hcounted.own row hrow
  · intro row hrow stored hstored
    rcases List.mem_cons.mp hrow with rfl | hrow
    · rw [hfirst]
      obtain rfl := Option.some.inj hstored
      simp [existingEvidenceCount, hfresh.uncounted]
    · rw [hsame row hrow]
      exact hcounted.counts row hrow stored hstored

theorem Counted.folded (hcounted : Counted history) {row : SessionMinedRow} {lesson : Lesson}
    (hmem : row ∈ history.outbox.rows)
    (hrepo : eqIgnoreAsciiCase (history.outbox.lessons row.id).sourceRepo
      lesson.sourceRepo = true)
    (hunique : ∀ other ∈ history.outbox.rows, other.contentHash? = row.contentHash? → other = row)
    (honce : lesson.evidence = (history.outbox.lessons row.id).evidence ∨
      lesson.evidence ∉ history.counted row.id) :
    Counted (history.capture row.id lesson (history.outbox.foldInto row lesson)) := by
  obtain ⟨stored, hpayload, htriage, htrim, hhash⟩ := (hcounted.stored row hmem).candidate
  have hcandidate : row.candidate? = some stored := by
    unfold SessionMinedRow.candidate?
    rw [hpayload]
  rw [foldInto_of_unique hmem hpayload htriage htrim hhash hunique hrepo]
  have hother : ∀ other ∈ history.outbox.rows, other ≠ row → ∀ count,
      other.modify (Inbox.withEvidence stored.contentHash count) = other := by
    intro other hother hne count
    apply modify_withEvidence_of_ne
    intro heq
    apply hne
    apply hunique other hother
    rw [heq, SessionMinedRow.contentHash?, hpayload]
  have hself : (history.capture row.id lesson history.outbox).counted row.id =
      lesson.evidence :: history.counted row.id := counted_capture_self hrepo rfl
  have hsame : ∀ other ∈ history.outbox.rows, other ≠ row →
      (history.capture row.id lesson history.outbox).counted other.id =
        history.counted other.id := by
    intro other hother hne
    apply counted_capture_of_ne _ rfl
    intro hid
    exact hne (List.inj_on_of_nodup_map hcounted.distinct hother hmem hid.symm)
  refine ⟨?_, ?_, ?_, ?_, ?_⟩
  · intro changed hchanged
    obtain ⟨other, hother', rfl⟩ := List.mem_map.mp hchanged
    obtain ⟨hpositive, hknown, candidate, hcand, hnone, htrim', hhash'⟩ :=
      hcounted.stored other hother'
    refine ⟨by rwa [id_modify], by rwa [id_modify], ?_⟩
    by_cases hrow : other = row
    · subst hrow
      refine ⟨_, payload_modify hpayload _, ?_⟩
      rw [withEvidence_self]
      exact ⟨htriage, htrim, hhash⟩
    · rw [hother other hother' hrow]
      exact ⟨candidate, hcand, hnone, htrim', hhash'⟩
  · change (List.map _ (List.map _ _)).Nodup
    rw [List.map_map]
    have hids : (SessionMinedRow.id ∘ fun r : SessionMinedRow =>
        r.modify (Inbox.withEvidence stored.contentHash
          (if lesson.evidence = (history.outbox.lessons row.id).evidence then
            existingEvidenceCount stored else existingEvidenceCount stored + 1))) =
        SessionMinedRow.id := by
      funext r
      exact id_modify r _
    rw [hids]
    exact hcounted.distinct
  · intro entry hentry
    rcases List.mem_cons.mp hentry with rfl | hentry
    · exact (hcounted.stored row hmem).known
    · exact hcounted.captured entry hentry
  · intro changed hchanged
    obtain ⟨other, hother', rfl⟩ := List.mem_map.mp hchanged
    rw [id_modify]
    change (history.outbox.lessons other.id).evidence ∈
      (history.capture row.id lesson history.outbox).counted other.id
    by_cases hrow : other = row
    · subst hrow
      rw [hself]
      exact .tail _ (hcounted.own other hmem)
    · rw [hsame other hother' hrow]
      exact hcounted.own other hother'
  · intro changed hchanged candidate hcand
    obtain ⟨other, hother', rfl⟩ := List.mem_map.mp hchanged
    rw [id_modify]
    change _ = ((history.capture row.id lesson history.outbox).counted other.id).toFinset.card
    by_cases hrow : other = row
    · subst hrow
      rw [SessionMinedRow.candidate?_modify, hcandidate, Option.map_some,
        withEvidence_self] at hcand
      obtain rfl := Option.some.inj hcand
      rw [hself, card_cons_evidence (hcounted.own other hmem) honce,
        ← hcounted.counts other hmem stored hcandidate]
      unfold existingEvidenceCount
      dsimp only
      split <;> simp
    · rw [hother other hother' hrow] at hcand
      rw [hsame other hother' hrow]
      exact hcounted.counts other hother' candidate hcand

end Step

theorem Counted.step {history : History} {action : InboxAction} (hcounted : Counted history)
    (honce : FoldsOnce sha256 history action) : Counted (history.step sha256 action) := by
  cases action with
  | enqueue args captureEnabled now =>
    unfold History.step
    dsimp only
    cases hnew : Candidate.tryNew sha256 args with
    | error e => exact hcounted
    | ok candidate =>
      have hfresh := fresh_of_tryNew sha256 hnew
      dsimp only
      unfold History.enqueue
      cases hfind : history.outbox.rows.find?
          (history.outbox.matchesRow candidate.toLesson) with
      | none =>
        rw [Outbox.enqueueCandidate_of_find_none captureEnabled now hfresh.valid hfind]
        cases captureEnabled with
        | true => exact hcounted.inserted sha256 hfresh now
        | false => exact hcounted.disabled candidate.toLesson
      | some row =>
        rw [Outbox.enqueueCandidate_of_find captureEnabled now hfresh.valid hfind]
        obtain ⟨hunique, hpair⟩ := honce candidate row hnew hfind
        have hmem := List.mem_of_find?_eq_some hfind
        cases hrepo : eqIgnoreAsciiCase (history.outbox.lessons row.id).sourceRepo
            candidate.sourceRepo with
        | true => exact hcounted.folded hmem hrepo hunique (hpair hrepo)
        | false =>
          obtain ⟨stored, hpayload, htriage, _⟩ := (hcounted.stored row hmem).candidate
          dsimp only
          rw [foldInto_of_foreign hmem hpayload htriage hunique hrepo]
          exact hcounted.foreign hmem hrepo
  | elsewhere =>
    refine ⟨?_, hcounted.distinct, ?_, hcounted.own, hcounted.counts⟩
    · intro row hrow
      obtain ⟨hpositive, hknown, hcandidate⟩ := hcounted.stored row hrow
      exact ⟨hpositive, Nat.le_succ_of_le hknown, hcandidate⟩
    · intro entry hentry
      exact Nat.le_succ_of_le (hcounted.captured entry hentry)
  | reject contentHash => exact honce.elim
  | triage contentHash status reason reference => exact honce.elim
  | deleteByContentHash contentHash => exact honce.elim
  | deleteDroppedLowSignal => exact honce.elim
  | approve contentHash activated => exact honce.elim
  | approveForRule contentHash => exact honce.elim

theorem counted_initial (lessons : Nat → Lesson) (createdAt : Nat → Int) (lastId : Nat) :
    Counted (.initial lessons createdAt lastId) := by
  refine ⟨?_, List.nodup_nil, ?_, ?_, ?_⟩ <;> intro row hrow <;>
    exact absurd hrow List.not_mem_nil

/-- In every state of a run whose captures are folded once, each stored candidate counts the
distinct sessions and days of its captures. -/
theorem evidence_counted_of_run {lessons : Nat → Lesson} {createdAt : Nat → Int} {lastId : Nat}
    {actions : List InboxAction} {final : History}
    (hrun : Run (fun history action => some (history.step sha256 action)) (FoldsOnce sha256)
      (.initial lessons createdAt lastId) actions final) : EvidenceCounted final := by
  have hcounted : Counted final := by
    refine hrun.invariant ?_ (counted_initial lessons createdAt lastId)
    intro history action next hcounted honce htaken
    obtain rfl := Option.some.inj htaken
    exact hcounted.step sha256 honce
  exact hcounted.counts

/-! ## One lesson captured again -/

def sampleSha256 : Text → Digest := fun _ i =>
  [125, 96, 73, 13, 39, 188, 79, 161, 127, 98, 115, 48, 172, 74, 86, 117, 111, 133, 153, 26,
  149, 26, 60, 94, 108, 11, 9, 175, 3, 23, 197, 129].getD i.val 0

def sampleArgs (sessionId : Text) (tsMs : Int) : SessionMinedCandidateArgs where
  sessionId
  tsMs
  sourceRepo := ⟨"acme/app"⟩
  title := "Decode rows into structs"
  body := "Decode every row into a typed struct."
  filePatterns := ["src/**/*.rs"]
  gateModel := "claude:haiku"
  gateVerdict := "KEEP"

def sampleLesson (sessionId : Text) (tsMs : Int) : Lesson where
  sessionId
  tsMs
  sourceRepo := "acme/app"
  title := "Decode rows into structs"
  body := "Decode every row into a typed struct."
  filePatterns := ["src/**/*.rs"]
  gateModel := "claude:haiku"
  gateVerdict := "KEEP"
  origin := originName
  requiresHumanApproval := true

def sampleHash : Text := computeContentHash sampleSha256 "acme/app" "Decode rows into structs"
    "Decode every row into a typed struct."

def sampleRow (id : Nat) (count : Option Nat) : SessionMinedRow :=
  ⟨id, .candidate ⟨sampleHash, none, count⟩, false⟩

theorem sampleLesson_matches (first second : Text) (firstTs secondTs : Int) :
    sessionMinedCandidatesSemanticallyMatch (sampleLesson first firstTs)
      (sampleLesson second secondTs) = true := by
  have hwords : tokenizeKnowledgeText "Decode every row into a typed struct." ≠ [] := by
    decide
  exact matches_of_same_text rfl rfl hwords

/-- The lesson of a first session is stored, and captures of it went to its row. -/
def sampleHistory (lessons : Nat → Lesson) (captured : List Lesson) (count : Option Nat) :
    History where
  outbox :=
    { rows := [sampleRow 1 count]
      lessons := Function.update lessons 1 (sampleLesson "a" 0)
      createdAt := Function.update (fun _ => 0) 1 0
      lastId := 1 }
  captured := captured.map (1, ·)
  cleared := []

section Sample

variable (lessons : Nat → Lesson) (captured : List Lesson) (count : Option Nat)

theorem sample_find (second : Lesson) (hsecond : ∃ sessionId tsMs,
    second = sampleLesson sessionId tsMs) :
    (sampleHistory lessons captured count).outbox.rows.find?
      ((sampleHistory lessons captured count).outbox.matchesRow second) =
        some (sampleRow 1 count) := by
  obtain ⟨sessionId, tsMs, rfl⟩ := hsecond
  apply List.find?_cons_of_pos
  change (true && sessionMinedCandidatesSemanticallyMatch
    (Function.update lessons 1 (sampleLesson "a" 0) 1) _) = true
  rw [Function.update_self]
  exact sampleLesson_matches _ _ _ _

theorem sample_capture : (sampleHistory lessons captured count).step sampleSha256
      (.enqueue (sampleArgs "b" dayMs) true 0) =
        sampleHistory lessons (sampleLesson "b" dayMs :: captured)
          (some (max (count.getD 1) 1 + 1)) := by
  have hfind := sample_find lessons captured count (sampleLesson "b" dayMs) ⟨_, _, rfl⟩
  have hself : Function.update lessons 1 (sampleLesson "a" 0) 1 =
      sampleLesson "a" 0 := Function.update_self ..
  have hnew : Candidate.tryNew sampleSha256 (sampleArgs "b" dayMs) =
      .ok ⟨sampleLesson "b" dayMs, ⟨sampleHash, none, none⟩⟩ := by decide
  unfold History.step
  dsimp only
  rw [hnew]
  dsimp only
  unfold History.enqueue
  rw [Outbox.enqueueCandidate_of_find true 0 (fresh_of_tryNew sampleSha256 hnew).valid hfind]
  dsimp only
  rw [foldInto_of_unique (.head _) rfl rfl
    (trim_computeContentHash sampleSha256 _ _ _) (computeContentHash_ne_nil sampleSha256 _ _ _)]
  · have hpair : (sampleLesson "b" dayMs).evidence ≠ (Function.update lessons 1 (sampleLesson "a" 0)
        (sampleRow 1 count).id).evidence := by
      change _ ≠ (Function.update lessons 1 (sampleLesson "a" 0) 1).evidence
      rw [hself]
      decide
    have hwritten : (sampleRow 1 count).modify (Inbox.withEvidence sampleHash
        (max (count.getD 1) 1 + 1)) = sampleRow 1 (some (max (count.getD 1) 1 + 1)) := by
      unfold SessionMinedRow.modify sampleRow
      dsimp only
      rw [show sampleHash =
        (⟨sampleHash, none, count⟩ : SessionMinedCandidate).contentHash from rfl,
        withEvidence_self]
    unfold sampleHistory
    dsimp only
    rw [if_neg hpair]
    change History.mk (Outbox.mk [(sampleRow 1 count).modify
      (Inbox.withEvidence sampleHash (max (count.getD 1) 1 + 1))] _ _ _) _ _ = _
    rw [hwritten]
    rfl
  · intro other hother _
    exact List.mem_singleton.mp hother
  · change eqIgnoreAsciiCase
      (Function.update lessons 1 (sampleLesson "a" 0) 1).sourceRepo _ = true
    rw [hself]
    decide

end Sample

theorem sample_first (lessons : Nat → Lesson) :
    (History.initial lessons (fun _ => 0) 0).step sampleSha256
      (.enqueue (sampleArgs "a" 0) true 0) = sampleHistory lessons [sampleLesson "a" 0] none := by
  have hnew : Candidate.tryNew sampleSha256 (sampleArgs "a" 0) =
      .ok ⟨sampleLesson "a" 0, ⟨sampleHash, none, none⟩⟩ := by decide
  unfold History.step
  dsimp only
  rw [hnew]
  dsimp only
  unfold History.enqueue
  rw [Outbox.enqueueCandidate_of_find_none true 0 (fresh_of_tryNew sampleSha256 hnew).valid rfl]
  rfl

/-- Two sessions count for two. -/
theorem two_sessions_counted : EvidenceCounted (sampleHistory (fun _ => sampleLesson [] 0)
      [sampleLesson "b" dayMs, sampleLesson "a" 0] (some 2)) := by
  refine evidence_counted_of_run sampleSha256 (.cons ?_ (congrArg some (sample_first _))
    (.cons ?_ (congrArg some (sample_capture _ _ none)) (.nil _)))
  · intro candidate row hnew hfind
    exact absurd hfind (by simp [History.initial])
  · intro candidate row hnew hfind
    have hrow := List.mem_singleton.mp (List.mem_of_find?_eq_some hfind)
    subst hrow
    refine ⟨fun other hother _ => List.mem_singleton.mp hother, fun _ => .inr ?_⟩
    have hcandidate : candidate = ⟨sampleLesson "b" dayMs, ⟨sampleHash, none, none⟩⟩ := by
      exact (Except.ok.inj (hnew.symm.trans (by decide)))
    subst hcandidate
    decide

/-- The second session captures the lesson once more on the same day, and counts for a third. -/
theorem repeated_session_counts_again : ∃ final,
    Run (fun history action => some (history.step sampleSha256 action)) (fun _ _ => True)
      (.initial (fun _ => sampleLesson [] 0) (fun _ => 0) 0)
      [.enqueue (sampleArgs "a" 0) true 0, .enqueue (sampleArgs "b" dayMs) true 0,
        .enqueue (sampleArgs "b" dayMs) true 0] final ∧ ¬ EvidenceCounted final := by
  refine ⟨_, .cons trivial (congrArg some (sample_first _))
    (.cons trivial (congrArg some (sample_capture _ _ _))
      (.cons trivial (congrArg some (sample_capture _ _ _)) (.nil _))), ?_⟩
  intro hcounted
  have hrow := hcounted _ (.head _) _ rfl
  revert hrow
  decide

end Difflore.SessionMine

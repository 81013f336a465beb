import Difflore.Memory.Triage

/-! # Folded candidates and the ones they are folded into

A fold is safe if its target leads to a live candidate other than the one that
is folded; a delete is safe if no candidate that stays needs the one that goes.
The triage pass checks less: that the target has a row, whatever its triage.
-/

namespace Difflore.Memory

open Foundation Text Relation

namespace Inbox

variable {rows : Inbox}

theorem candidates_modify (change : SessionMinedCandidate → SessionMinedCandidate) :
    candidates (rows.map (·.modify change)) = (candidates rows).map change := by
  unfold candidates
  rw [List.filterMap_map, List.map_filterMap]
  apply List.filterMap_congr
  intro row _
  exact row.candidate?_modify change

section Fold

variable {target : Text} {triage : SessionMinedLocalTriage}

theorem folded_triaged (hstatus : triage.status = .supersededBy)
    (candidate : SessionMinedCandidate) :
    (triaged target triage candidate).folded =
      (candidate.folded || triageable target candidate) := by
  unfold triaged
  split
  next htaken => simp [htaken, SessionMinedCandidate.folded, hstatus]
  next hleft => simp [hleft]

theorem untriaged_triaged (hstatus : triage.status = .supersededBy)
    (candidate : SessionMinedCandidate) :
    (triaged target triage candidate).untriaged =
      (candidate.untriaged && candidate.contentHash ≠ target) := by
  unfold triaged triageable
  split
  next htaken => simp_all [SessionMinedCandidate.untriaged]
  next hleft =>
    cases huntriaged : candidate.untriaged with
    | false => rfl
    | true => simp_all

theorem contentHash_triaged (candidate : SessionMinedCandidate) :
    (triaged target triage candidate).contentHash = candidate.contentHash := by
  unfold triaged
  split <;> rfl

theorem reference_triaged (candidate : SessionMinedCandidate) :
    (triaged target triage candidate).reference =
      if triageable target candidate then triage.reference else candidate.reference := by
  unfold triaged
  split <;> rfl

theorem refers_triaged (hstatus : triage.status = .supersededBy) (source goal : Option Text) :
    Refers (rows.map (·.modify (triaged target triage))) source goal ↔ Refers rows source goal ∨
        (Live rows (some target) ∧ source = some target ∧ goal = triage.reference) := by
  unfold Refers Live
  rw [candidates_modify]
  simp only [List.mem_map, exists_exists_and_eq_and, folded_triaged hstatus, contentHash_triaged,
    reference_triaged]
  constructor
  · rintro ⟨candidate, hmem, hfolded, hsource, hgoal⟩
    cases htaken : triageable target candidate with
    | false =>
      simp only [htaken, Bool.or_false, Bool.false_eq_true, if_false] at hfolded hgoal
      exact .inl ⟨candidate, hmem, hfolded, hsource, hgoal⟩
    | true =>
      simp only [htaken, if_true] at hgoal
      simp only [triageable, Bool.and_eq_true, decide_eq_true_eq] at htaken
      obtain ⟨rfl, huntriaged⟩ := htaken
      exact .inr ⟨⟨candidate, hmem, huntriaged, rfl⟩, hsource, hgoal⟩
  · rintro (⟨candidate, hmem, hfolded, hsource, hgoal⟩ |
      ⟨⟨candidate, hmem, huntriaged, heq⟩, hsource, hgoal⟩)
    · have hleft : triageable target candidate = false := by
        have := mt (candidate.not_folded_of_untriaged) (by simp [hfolded])
        simp_all [triageable]
      exact ⟨candidate, hmem, by simp [hfolded], hsource, by simp [hleft, hgoal]⟩
    · obtain rfl := Option.some.inj heq
      have htaken : triageable candidate.contentHash candidate = true := by
        simp [triageable, huntriaged]
      exact ⟨candidate, hmem, by simp [htaken], hsource, by simp [htaken, hgoal]⟩

theorem live_triaged (hstatus : triage.status = .supersededBy) (hash : Option Text) :
    Live (rows.map (·.modify (triaged target triage))) hash ↔
      Live rows hash ∧ hash ≠ some target := by
  unfold Live
  rw [candidates_modify]
  simp only [List.mem_map, exists_exists_and_eq_and, untriaged_triaged hstatus, contentHash_triaged]
  constructor
  · rintro ⟨candidate, hmem, huntriaged, rfl⟩
    simp only [Bool.and_eq_true, decide_eq_true_eq] at huntriaged
    exact ⟨⟨candidate, hmem, huntriaged.1, rfl⟩, by simpa using huntriaged.2⟩
  · rintro ⟨⟨candidate, hmem, huntriaged, rfl⟩, hne⟩
    exact ⟨candidate, hmem, by simpa [huntriaged] using hne, rfl⟩

end Fold

section Evidence

variable {target : Text} {count : Nat}

theorem refers_withEvidence (source goal : Option Text) :
    Refers (rows.map (·.modify (withEvidence target count))) source goal ↔
      Refers rows source goal := by
  have hkeeps : ∀ candidate, (withEvidence target count candidate).folded = candidate.folded ∧
      (withEvidence target count candidate).contentHash = candidate.contentHash ∧
      (withEvidence target count candidate).reference = candidate.reference := by
    intro candidate
    unfold withEvidence
    split <;> exact ⟨rfl, rfl, rfl⟩
  unfold Refers
  rw [candidates_modify]
  simp [hkeeps]

theorem live_withEvidence (hash : Option Text) :
    Live (rows.map (·.modify (withEvidence target count))) hash ↔ Live rows hash := by
  have hkeeps : ∀ candidate, (withEvidence target count candidate).untriaged = candidate.untriaged ∧
      (withEvidence target count candidate).contentHash = candidate.contentHash := by
    intro candidate
    unfold withEvidence
    split <;> exact ⟨rfl, rfl⟩
  unfold Live
  rw [candidates_modify]
  simp [hkeeps]

end Evidence

section Delete

variable {p : SessionMinedCandidate → Bool}

theorem mem_candidates_of_stays {candidate : SessionMinedCandidate}
    (hmem : candidate ∈ candidates (rows.filter (stays p))) : candidate ∈ candidates rows := by
  obtain ⟨row, hrow, hcandidate⟩ := List.mem_filterMap.mp hmem
  exact List.mem_filterMap.mpr ⟨row, List.mem_of_mem_filter hrow, hcandidate⟩

theorem mem_candidates_stays {candidate : SessionMinedCandidate}
    (hmem : candidate ∈ candidates rows) (hp : p candidate = false) :
    candidate ∈ candidates (rows.filter (stays p)) := by
  obtain ⟨row, hrow, hcandidate⟩ := List.mem_filterMap.mp hmem
  have hstays : stays p row = true := by simp [stays, hcandidate, hp]
  exact List.mem_filterMap.mpr ⟨row, List.mem_filter.mpr ⟨hrow, hstays⟩, hcandidate⟩

theorem refers_of_stays {source goal : Option Text}
    (hrefers : Refers (rows.filter (stays p)) source goal) : Refers rows source goal := by
  obtain ⟨candidate, hmem, hrest⟩ := hrefers
  exact ⟨candidate, mem_candidates_of_stays hmem, hrest⟩

theorem noneStranded_delete_iff {target : Text} (hstranded : NoneStranded rows) :
    NoneStranded (rows.filter (stays (·.contentHash = target))) ↔
      ((∃ source, Refers (rows.filter (stays (·.contentHash = target))) source (some target)) →
        Anchored (Refers (rows.filter (stays (·.contentHash = target))))
          (Live (rows.filter (stays (·.contentHash = target)))) (some target)) := by
  apply grounded_remove_iff hstranded
  · exact fun source goal => refers_of_stays
  · rintro source goal hne ⟨candidate, hmem, hfolded, rfl, hgoal⟩
    have hother : decide (candidate.contentHash = target) = false := by simpa using hne
    exact ⟨candidate, mem_candidates_stays hmem hother, hfolded, rfl, hgoal⟩
  · rintro hash hne ⟨candidate, hmem, huntriaged, rfl⟩
    have hother : decide (candidate.contentHash = target) = false := by simpa using hne
    exact ⟨candidate, mem_candidates_stays hmem hother, huntriaged, rfl⟩

theorem noneStranded_purge (hstranded : NoneStranded rows) :
    NoneStranded (rows.filter (stays (·.dropped))) := by
  apply hstranded.congr
  · intro source goal
    constructor
    · exact refers_of_stays
    · rintro ⟨candidate, hmem, hfolded, hrest⟩
      have hkept : candidate.dropped = false := by
        have := mt candidate.not_folded_of_dropped (by simp [hfolded])
        simpa using this
      exact ⟨candidate, mem_candidates_stays hmem hkept, hfolded, hrest⟩
  · intro hash
    constructor
    · rintro ⟨candidate, hmem, hrest⟩
      exact ⟨candidate, mem_candidates_of_stays hmem, hrest⟩
    · rintro ⟨candidate, hmem, huntriaged, hhash⟩
      have hkept : candidate.dropped = false := by
        have := mt candidate.not_folded_of_dropped (by simp [huntriaged])
        simpa using this
      exact ⟨candidate, mem_candidates_stays hmem hkept, huntriaged, hhash⟩

end Delete

/-- The fold reaches a candidate: hash and target are not blank, they differ,
and an untriaged candidate has the hash. -/
def FoldTakes (rows : Inbox) (contentHash target : Text) : Prop :=
  trim contentHash ≠ [] ∧ trim target ≠ [] ∧
    trim target ≠ trim contentHash ∧ Live rows (some (trim contentHash))

/-- When a statement is safe. A fold: its target leads to a live candidate other
than the folded one. A delete by hash: the hash still leads to a live candidate
among the rows that stay, or no candidate that stays refers to it. -/
def Spares (rows : Inbox) : InboxQuery → Prop
  | .fold contentHash _ target =>
    FoldTakes rows contentHash target →
      ∃ last, ReflTransGen (Refers rows) (some (trim target)) last ∧ Live rows last ∧
        last ≠ some (trim contentHash)
  | .deleteByContentHash contentHash =>
    let left := rows.filter (stays (·.contentHash = trim contentHash))
    trim contentHash ≠ [] → (∃ source, Refers left source (some (trim contentHash))) →
      Anchored (Refers left) (Live left) (some (trim contentHash))
  | .deleteDroppedLowSignal => True
  | .setDistinctEvidenceCount _ _ => True
  | .liveExists _ => True

theorem reason_text_ne_nil (reason : FoldReason) : trim reason.text ≠ [] := by
  cases reason <;> decide

theorem serve_fold (contentHash : Text) (reason : FoldReason) (target : Text) :
    (rows.serve (.fold contentHash reason target)).2 = if trim contentHash ≠ [] ∧ trim target ≠ [] ∧
          trim target ≠ trim contentHash then
        rows.map (·.modify (triaged (trim contentHash)
          ⟨.supersededBy, trim reason.text, some (trim target)⟩))
      else rows := by
  have hreason := reason_text_ne_nil reason
  unfold serve setCandidateTriage
  by_cases hblank : trim contentHash = []
  · simp [hblank]
  · by_cases hself : trim target = trim contentHash
    · simp [hblank, hself]
    · by_cases htarget : trim target = []
      · have hother : ([] : Text) ≠ trim contentHash := fun h => hblank h.symm
        simp [hblank, htarget, hother, sessionMinedLocalTriageJson, hreason]
      · simp [hblank, hself, htarget, sessionMinedLocalTriageJson, hreason, Option.filter]

theorem noneStranded_fold_iff (hstranded : NoneStranded rows) (contentHash : Text)
    (reason : FoldReason) (target : Text) :
    NoneStranded (rows.serve (.fold contentHash reason target)).2 ↔
      Spares rows (.fold contentHash reason target) := by
  rw [serve_fold]
  unfold Spares FoldTakes
  dsimp only
  by_cases hlive : Live rows (some (trim contentHash))
  · split
    next hguard =>
      rw [forall_prop_of_true ⟨hguard.1, hguard.2.1, hguard.2.2, hlive⟩]
      apply grounded_redirect_iff hstranded
      · intro source goal
        rw [refers_triaged rfl]
        simp [hlive]
      · exact live_triaged rfl
    next hguard =>
      exact ⟨fun _ htakes => absurd ⟨htakes.1, htakes.2.1, htakes.2.2.1⟩ hguard, fun _ => hstranded⟩
  · refine iff_of_true ?_ fun htakes => absurd htakes.2.2.2 hlive
    split
    next =>
      apply hstranded.congr
      · intro source goal
        rw [refers_triaged rfl]
        simp [hlive]
      · intro hash
        rw [live_triaged rfl]
        exact and_iff_left_of_imp fun hhash heq => hlive (heq ▸ hhash)
    next => exact hstranded

theorem noneStranded_serve_iff (query : InboxQuery) (hstranded : NoneStranded rows) :
    NoneStranded (rows.serve query).2 ↔ Spares rows query := by
  cases query with
  | deleteDroppedLowSignal => exact iff_of_true (noneStranded_purge hstranded) trivial
  | deleteByContentHash contentHash =>
    unfold serve deleteSessionMinedCandidatesByContentHash Spares
    dsimp only
    split
    next hblank => exact iff_of_true hstranded fun hhash => absurd hblank hhash
    next hhash =>
      rw [forall_prop_of_true hhash]
      exact noneStranded_delete_iff hstranded
  | fold contentHash reason target => exact noneStranded_fold_iff hstranded _ _ _
  | setDistinctEvidenceCount contentHash count =>
    refine iff_of_true ?_ trivial
    unfold serve setCandidateDistinctEvidenceCount
    dsimp only
    split
    next => exact hstranded
    next => exact hstranded.congr refers_withEvidence live_withEvidence
  | liveExists contentHash => exact iff_of_true hstranded trivial

theorem noneStranded_of_unfolded (hunfolded : ∀ candidate ∈ candidates rows,
    candidate.folded = false) : NoneStranded rows := by
  rintro source goal ⟨candidate, hmem, hfolded, _⟩
  rw [hunfolded candidate hmem] at hfolded
  contradiction

theorem stranded_of_none_live {source goal : Option Text} (hrefers : Refers rows source goal)
    (hnone : ∀ candidate ∈ candidates rows, candidate.untriaged = false) :
    ¬ NoneStranded rows := by
  intro hstranded
  obtain ⟨_, _, candidate, hmem, huntriaged, _⟩ := hstranded source goal hrefers
  rw [hnone candidate hmem] at huntriaged
  contradiction

end Inbox

/-- Every fold has a survivor in all states of a triage pass, the last one
included, if and only if that held before it and every statement the pass
issues is safe in the state it runs in. -/
theorem triage_noneStranded_iff (groups : List PlannedGroup) (activeRules : List ActiveMemory)
    (rawDecisions : List RawAiSessionCleanupDecision) (rows : Inbox) :
    (applyCandidateTriage groups activeRules rawDecisions).run.Throughout Inbox.serve
        Inbox.NoneStranded rows ↔
      rows.NoneStranded ∧ (applyCandidateTriage groups activeRules rawDecisions).run.Meets
        Inbox.serve Inbox.Spares rows :=
  Program.throughout_iff_meets (fun _ query => Inbox.noneStranded_serve_iff query) _ _

section Example

def minedRow (id : Nat) (contentHash : Text) : SessionMinedRow where
  id := id
  payload := .candidate ⟨contentHash, none, none⟩
  locallyApproved := false

def minedGroup (groupId contentHash : Text) : PlannedGroup where
  digest :=
    { groupId := groupId
      state := .needsReview
      sourceRepo := some "acme/app"
      filePatterns := ["src/*.rs"] }
  candidates := [{
       itemId := "session:" ++ contentHash
       kind := .session contentHash
       body := "Prefer the shared client."
       sessionId := none
       sessionCreatedAtMs := some 1714000000000
       distinctEvidenceCount := none }]

def foldDecision (groupId targetGroupId : Text) : RawAiSessionCleanupDecision where
  groupId := groupId
  action := "fold_into"
  confidence := some (7 / 8)
  targetGroupId := some targetGroupId
  activeRuleId := none

/-- Two groups folded into each other: both candidates are hidden. -/
theorem mutual_folds_strand : Inbox.NoneStranded [minedRow 1 "a1", minedRow 2 "b2"] ∧
      ¬ Inbox.NoneStranded
        (runCandidateTriage
          [minedGroup "A" "a1", minedGroup "B" "b2"] []
          [foldDecision "A" "B", foldDecision "B" "A"]
          [minedRow 1 "a1", minedRow 2 "b2"]).2 := by
  constructor
  · exact Inbox.noneStranded_of_unfolded (by decide)
  · have hrefers : Inbox.Refers
        (runCandidateTriage
          [minedGroup "A" "a1", minedGroup "B" "b2"] []
          [foldDecision "A" "B", foldDecision "B" "A"]
          [minedRow 1 "a1", minedRow 2 "b2"]).2
        (some "a1") (some "b2") := by
      unfold Inbox.Refers
      decide +kernel
    exact Inbox.stranded_of_none_live hrefers (by decide +kernel)

end Example

end Difflore.Memory

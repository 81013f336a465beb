import Difflore.Skills.TrustTiers

/-! # Rejected drafts

A review import stores a draft for each candidate. Rejecting a draft deletes it and leaves a
tombstone with the hash of its content, which later imports honour. A candidate that was
dropped in favour of a draft with the same statement has a content of its own, and no
tombstone covers it.
-/

namespace Difflore.Skills

open Foundation Text Infra Context

variable (library : RememberLibrary)

def activeDraftError (id : Text) : Text :=
  "rule '" ++ (id ++ "' is already an active rule, not a pending rule draft.")

def unknownDraftError (id : Text) : Text := "rule draft '" ++ (id ++
    "' not found. Run `difflore status` for the next action.")

def tombstone (row : SkillRow) : Option Text := (row.contentHash.map trim).filter (· ≠ [])

/-- `reject_candidate`: a tombstone, and the row is deleted. -/
def rejectDraft (id : Text) (store : RuleStore) : Except Text RuleStore :=
  match store.skills.find id with
  | some row =>
    if row.status = .pending then
      .ok { store with
        skills := rejectCandidate id store.skills
        rejected := (tombstone row).elim store.rejected fun hash =>
          if hash ∈ store.rejected then store.rejected else store.rejected ++ [hash] }
    else if row.status = .active then .error (activeDraftError id)
    else .error (unknownDraftError id)
  | none => .error (unknownDraftError id)

def tryReject (store : RuleStore) (id : Text) : RuleStore :=
  (rejectDraft id store).toOption.getD store

def rejectDrafts (ids : List Text) (store : RuleStore) : RuleStore := ids.foldl tryReject store

def isRejectedSignature (input : RememberRuleInput) (store : RuleStore) : Bool :=
  rememberSignatureHash library input ∈ store.rejected

structure LocalCandidate where
  input : RememberRuleInput
  confidence : Rat
  sourceKind : Text

def normalizeCandidateSignaturePart (value : Text) : Text :=
  [' '].intercalate (splitWhitespace value)

/-- Candidates with one title, statement and patterns count as one in a run. -/
def localCandidateDedupeSignature (input : RememberRuleInput) : Text :=
  normalizeCandidateSignaturePart input.title ++ ('\n' ::
    (normalizeCandidateSignaturePart (semanticRuleContent input.body) ++ ('\n' ::
      ((input.filePatterns.map fun patterns => [Char.ofNat 0].intercalate patterns).getD []))))

structure LocalCandidateProgress where
  created : Nat := 0
  pending : Nat := 0
  duplicateInRun : Nat := 0
  deduped : Nat := 0
  matchedActive : Nat := 0
  suppressedRejected : Nat := 0
  budget : Nat
  capped : Bool := false

structure ImportRun where
  store : RuleStore
  seen : List Text
  progress : LocalCandidateProgress
  /-- The message the run ended with before its time. -/
  failure : Option Text

def storeFailure (err : Text) : Text := "failed to create local rules: " ++ err

def LocalCandidateProgress.count (progress : LocalCandidateProgress) (outcome : RememberOutcome) :
    LocalCandidateProgress :=
  if outcome.deduped then
    if outcome.matchedExistingActive then
      { progress with matchedActive := progress.matchedActive + 1 }
    else { progress with deduped := progress.deduped + 1 }
  else { progress with pending := progress.pending + 1, created := progress.created + 1 }

/-- The loop of `run_local_candidates` over the candidates of its comments, each with what
its call reads. -/
def runLocalCandidates (sourceRepo : RepoScope) :
    List (LocalCandidate × CallClock) → ImportRun → ImportRun
  | [], run => run
  | (candidate, clock) :: rest, run =>
    let signature := localCandidateDedupeSignature candidate.input
    -- Tombstones are honoured before the signature counts as seen.
    if isRejectedSignature library candidate.input run.store then
      runLocalCandidates sourceRepo rest { run with progress :=
        { run.progress with suppressedRejected := run.progress.suppressedRejected + 1 } }
    else if signature ∈ run.seen then
      runLocalCandidates sourceRepo rest { run with progress :=
        { run.progress with duplicateInRun := run.progress.duplicateInRun + 1 } }
    else
      match rememberAsCandidateForRepo library clock candidate.input candidate.confidence
          sourceRepo (some candidate.sourceKind) run.store with
      | .error err =>
        { run with seen := signature :: run.seen, failure := some (storeFailure err) }
      | .ok (store, outcome) =>
        let progress := run.progress.count outcome
        let run := { run with store, seen := signature :: run.seen, progress }
        if progress.budget ≤ progress.created then
          { run with progress := { progress with capped := true } }
        else runLocalCandidates sourceRepo rest run

def importReviews (sourceRepo : RepoScope) (maxCandidates : Nat) (candidates : List LocalCandidate)
    (clock : Nat → CallClock) (store : RuleStore) : RuleStore :=
  (runLocalCandidates library sourceRepo (candidates.mapIdx fun call candidate =>
      (candidate, clock call))
    { store, seen := [], progress := { budget := maxCandidates }, failure := none }).store

def IsDraft (store : RuleStore) (row : SkillRow) : Prop :=
  row ∈ store.skills.rows ∧ row.status = .pending

def newDrafts (before after : RuleStore) : List Text :=
  (after.skills.rows.filter fun row => row.status = .pending &&
    !before.skills.rows.any fun old => old.id = row.id && old.status = .pending).map SkillRow.id

variable {library : RememberLibrary}

/-- Every draft was one before, or has the hash of a text that is not among the tombstones. -/
def DraftedSince (library : RememberLibrary) (base : SkillTable) (rejected : List Text)
    (skills : SkillTable) : Prop :=
  ∀ row ∈ skills.rows, row.status = .pending →
    (∃ old ∈ base.rows, old.id = row.id ∧ old.status = .pending) ∨
      ∃ text, row.contentHash = some (library.sha256Hex text) ∧ library.sha256Hex text ∉ rejected

theorem DraftedSince.refl {base : SkillTable} {rejected : List Text} :
    DraftedSince library base rejected base :=
  fun row hrow hpending => .inl ⟨row, hrow, rfl, hpending⟩

theorem DraftedSince.strengthen {base skills : SkillTable} {rejected : List Text}
    (hsince : DraftedSince library base rejected skills) (id : Text) (now : Stamp) :
    DraftedSince library base rejected (strengthenRule id now skills) := by
  intro row hrow hpending
  rw [strengthenRule, KeyedTable.mem_update] at hrow
  obtain ⟨old, hold, rfl⟩ := hrow
  by_cases hid : old.id = id
  · rw [if_pos (decide_eq_true hid)] at hpending ⊢
    exact hsince old hold hpending
  · rw [if_neg (by simp [hid])] at hpending ⊢
    exact hsince old hold hpending

theorem DraftedSince.insert {base skills : SkillTable} {rejected : List Text}
    (hsince : DraftedSince library base rejected skills) {rule : RememberedRule} {now : Stamp}
    (hfresh : rule.id ∉ skills.keys) {text : Text}
    (hhash : rule.contentHash = library.sha256Hex text)
    (hunrejected : library.sha256Hex text ∉ rejected) :
    DraftedSince library base rejected (rememberRule library.toLibrary rule now skills) := by
  intro row hrow hpending
  rw [rows_rememberRule hfresh, List.mem_append, List.mem_singleton] at hrow
  rcases hrow with hold | rfl
  · exact hsince row hold hpending
  · exact .inr ⟨text, congrArg some hhash, hunrejected⟩

theorem Rung.apply_eq_ok {clock : CallClock} {status : RuleStatus} {origin : Text}
    {store after : RuleStore} {outcome : RememberOutcome} {rung : Rung}
    (happly : rung.apply clock status origin store = .ok (after, outcome)) :
    after.rejected = store.rejected ∧ (after.skills = store.skills ∨
      ∃ id, after.skills = strengthenRule id clock.now store.skills) := by
  cases rung with
  | matchedActive row =>
    obtain ⟨rfl, -⟩ := apply_matchedActive happly
    exact ⟨rfl, .inl rfl⟩
  | strengthen row reason windowHit =>
    obtain ⟨rfl, -⟩ := apply_strengthen happly
    exact ⟨rfl, .inr ⟨row.id, rfl⟩⟩

theorem draftedSince_of_call {clock : CallClock} {input : RememberRuleInput}
    {confidenceOverride : Option Rat} {status : RuleStatus} {sourceRepo : Option RepoScope}
    {sourceKind : Option Text} {base : SkillTable} {store after : RuleStore}
    {outcome : RememberOutcome}
    (hcall : rememberInner library clock input confidenceOverride status sourceRepo sourceKind
      store = .ok (after, outcome))
    (hunrejected : rememberSignatureHash library input ∉ store.rejected)
    (hsince : DraftedSince library base store.rejected store.skills) :
    after.rejected = store.rejected ∧ DraftedSince library base store.rejected after.skills := by
  obtain ⟨slug, ⟨rung, _, happly⟩ | hinsert⟩ := rememberInner_cases hcall
  · obtain ⟨hrejected, hsame | ⟨id, hstrengthened⟩⟩ := Rung.apply_eq_ok happly
    · exact ⟨hrejected, hsame ▸ hsince⟩
    · exact ⟨hrejected, hstrengthened ▸ hsince.strengthen id clock.now⟩
  · obtain ⟨hfresh, hskills, hrejected, _⟩ := insertFresh_eq_ok hinsert
    rw [hskills]
    exact ⟨hrejected, hsince.insert hfresh rfl hunrejected⟩

theorem draftedSince_of_run {sourceRepo : RepoScope} {calls : List (LocalCandidate × CallClock)}
    {run : ImportRun} {base : SkillTable}
    (hsince : DraftedSince library base run.store.rejected run.store.skills) :
    (runLocalCandidates library sourceRepo calls run).store.rejected = run.store.rejected ∧
      DraftedSince library base run.store.rejected
        (runLocalCandidates library sourceRepo calls run).store.skills := by
  induction calls generalizing run with
  | nil => exact ⟨rfl, hsince⟩
  | cons call rest ih =>
    obtain ⟨candidate, clock⟩ := call
    unfold runLocalCandidates
    simp only
    split
    next => exact ih hsince
    next hunrejected =>
      split
      next => exact ih hsince
      next =>
        split
        next => exact ⟨rfl, hsince⟩
        next store outcome hcall =>
          have hhash : rememberSignatureHash library candidate.input ∉ run.store.rejected := by
            simpa [isRejectedSignature] using hunrejected
          obtain ⟨hrejected, hafter⟩ := draftedSince_of_call hcall hhash hsince
          split
          next => exact ⟨hrejected, hafter⟩
          next =>
            rw [← hrejected] at hafter ⊢
            exact ih hafter

/-! ## What a rejection leaves -/

theorem tombstone_of_trimmed {row : SkillRow} {hash : Text} (hhash : row.contentHash = some hash)
    (htrim : trim hash = hash) (hne : hash ≠ []) : tombstone row = some hash := by
  simp [tombstone, hhash, htrim, hne]

theorem rejectDraft_eq_ok {id : Text} {store after : RuleStore}
    (hreject : rejectDraft id store = .ok after) :
    ∃ row, store.skills.find id = some row ∧ row.status = .pending ∧
      after.skills = rejectCandidate id store.skills ∧ store.rejected ⊆ after.rejected ∧
      ∀ hash ∈ tombstone row, hash ∈ after.rejected := by
  unfold rejectDraft at hreject
  split at hreject
  next row hfind =>
    split at hreject
    next hpending =>
      cases hreject
      refine ⟨row, hfind, hpending, rfl, ?_, ?_⟩
      · cases htombstone : tombstone row with
        | none => exact List.Subset.refl _
        | some hash =>
          by_cases hknown : hash ∈ store.rejected
          · simp [hknown]
          · simp [hknown]
      · intro hash hhash
        rw [Option.mem_def.mp hhash]
        by_cases hknown : hash ∈ store.rejected
        · simp [hknown]
        · simp [hknown]
    next => split at hreject <;> contradiction
  next => contradiction

theorem tryReject_keeps (id : Text) (store : RuleStore) :
    (tryReject store id).skills.rows ⊆ store.skills.rows ∧
      store.rejected ⊆ (tryReject store id).rejected := by
  cases hreject : rejectDraft id store with
  | error err => simp [tryReject, hreject, Except.toOption]
  | ok after =>
    obtain ⟨_, _, _, hskills, hrejected, _⟩ := rejectDraft_eq_ok hreject
    simp only [tryReject, hreject, Except.toOption, Option.getD_some]
    rw [hskills]
    exact ⟨fun row hrow => (KeyedTable.mem_delete.mp hrow).1, hrejected⟩

theorem tryReject_draft {store : RuleStore} {row : SkillRow} (hdraft : IsDraft store row) :
    row ∉ (tryReject store row.id).skills.rows ∧
      ∀ hash ∈ tombstone row, hash ∈ (tryReject store row.id).rejected := by
  obtain ⟨hrow, hpending⟩ := hdraft
  have hfind : store.skills.find row.id = some row := KeyedTable.find_eq_some.mpr ⟨hrow, rfl⟩
  cases hreject : rejectDraft row.id store with
  | error err => simp [rejectDraft, hfind, hpending] at hreject
  | ok after =>
    obtain ⟨found, hfound, _, hskills, _, htombstone⟩ := rejectDraft_eq_ok hreject
    rw [hfind, Option.some.injEq] at hfound
    subst hfound
    simp only [tryReject, hreject, Except.toOption, Option.getD_some]
    refine ⟨?_, htombstone⟩
    rw [hskills, rejectCandidate, KeyedTable.mem_delete]
    simp [hpending]

theorem tryReject_other {id : Text} {store : RuleStore} {row : SkillRow}
    (hrow : row ∈ store.skills.rows) (hother : row.id ≠ id) :
    row ∈ (tryReject store id).skills.rows := by
  cases hreject : rejectDraft id store with
  | error err => simpa [tryReject, hreject, Except.toOption] using hrow
  | ok after =>
    obtain ⟨_, _, _, hskills, _, _⟩ := rejectDraft_eq_ok hreject
    simp only [tryReject, hreject, Except.toOption, Option.getD_some]
    rw [hskills, rejectCandidate, KeyedTable.mem_delete]
    exact ⟨hrow, by simp [hother]⟩

theorem rejectDrafts_keeps (ids : List Text) (store : RuleStore) :
    (rejectDrafts ids store).skills.rows ⊆ store.skills.rows ∧
      store.rejected ⊆ (rejectDrafts ids store).rejected := by
  induction ids generalizing store with
  | nil => exact ⟨List.Subset.refl _, List.Subset.refl _⟩
  | cons id rest ih =>
    obtain ⟨hrows, hrejected⟩ := tryReject_keeps id store
    obtain ⟨hrestRows, hrestRejected⟩ := ih (tryReject store id)
    exact ⟨List.Subset.trans hrestRows hrows, List.Subset.trans hrejected hrestRejected⟩

theorem rejectDrafts_draft {ids : List Text} {store : RuleStore} {row : SkillRow}
    (hdraft : IsDraft store row) (hid : row.id ∈ ids) :
    row ∉ (rejectDrafts ids store).skills.rows ∧
      ∀ hash ∈ tombstone row, hash ∈ (rejectDrafts ids store).rejected := by
  induction ids generalizing store with
  | nil => contradiction
  | cons id rest ih =>
    obtain ⟨hrestRows, hrestRejected⟩ := rejectDrafts_keeps rest (tryReject store id)
    by_cases hkept : row ∈ (tryReject store id).skills.rows
    · -- The head was some other draft, since this one is still there.
      have hother : row.id ≠ id := by
        rintro rfl
        exact (tryReject_draft hdraft).1 hkept
      exact ih ⟨hkept, hdraft.2⟩ (List.mem_of_ne_of_mem hother hid)
    · refine ⟨fun hrow => hkept (hrestRows hrow), fun hash hhash => ?_⟩
      by_cases hhead : row.id = id
      · subst hhead
        exact hrestRejected ((tryReject_draft hdraft).2 hash hhash)
      · exact absurd (tryReject_other hdraft.1 hhead) hkept

theorem mem_newDrafts {before after : RuleStore} {id : Text} :
    id ∈ newDrafts before after ↔ (∃ row, IsDraft after row ∧ row.id = id) ∧
      ∀ old, IsDraft before old → old.id ≠ id := by
  simp only [newDrafts, IsDraft, List.mem_map, List.mem_filter, Bool.and_eq_true,
    decide_eq_true_eq, Bool.not_eq_true', List.any_eq_false]
  constructor
  · rintro ⟨row, ⟨hrow, hpending, hnone⟩, rfl⟩
    exact ⟨⟨row, ⟨hrow, hpending⟩, rfl⟩, fun old hold hsame => hnone old hold.1 ⟨hsame, hold.2⟩⟩
  · rintro ⟨⟨row, ⟨hrow, hpending⟩, rfl⟩, hnone⟩
    exact ⟨row, ⟨hrow, hpending, fun old hold hboth => hnone old ⟨hold, hboth.2⟩ hboth.1⟩, rfl⟩

/-- After an import, the rejection of every draft it made and the same import again, the
content of a new draft is that of no rejected draft. -/
theorem redrafted_unrejected {sourceRepo : RepoScope} {maxCandidates : Nat}
    {candidates : List LocalCandidate} {clock again : Nat → CallClock} {store : RuleStore}
    (hhex : ∀ text, trim (library.sha256Hex text) = library.sha256Hex text ∧
      library.sha256Hex text ≠ []) :
    let first := importReviews library sourceRepo maxCandidates candidates clock store
    let rejected := rejectDrafts (newDrafts store first) first
    let second := importReviews library sourceRepo maxCandidates candidates again rejected
    ∀ row, IsDraft second row → (∀ old, IsDraft store old → old.id ≠ row.id) →
      ∃ hash, row.contentHash = some hash ∧ hash ∉ rejected.rejected ∧
        ∀ draft, IsDraft first draft → draft.id ∈ newDrafts store first →
          draft.contentHash ≠ some hash := by
  intro first rejected second row hrow hnew
  have hfirst : DraftedSince library store.skills store.rejected first.skills :=
    (draftedSince_of_run DraftedSince.refl).2
  have hsecond : DraftedSince library rejected.skills rejected.rejected second.skills :=
    (draftedSince_of_run DraftedSince.refl).2
  rcases hsecond row hrow.1 hrow.2 with ⟨old, hold, hsame, hpending⟩ | ⟨text, hhash, hunrejected⟩
  · -- A draft that was there before the second run is one that was not rejected.
    have holdFirst : IsDraft first old :=
      ⟨(rejectDrafts_keeps (newDrafts store first) first).1 hold, hpending⟩
    have hlisted : old.id ∈ newDrafts store first :=
      mem_newDrafts.mpr ⟨⟨old, holdFirst, rfl⟩, hsame ▸ hnew⟩
    exact absurd hold (rejectDrafts_draft holdFirst hlisted).1
  · refine ⟨library.sha256Hex text, hhash, hunrejected, fun draft hdraft hlisted hcontent => ?_⟩
    have htombstone := tombstone_of_trimmed hcontent (hhex text).1 (hhex text).2
    exact hunrejected ((rejectDrafts_draft hdraft hlisted).2 _ htombstone)

/-- The libraries on two contents that differ in their last letter. -/
def twoEvidence : RememberLibrary where
  jsonStrings _ := some []
  printStrings _ := emptyListJson
  sha1Hex _ := []
  redactSecrets input := input
  sha256Hex text :=
    if text.getLast? = some 'a' then
      "30c16db90dc1ce6f10dd8c9694a629da5936330a0135f6fe879ef6d2569951c0"
    else "e4738a59ff1fdd73f10c260d0fc1c68298bd9d44b0ecd62c57e165f7dcef23f7"

def evidenceCandidate (evidence : Char) : LocalCandidate where
  input := { reviewInput with body := "Rule:\nx\n\nSource evidence:\n" ++ [evidence] }
  confidence := 3 / 5
  sourceKind := "human_review"

def emptyStore : RuleStore := ⟨KeyedTable.empty, [], [], []⟩

def callClock (first : Char) (call : Nat) : CallClock :=
  { noon with idSuffix := first :: Nat.toDigits 10 call }

def evidenceRepo : RepoScope := ⟨"o/r"⟩

def evidenceCandidates : List LocalCandidate := [evidenceCandidate 'a', evidenceCandidate 'b']

def evidenceFirst : RuleStore :=
  importReviews twoEvidence evidenceRepo 10 evidenceCandidates (callClock 'a') emptyStore

def evidenceRejected : RuleStore := rejectDrafts (newDrafts emptyStore evidenceFirst) evidenceFirst

def evidenceSecond : RuleStore :=
  importReviews twoEvidence evidenceRepo 10 evidenceCandidates (callClock 'b') evidenceRejected

/-- The rejection of the first draft leaves room for a draft of the second candidate. -/
theorem rejected_statement_redrafted :
    (evidenceFirst.skills.rows.map fun row => (row.status, row.contentHash)) =
        [(.pending, some (twoEvidence.sha256Hex ['a']))] ∧
      evidenceRejected.skills.rows = [] ∧
      (evidenceSecond.skills.rows.map fun row => (row.status, row.contentHash)) =
        [(.pending, some (twoEvidence.sha256Hex ['b']))] := by
  decide

theorem redrafted_unrejected_evidence :
    ∃ row, IsDraft evidenceSecond row ∧ ∃ hash, row.contentHash = some hash ∧
      hash ∉ evidenceRejected.rejected ∧
      ∀ draft, IsDraft evidenceFirst draft → draft.id ∈ newDrafts emptyStore evidenceFirst →
        draft.contentHash ≠ some hash := by
  have hhex : ∀ text, trim (twoEvidence.sha256Hex text) = twoEvidence.sha256Hex text ∧
      twoEvidence.sha256Hex text ≠ [] := by
    intro text
    unfold twoEvidence
    simp only
    split <;> decide
  have hdrafts : evidenceSecond.skills.rows.map SkillRow.status = [.pending] := by decide
  obtain ⟨row, hrow, hpending⟩ := List.mem_map.mp (hdrafts ▸ List.mem_singleton_self _)
  have hunrejected := @redrafted_unrejected twoEvidence evidenceRepo 10 evidenceCandidates
    (callClock 'a') (callClock 'b') emptyStore hhex
  exact ⟨row, ⟨hrow, hpending⟩, hunrejected row ⟨hrow, hpending⟩ fun old hold =>
    absurd hold.1 List.not_mem_nil⟩

end Difflore.Skills

import Difflore.Skills.Rejections

/-! # Promoting drafts

A pending draft is made active unless an active rule has its content.
-/

namespace Difflore.Skills

open Foundation Infra Context

variable {clock : CallClock} {outcome : RememberOutcome} {input : RememberRuleInput}
  {status : RuleStatus} {store : RuleStore}

def alreadyActiveError (id : Text) : Text :=
  "rule '" ++ (id ++ ("' is already active; nothing to promote. " ++
    "Inspect local rules with `difflore status --json`."))

def duplicateDraftError (id activeId : Text) : Text :=
  "rule draft '" ++ (id ++ ("' duplicates active rule '" ++ (activeId ++
    "'. Inspect both with `difflore rules show` before approving.")))

def activeDuplicate (row : SkillRow) (skills : SkillTable) : Option SkillRow :=
  ((row.contentHash.map Text.trim).filter (· ≠ [])).bind fun hash =>
    (query oldestInstall (fun other => other.status = .active && other.contentHash = some hash)
      skills).head?

def promoteDraft (id : Text) (store : RuleStore) : Except Text RuleStore :=
  match store.skills.find id with
  | none => .error (unknownDraftError id)
  | some row =>
    if row.status = .pending then
      match activeDuplicate row store.skills with
      | some active => .error (duplicateDraftError id active.id)
      | none => .ok { store with skills := promoteCandidate id store.skills }
    else if row.status = .active then .error (alreadyActiveError id)
    else .error (unknownDraftError id)

def tryPromote (store : RuleStore) (id : Text) : RuleStore :=
  (promoteDraft id store).toOption.getD store

theorem promoteDraft_eq_ok {id : Text} {after : RuleStore}
    (hpromote : promoteDraft id store = .ok after) :
    after = { store with skills := promoteCandidate id store.skills } := by
  unfold promoteDraft at hpromote
  split at hpromote
  next => contradiction
  next =>
    split at hpromote
    next =>
      split at hpromote
      next => contradiction
      next => exact (Except.ok.inj hpromote).symm
    next => split at hpromote <;> contradiction

/-- A row of the table after a promotion, up to its status and engines, was there before; it
is new among the active ones only if it is the promoted one. -/
theorem mem_promoteCandidate {id : Text} {skills : SkillTable} {row : SkillRow}
    (hrow : row ∈ (promoteCandidate id skills).rows) :
    row ∈ skills.rows ∨ ∃ old ∈ skills.rows, old.id = id ∧ old.status = .pending ∧
      row.id = id ∧ row.status = .active ∧ row.contentHash = old.contentHash ∧
      row.sourceRepo = old.sourceRepo := by
  rw [promoteCandidate, KeyedTable.mem_update] at hrow
  obtain ⟨old, hold, hchanged⟩ := hrow
  split at hchanged
  next hhit =>
    simp only [Bool.and_eq_true, decide_eq_true_eq] at hhit
    rw [← hchanged]
    exact .inr ⟨old, hold, hhit.1.1, hhit.1.2, hhit.1.1, rfl, rfl, rfl⟩
  next => exact .inl (hchanged ▸ hold)

/-! ## What drafts are made from

A run of remembering calls for one repository leaves rows that were there before, and rows of
that repository whose content is that of an input it was called with.
-/

variable {library : RememberLibrary} {repo : RepoScope} {from' : RememberRuleInput → Prop}
  {base : SkillTable}

/-- Every row was one before, or belongs to the repository and has the content of an input. -/
def DraftedFrom (library : RememberLibrary) (repo : RepoScope) (from' : RememberRuleInput → Prop)
    (base skills : SkillTable) : Prop :=
  ∀ row ∈ skills.rows, row.id ∈ base.keys ∨
    (row.sourceRepo = some repo.value ∧ ∃ input, from' input ∧
      row.contentHash = some (rememberSignatureHash library input))

theorem DraftedFrom.refl : DraftedFrom library repo from' base base := by
  intro row hrow
  exact .inl (KeyedTable.mem_keys.mpr ⟨row, hrow, rfl⟩)

theorem DraftedFrom.of_kept {skills after : SkillTable}
    (hdrafted : DraftedFrom library repo from' base skills)
    (hkept : ∀ row ∈ after.rows, ∃ old ∈ skills.rows, row.id = old.id ∧
      row.sourceRepo = old.sourceRepo ∧ row.contentHash = old.contentHash) :
    DraftedFrom library repo from' base after := by
  intro row hrow
  obtain ⟨old, hold, hid, hrepo, hhash⟩ := hkept row hrow
  rw [hid, hrepo, hhash]
  exact hdrafted old hold

theorem DraftedFrom.strengthen {skills : SkillTable}
    (hdrafted : DraftedFrom library repo from' base skills) (id : Text) (now : Stamp) :
    DraftedFrom library repo from' base (strengthenRule id now skills) := by
  apply hdrafted.of_kept
  intro row hrow
  rw [strengthenRule, KeyedTable.mem_update] at hrow
  obtain ⟨old, hold, rfl⟩ := hrow
  refine ⟨old, hold, ?_⟩
  split <;> exact ⟨rfl, rfl, rfl⟩

theorem DraftedFrom.promote {skills : SkillTable}
    (hdrafted : DraftedFrom library repo from' base skills) (id : Text) :
    DraftedFrom library repo from' base (promoteCandidate id skills) := by
  apply hdrafted.of_kept
  intro row hrow
  rcases mem_promoteCandidate hrow with hrow | ⟨old, hold, hid, _, hrowId, _, hhash, hrepo⟩
  · exact ⟨row, hrow, rfl, rfl, rfl⟩
  · exact ⟨old, hold, hrowId.trans hid.symm, hrepo, hhash⟩

theorem DraftedFrom.call {confidenceOverride : Option Rat} {sourceKind : Option Text}
    {after : RuleStore}
    (hdrafted : DraftedFrom library repo from' base store.skills) (hfrom : from' input)
    (hcall : rememberInner library clock input confidenceOverride status (some repo) sourceKind
      store = .ok (after, outcome)) :
    DraftedFrom library repo from' base after.skills := by
  obtain ⟨slug, ⟨rung, _, happly⟩ | hinsert⟩ := rememberInner_cases hcall
  · obtain ⟨_, hsame | ⟨id, hstrengthened⟩⟩ := Rung.apply_eq_ok happly
    · exact hsame ▸ hdrafted
    · exact hstrengthened ▸ hdrafted.strengthen id clock.now
  · obtain ⟨hfresh, hskills, _⟩ := insertFresh_eq_ok hinsert
    rw [hskills]
    intro row hrow
    rw [rows_rememberRule hfresh, List.mem_append, List.mem_singleton] at hrow
    rcases hrow with hold | rfl
    · exact hdrafted row hold
    · exact .inr ⟨rfl, input, hfrom, rfl⟩

theorem Rung.apply_deduped {origin : Text} {after : RuleStore} {rung : Rung}
    (happly : rung.apply clock status origin store = .ok (after, outcome)) :
    outcome.deduped = true := by
  cases rung with
  | matchedActive row => exact (apply_matchedActive happly).2.1
  | strengthen row reason windowHit => exact (apply_strengthen happly).2.1

theorem rememberInner_fresh {confidenceOverride : Option Rat} {sourceRepo : Option RepoScope}
    {sourceKind : Option Text} {after : RuleStore}
    (hcall : rememberInner library clock input confidenceOverride status sourceRepo sourceKind
      store = .ok (after, outcome)) (hfresh : outcome.deduped = false) :
    outcome.skill ∈ after.skills.rows ∧
      outcome.skill.contentHash = some (rememberSignatureHash library input) := by
  obtain ⟨slug, ⟨rung, _, happly⟩ | hinsert⟩ := rememberInner_cases hcall
  · rw [Rung.apply_deduped happly] at hfresh
    contradiction
  · obtain ⟨hnew, hskills, _, hskill, _⟩ := insertFresh_eq_ok hinsert
    rw [hskills, rows_rememberRule hnew, hskill]
    exact ⟨List.mem_append_right _ (List.mem_singleton_self _), rfl⟩

theorem draftedFrom_of_run {calls : List (LocalCandidate × CallClock)} {run : ImportRun}
    (hdrafted : DraftedFrom library repo from' base run.store.skills)
    (hfrom : ∀ call ∈ calls, from' call.1.input) :
    DraftedFrom library repo from' base
      (runLocalCandidates library repo calls run).store.skills := by
  induction calls generalizing run with
  | nil => exact hdrafted
  | cons call rest ih =>
    obtain ⟨candidate, clock⟩ := call
    have hrest : ∀ call ∈ rest, from' call.1.input :=
      fun call hcall => hfrom call (.tail _ hcall)
    unfold runLocalCandidates
    simp only
    split
    next => exact ih hdrafted hrest
    next =>
      split
      next => exact ih hdrafted hrest
      next =>
        split
        next => exact hdrafted
        next store outcome hcall =>
          have hafter := hdrafted.call (hfrom _ (.head _)) hcall
          split
          next => exact hafter
          next => exact ih hafter hrest

theorem draftedFrom_importReviews {maxCandidates : Nat} {candidates : List LocalCandidate}
    {clock : Nat → CallClock} (hfrom : ∀ candidate ∈ candidates, from' candidate.input) :
    DraftedFrom library repo from' store.skills
      (importReviews library repo maxCandidates candidates clock store).skills := by
  unfold importReviews
  apply draftedFrom_of_run DraftedFrom.refl
  intro call hcall
  obtain ⟨idx, hidx, rfl⟩ := List.mem_mapIdx.mp hcall
  exact hfrom _ (List.getElem_mem _)

/-! ## Strengthened rows -/

/-- A function on rows that changes their confidence and time at most. -/
def KeepsContent (f : SkillRow → SkillRow) : Prop :=
  ∀ row, ∃ confidence updatedAt, f row = { row with confidence, updatedAt }

def strengthened (id : Text) (now : Stamp) (row : SkillRow) : SkillRow :=
  if row.id = id then
    { row with
      confidence := min (row.confidence + 1 / 20) conversationConfidenceCap
      updatedAt := now }
  else row

theorem keepsContent_id : KeepsContent id := fun row => ⟨row.confidence, row.updatedAt, rfl⟩

theorem keepsContent_strengthened (id : Text) (now : Stamp) :
    KeepsContent (strengthened id now) := by
  intro row
  unfold strengthened
  split
  next => exact ⟨_, _, rfl⟩
  next => exact ⟨row.confidence, row.updatedAt, rfl⟩

theorem KeepsContent.comp {f g : SkillRow → SkillRow} (hf : KeepsContent f) (hg : KeepsContent g) :
    KeepsContent (g ∘ f) := by
  intro row
  obtain ⟨confidence, updatedAt, heq⟩ := hf row
  obtain ⟨confidence', updatedAt', heq'⟩ := hg (f row)
  refine ⟨confidence', updatedAt', ?_⟩
  rw [Function.comp_apply, heq', heq]

theorem rows_strengthenRule (id : Text) (now : Stamp) (skills : SkillTable) :
    (strengthenRule id now skills).rows = skills.rows.map (strengthened id now) := by
  unfold strengthenRule KeyedTable.update strengthened
  apply List.map_congr_left
  intro row _
  simp only [decide_eq_true_eq]

variable {library : RememberLibrary} {f : SkillRow → SkillRow} {skills after : SkillTable}

section

variable (hf : KeepsContent f)
include hf

theorem query_map (hrows : after.rows = skills.rows.map f)
    {order : SkillRow → SkillRow → Bool} {condition : SkillRow → Bool}
    (horder : ∀ left right confidence updatedAt confidence' updatedAt',
      order { left with confidence, updatedAt }
          { right with confidence := confidence', updatedAt := updatedAt' } = order left right)
    (hcondition : ∀ row confidence updatedAt,
      condition { row with confidence, updatedAt } = condition row) :
    query order condition after = (query order condition skills).map f := by
  have hfilter : after.rows.filter condition = (skills.rows.filter condition).map f := by
    rw [hrows, List.filter_map]
    congr 1
    apply List.filter_congr
    intro row _
    obtain ⟨_, _, heq⟩ := hf row
    rw [Function.comp_apply, heq, hcondition]
  unfold query
  rw [hfilter]
  symm
  apply List.map_insertionSort
  intro left _ right _
  obtain ⟨confidence, updatedAt, hleft⟩ := hf left
  obtain ⟨confidence', updatedAt', hright⟩ := hf right
  rw [hleft, hright, horder left right confidence updatedAt confidence' updatedAt']

theorem find?_map_keeps {rows : List SkillRow} {p : SkillRow → Bool}
    (hp : ∀ row confidence updatedAt, p { row with confidence, updatedAt } = p row) :
    (rows.map f).find? p = (rows.find? p).map f := by
  rw [List.find?_map]
  congr 2
  funext row
  obtain ⟨_, _, heq⟩ := hf row
  rw [Function.comp_apply, heq, hp]

theorem findByContentHash_map (hrows : after.rows = skills.rows.map f)
    (contentHash : Text) (status : RuleStatus) (repo : Option Text) :
    findByContentHash contentHash status repo after =
      (findByContentHash contentHash status repo skills).map f := by
  unfold findByContentHash
  rw [query_map hf hrows, List.head?_map]
  · exact fun _ _ _ _ _ _ => rfl
  · exact fun _ _ _ => rfl

theorem findSemanticPrReviewMatch_map
    (hrows : after.rows = skills.rows.map f) (input : RememberRuleInput) (body repo : Text)
    (status : RuleStatus) :
    findSemanticPrReviewMatch library input body repo status after =
      (findSemanticPrReviewMatch library input body repo status skills).map f := by
  unfold findSemanticPrReviewMatch
  dsimp only
  rw [query_map hf hrows, find?_map_keeps hf]
  · exact fun _ _ _ => rfl
  · exact fun _ _ _ _ _ _ => rfl
  · exact fun _ _ _ => rfl

theorem findInWindow_map (hrows : after.rows = skills.rows.map f)
    (clock : CallClock) (contentHash : Text) (status : RuleStatus) :
    findInWindow clock contentHash status after =
      (findInWindow clock contentHash status skills).map f := by
  unfold findInWindow
  rw [query_map hf hrows, List.head?_map]
  · exact fun _ _ _ _ _ _ => rfl
  · exact fun _ _ _ => rfl

theorem findByTitle_map (hrows : after.rows = skills.rows.map f)
    (slug csv body : Text) (status : RuleStatus) :
    findByTitle library slug csv body status after =
      (findByTitle library slug csv body status skills).map f := by
  unfold findByTitle
  rw [query_map hf hrows, ← List.map_take, find?_map_keeps hf]
  · exact fun _ _ _ => rfl
  · exact fun _ _ _ _ _ _ => rfl
  · exact fun _ _ _ => rfl

end

def Rung.mapRow (f : SkillRow → SkillRow) : Rung → Rung
  | .matchedActive row => .matchedActive (f row)
  | .strengthen row reason windowHit => .strengthen (f row) reason windowHit

theorem map_mapRow_or (first second : Option Rung) : (first.or second).map (Rung.mapRow f) =
      (first.map (Rung.mapRow f)).or (second.map (Rung.mapRow f)) := by
  cases first <;> rfl

theorem importRung_map (hf : KeepsContent f) (hrows : after.rows = skills.rows.map f)
    (input : RememberRuleInput) (status : RuleStatus) (repo : Option Text)
    (origin contentHash : Text) :
    importRung library input status repo origin contentHash after =
      (importRung library input status repo origin contentHash skills).map (Rung.mapRow f) := by
  have hsemantic : ∀ status, (repo.bind fun repo => findSemanticPrReviewMatch library input
      (sanitizedBody library input.body) repo status after) =
        (repo.bind fun repo => findSemanticPrReviewMatch library input
          (sanitizedBody library input.body) repo status skills).map f := by
    intro status
    cases repo with
    | none => rfl
    | some repo => exact findSemanticPrReviewMatch_map hf hrows _ _ _ _
  unfold importRung
  dsimp only
  rw [map_mapRow_or, map_mapRow_or]
  simp only [findByContentHash_map hf hrows, hsemantic]
  split
  next =>
    rw [map_mapRow_or]
    simp only [Option.map_map]
    rfl
  next =>
    simp only [Option.map_map]
    rfl

theorem findExisting_map (hf : KeepsContent f) (hrows : after.rows = skills.rows.map f)
    (clock : CallClock) (input : RememberRuleInput) (status : RuleStatus) (repo : Option Text)
    (slug origin contentHash : Text) :
    findExisting library clock input status repo slug origin contentHash after =
      (findExisting library clock input status repo slug origin contentHash skills).map
        (Rung.mapRow f) := by
  unfold findExisting
  rw [map_mapRow_or, map_mapRow_or, findInWindow_map hf hrows, findByTitle_map hf hrows,
    importRung_map hf hrows]
  simp only [Option.map_map]
  split <;> rfl

end Difflore.Skills

import Difflore.Skills.Remember

/-! # Tiers of trust

What the ladder finds is a row of the own tier, which is strengthened, or a reviewed row,
which is left alone. A draft so never writes to an active row.
-/

namespace Difflore.Skills

open Foundation Text Infra Context

variable {library : RememberLibrary} {skills : SkillTable}

variable {clock : CallClock} {confidenceOverride : Option Rat} {sourceRepo : Option RepoScope}
  {sourceKind : Option Text} {outcome : RememberOutcome} {input : RememberRuleInput}
  {rule : RememberedRule} {status : RuleStatus} {store after : RuleStore} {row : SkillRow}
  {body origin : Text}

theorem mem_query {order : SkillRow → SkillRow → Bool} {condition : SkillRow → Bool} :
    row ∈ query order condition skills ↔ row ∈ skills.rows ∧ condition row = true := by
  rw [query, List.mem_insertionSort, List.mem_filter]

theorem of_findByContentHash {contentHash : Text} {repo : Option Text}
    (hfind : findByContentHash contentHash status repo skills = some row) :
    row ∈ skills.rows ∧ row.status = status.row := by
  obtain ⟨hmem, hcondition⟩ := mem_query.mp (List.mem_of_head? hfind)
  simp only [Bool.and_eq_true, decide_eq_true_eq] at hcondition
  exact ⟨hmem, hcondition.1.2⟩

theorem of_findSemanticPrReviewMatch {repo : Text}
    (hfind : findSemanticPrReviewMatch library input body repo status skills = some row) :
    row ∈ skills.rows ∧ row.status = status.row := by
  obtain ⟨hmem, hcondition⟩ := mem_query.mp (List.mem_of_find?_eq_some hfind)
  simp only [Bool.and_eq_true, decide_eq_true_eq] at hcondition
  exact ⟨hmem, hcondition.1.2⟩

theorem of_findInWindow {contentHash : Text}
    (hfind : findInWindow clock contentHash status skills = some row) :
    row ∈ skills.rows ∧ row.status = status.row := by
  obtain ⟨hmem, hcondition⟩ := mem_query.mp (List.mem_of_head? hfind)
  simp only [Bool.and_eq_true, decide_eq_true_eq] at hcondition
  exact ⟨hmem, hcondition.1.2⟩

theorem of_findByTitle {slug csv : Text}
    (hfind : findByTitle library slug csv body status skills = some row) :
    row ∈ skills.rows ∧ row.status = status.row := by
  obtain ⟨hmem, hcondition⟩ := mem_query.mp (List.mem_of_mem_take (List.mem_of_find?_eq_some hfind))
  simp only [Bool.and_eq_true, decide_eq_true_eq] at hcondition
  exact ⟨hmem, hcondition.2⟩

def Rung.Of (status : RuleStatus) (skills : SkillTable) : Rung → Prop
  | .matchedActive row => row ∈ skills.rows ∧ row.status = .active ∧ status = .pending
  | .strengthen row _ _ => row ∈ skills.rows ∧ row.status = status.row

def AllOf (status : RuleStatus) (skills : SkillTable) (found : Option Rung) : Prop :=
  ∀ rung ∈ found, rung.Of status skills

theorem AllOf.none : AllOf status skills none :=
  fun rung hrung => absurd hrung (Option.not_mem_none rung)

theorem AllOf.or {first second : Option Rung} (hfirst : AllOf status skills first)
    (hsecond : AllOf status skills second) :
    AllOf status skills (first.or second) := by
  intro rung hrung
  rcases Option.or_eq_some_iff.mp hrung with hfound | ⟨_, hfound⟩
  · exact hfirst rung hfound
  · exact hsecond rung hfound

theorem AllOf.strengthen {found : Option SkillRow} {reason : Text} {windowHit : Bool}
    (hfound : ∀ row, found = some row → row ∈ skills.rows ∧ row.status = status.row) :
    AllOf status skills (found.map fun row => .strengthen row reason windowHit) := by
  intro rung hrung
  obtain ⟨row, hrow, rfl⟩ := Option.map_eq_some_iff.mp hrung
  exact hfound row hrow

theorem AllOf.matchedActive {found : Option SkillRow}
    (hfound : ∀ row, found = some row → row ∈ skills.rows ∧ row.status = RuleStatus.active.row) :
    AllOf .pending skills (found.map .matchedActive) := by
  intro rung hrung
  obtain ⟨row, hrow, rfl⟩ := Option.map_eq_some_iff.mp hrung
  exact ⟨(hfound row hrow).1, (hfound row hrow).2, rfl⟩

theorem of_semantic {repo : Option Text} (hfind : (repo.bind fun repo =>
      findSemanticPrReviewMatch library input body repo status skills) = some row) :
    row ∈ skills.rows ∧ row.status = status.row := by
  obtain ⟨repo, _, hfound⟩ := Option.bind_eq_some_iff.mp hfind
  exact of_findSemanticPrReviewMatch hfound

theorem allOf_importRung (input : RememberRuleInput) (status : RuleStatus) (repo : Option Text)
    (origin contentHash : Text) :
    AllOf status skills (importRung library input status repo origin contentHash skills) := by
  unfold importRung
  cases status with
  | active =>
    -- Rows of the own tier only.
    simp only [reduceCtorEq, decide_false, Bool.and_false, Bool.false_eq_true, if_false]
    exact AllOf.none.or ((AllOf.strengthen fun _ => of_findByContentHash).or AllOf.none)
  | pending =>
    by_cases hreview : origin = prReviewOrigin
    · simp only [hreview, decide_true, Bool.and_true, if_true]
      exact (AllOf.matchedActive fun _ => of_findByContentHash).or
        ((AllOf.strengthen fun _ => of_findByContentHash).or
          ((AllOf.matchedActive fun _ => of_semantic).or (AllOf.strengthen fun _ => of_semantic)))
    · simp only [hreview, decide_false, Bool.false_and, Bool.false_eq_true, if_false]
      exact AllOf.none.or ((AllOf.strengthen fun _ => of_findByContentHash).or AllOf.none)

theorem allOf_findExisting (clock : CallClock) (input : RememberRuleInput) (status : RuleStatus)
    (repo : Option Text) (slug origin contentHash : Text) :
    AllOf status skills
      (findExisting library clock input status repo slug origin contentHash skills) := by
  unfold findExisting
  refine AllOf.or ?_ ((AllOf.strengthen fun _ => of_findInWindow).or
    (AllOf.strengthen fun _ => of_findByTitle))
  split
  · exact allOf_importRung input status repo origin contentHash
  · exact .none

/-! ## What a call leaves -/

/-- The active rows are those of before, and the call returns a draft, or an active row
of a table that it left as it was. -/
structure TierKept (store after : RuleStore) (outcome : RememberOutcome) : Prop where
  active : ∀ row, row.status = .active → (row ∈ after.skills.rows ↔ row ∈ store.skills.rows)
  returned : (outcome.skill ∈ after.skills.rows ∧ outcome.skill.status = .pending) ∨
    (outcome.skill ∈ store.skills.rows ∧ outcome.skill.status = .active ∧
      after.skills = store.skills)

theorem fetchSkillRowById_eq_ok {id : Text} :
    fetchSkillRowById id skills = .ok row ↔ skills.find id = some row := by
  unfold fetchSkillRowById
  split
  next found hfind => rw [hfind, Except.ok.injEq, Option.some.injEq]
  next hfind => simp [hfind]

theorem of_fetched {id : Text} {found : SkillRow → RuleStore × RememberOutcome} (happly : (do
      let skill ← fetchSkillRowById id skills
      return found skill) = .ok (after, outcome)) :
    ∃ skill, skills.find id = some skill ∧ found skill = (after, outcome) := by
  cases hfetch : fetchSkillRowById id skills with
  | error err => simp [hfetch, bind, Except.bind] at happly
  | ok skill =>
    simp only [hfetch, bind, Except.bind, pure, Except.pure, Except.ok.injEq] at happly
    exact ⟨skill, fetchSkillRowById_eq_ok.mp hfetch, happly⟩

theorem apply_matchedActive
    (happly : (Rung.matchedActive row).apply clock status origin store = .ok (after, outcome)) :
    after = store ∧ outcome.deduped = true ∧ outcome.matchedExistingActive = true ∧
      store.skills.find row.id = some outcome.skill := by
  obtain ⟨skill, hfind, hfound⟩ := of_fetched happly
  cases hfound
  exact ⟨rfl, rfl, rfl, hfind⟩

theorem apply_strengthen {reason : Text} {windowHit : Bool}
    (happly : (Rung.strengthen row reason windowHit).apply clock status origin store =
      .ok (after, outcome)) :
    after = strengthenExisting clock row reason status store ∧ outcome.deduped = true ∧
      outcome.matchedExistingActive = false ∧
        (strengthenRule row.id clock.now store.skills).find row.id = some outcome.skill := by
  obtain ⟨skill, hfind, hfound⟩ := of_fetched happly
  cases hfound
  exact ⟨rfl, rfl, rfl, hfind⟩

theorem apply_matchedActive_of_mem (hrow : row ∈ store.skills.rows) :
    ∃ outcome, (Rung.matchedActive row).apply clock status origin store = .ok (store, outcome) := by
  have hfetch := fetchSkillRowById_eq_ok.mpr (KeyedTable.find_eq_some.mpr ⟨hrow, rfl⟩)
  simp only [Rung.apply, hfetch, bind, Except.bind, pure, Except.pure]
  exact ⟨_, rfl⟩

theorem apply_strengthen_of_mem (hrow : row ∈ store.skills.rows) {reason : Text}
    {windowHit : Bool} : ∃ outcome, (Rung.strengthen row reason windowHit).apply clock status
      origin store = .ok (strengthenExisting clock row reason status store, outcome) := by
  have hmem : row.id ∈ (strengthenRule row.id clock.now store.skills).keys := by
    rw [strengthenRule, KeyedTable.keys_update]
    exact KeyedTable.mem_keys.mpr ⟨row, hrow, rfl⟩
  obtain ⟨skill, hskill, hid⟩ := KeyedTable.mem_keys.mp hmem
  have hfetch := fetchSkillRowById_eq_ok.mpr (KeyedTable.find_eq_some.mpr ⟨hskill, hid⟩)
  simp only [Rung.apply, strengthenExisting, hfetch, bind, Except.bind, pure, Except.pure]
  exact ⟨_, rfl⟩

theorem mem_strengthenRule_active {draft : SkillRow} (hdraft : draft ∈ skills.rows)
    (hpending : draft.status = .pending) (hactive : row.status = .active) (now : Stamp) :
    row ∈ (strengthenRule draft.id now skills).rows ↔ row ∈ skills.rows := by
  rw [strengthenRule, KeyedTable.mem_update]
  constructor
  · rintro ⟨old, hold, hrow⟩
    split at hrow
    next hid =>
      have hsame := KeyedTable.eq_of_key hold hdraft (of_decide_eq_true hid)
      rw [← hrow] at hactive
      rw [hsame] at hactive
      simp [hpending] at hactive
    next => exact hrow ▸ hold
  · intro hrow
    refine ⟨row, hrow, ?_⟩
    have hother : ¬ row.id = draft.id := by
      intro hid
      rw [KeyedTable.eq_of_key hrow hdraft hid, hpending] at hactive
      contradiction
    simp [hother]

theorem Rung.tierKept {rung : Rung} (hof : rung.Of .pending store.skills)
    (happly : rung.apply clock .pending origin store = .ok (after, outcome)) :
    TierKept store after outcome := by
  cases rung with
  | matchedActive row =>
    obtain ⟨hrow, hactive, _⟩ := hof
    obtain ⟨rfl, -, -, hfound⟩ := apply_matchedActive happly
    obtain ⟨hskill, hid⟩ := KeyedTable.find_eq_some.mp hfound
    obtain rfl := KeyedTable.eq_of_key hskill hrow hid
    exact ⟨fun _ _ => Iff.rfl, .inr ⟨hskill, hactive, rfl⟩⟩
  | strengthen row reason windowHit =>
    obtain ⟨hrow, hpending⟩ := hof
    obtain ⟨rfl, -, -, hfound⟩ := apply_strengthen happly
    refine ⟨fun other hactive => mem_strengthenRule_active hrow hpending hactive clock.now,
      .inl ⟨(KeyedTable.find_eq_some.mp hfound).1, ?_⟩⟩
    rw [strengthenRule, KeyedTable.find_update] at hfound
    obtain ⟨old, hold, hskill⟩ := Option.map_eq_some_iff.mp hfound
    obtain ⟨hmem, hid⟩ := KeyedTable.find_eq_some.mp hold
    obtain rfl := KeyedTable.eq_of_key hmem hrow hid
    rw [← hskill]
    split
    · exact hpending
    · exact hpending

theorem rows_rememberRule {now : Stamp} (hfresh : rule.id ∉ skills.keys) :
    (rememberRule library.toLibrary rule now skills).rows =
      skills.rows ++ [rule.newRow library.toLibrary now] := by
  have hkey : (rule.newRow library.toLibrary now).id ∉ skills.keys := hfresh
  rw [rememberRule, KeyedTable.insertOrIgnore, dif_neg hkey]

theorem insertFresh_eq_ok
    (hinsert : insertFresh library clock input status origin rule store = .ok (after, outcome)) :
    rule.id ∉ store.skills.keys ∧
      after.skills = rememberRule library.toLibrary rule clock.now store.skills ∧
      after.rejected = store.rejected ∧
      outcome.skill = rule.newRow library.toLibrary clock.now ∧ outcome.deduped = false := by
  unfold insertFresh at hinsert
  by_cases htaken : rule.id ∈ store.skills.keys
  · simp [htaken, bind, Except.bind, throw, throwThe, MonadExceptOf.throw] at hinsert
  · have hkey : (rule.newRow library.toLibrary clock.now).id = rule.id := rfl
    have hfind : (rememberRule library.toLibrary rule clock.now store.skills).find rule.id =
        some (rule.newRow library.toLibrary clock.now) := by
      rw [KeyedTable.find_eq_some, rows_rememberRule htaken]
      exact ⟨List.mem_append_right _ (List.mem_singleton_self _), hkey⟩
    have hfetch := fetchSkillRowById_eq_ok.mpr hfind
    simp only [htaken, if_false, bind, Except.bind, pure, Except.pure, hfetch, Except.ok.injEq,
      Prod.mk.injEq] at hinsert
    obtain ⟨rfl, rfl⟩ := hinsert
    exact ⟨htaken, rfl, rfl, rfl, rfl⟩

theorem insertFresh_of_fresh {origin : Text} {rule : RememberedRule}
    (hfresh : rule.id ∉ store.skills.keys) :
    ∃ after outcome, insertFresh library clock input status origin rule store =
      .ok (after, outcome) := by
  have hfind : (rememberRule library.toLibrary rule clock.now store.skills).find rule.id =
      some (rule.newRow library.toLibrary clock.now) := by
    rw [KeyedTable.find_eq_some, rows_rememberRule hfresh]
    exact ⟨List.mem_append_right _ (List.mem_singleton_self _), rfl⟩
  have hfetch := fetchSkillRowById_eq_ok.mpr hfind
  unfold insertFresh
  simp only [hfresh, if_false, bind, Except.bind, pure, Except.pure, hfetch]
  exact ⟨_, _, rfl⟩

theorem insertFresh_of_taken {origin : Text} (htaken : rule.id ∈ store.skills.keys) :
    ∃ err, insertFresh library clock input status origin rule store = .error err := by
  refine ⟨takenIdError rule.id, ?_⟩
  simp [insertFresh, htaken, bind, Except.bind, throw, throwThe, MonadExceptOf.throw]

theorem insertFresh_unmatched
    (hinsert : insertFresh library clock input status origin rule store = .ok (after, outcome)) :
    outcome.matchedExistingActive = false := by
  have hfresh := (insertFresh_eq_ok hinsert).1
  unfold insertFresh at hinsert
  cases hfetch : fetchSkillRowById rule.id
      (rememberRule library.toLibrary rule clock.now store.skills) with
  | error err => simp [hfresh, hfetch, bind, Except.bind] at hinsert
  | ok skill =>
    simp only [hfresh, if_false, hfetch, bind, Except.bind, pure, Except.pure, Except.ok.injEq,
      Prod.mk.injEq] at hinsert
    rw [← hinsert.2]

theorem insertFresh_tierKept (hpending : rule.status = .pending)
    (hinsert : insertFresh library clock input .pending origin rule store = .ok (after, outcome)) :
    TierKept store after outcome := by
  obtain ⟨hfresh, hskills, _, hskill, _⟩ := insertFresh_eq_ok hinsert
  have hrows : after.skills.rows =
      store.skills.rows ++ [rule.newRow library.toLibrary clock.now] := by
    rw [hskills, rows_rememberRule hfresh]
  constructor
  · intro row hactive
    rw [hrows, List.mem_append, List.mem_singleton, or_iff_left]
    rintro rfl
    have hstatus : (rule.newRow library.toLibrary clock.now).status = rule.status := rfl
    rw [hstatus, hpending] at hactive
    contradiction
  · refine .inl ⟨?_, ?_⟩
    · rw [hrows, hskill]
      exact List.mem_append_right _ (List.mem_singleton_self _)
    · rw [hskill]
      exact hpending

theorem rememberInner_rows {library : RememberLibrary}
    (hcall : rememberInner library clock input confidenceOverride status sourceRepo sourceKind
      store = .ok (after, outcome)) :
    trim input.body ≠ [] ∧ ∃ slug, safeSlug (trim input.title) = some slug ∧
      ((∃ rung, findExisting library clock input status (sourceRepo.map RepoScope.value) slug
            (input.origin.getD conversation) (rememberSignatureHash library input) store.skills =
          some rung ∧
        rung.apply clock status (input.origin.getD conversation) store = .ok (after, outcome)) ∨
      (findExisting library clock input status (sourceRepo.map RepoScope.value) slug
            (input.origin.getD conversation) (rememberSignatureHash library input) store.skills =
          none ∧
        insertFresh library clock input status (input.origin.getD conversation)
          (freshRule library clock input confidenceOverride status
            (sourceRepo.map RepoScope.value) sourceKind slug (input.origin.getD conversation)
            (rememberSignatureHash library input)) store = .ok (after, outcome))) := by
  unfold rememberInner at hcall
  cases hvalid : validateRememberInput input with
  | error err => simp [hvalid, bind, Except.bind] at hcall
  | ok _ =>
    have hbody : trim input.body ≠ [] := by
      intro hblank
      unfold validateRememberInput at hvalid
      simp only [hblank, if_true] at hvalid
      split at hvalid <;> contradiction
    cases hslug : safeSlug (trim input.title) with
    | none =>
      simp [hvalid, hslug, bind, Except.bind, throw, throwThe, MonadExceptOf.throw] at hcall
    | some slug =>
      cases hlimit : enforceRememberRateLimit clock (input.origin.getD conversation) store with
      | error err => simp [hvalid, hslug, hlimit, bind, Except.bind] at hcall
      | ok _ =>
        simp only [hvalid, hslug, hlimit, bind, Except.bind] at hcall
        refine ⟨hbody, slug, rfl, ?_⟩
        split at hcall
        next rung hfind => exact .inl ⟨rung, hfind, hcall⟩
        next hnone => exact .inr ⟨hnone, hcall⟩

theorem rememberInner_accepted {library : RememberLibrary} {slug : Text}
    (hvalid : validateRememberInput input = .ok ())
    (hslug : safeSlug (trim input.title) = some slug)
    (horigin : input.origin.getD conversation ≠ conversation) :
    rememberInner library clock input confidenceOverride status sourceRepo sourceKind store =
      match findExisting library clock input status (sourceRepo.map RepoScope.value) slug
        (input.origin.getD conversation) (rememberSignatureHash library input) store.skills with
      | some rung => rung.apply clock status (input.origin.getD conversation) store
      | none => insertFresh library clock input status (input.origin.getD conversation)
          (freshRule library clock input confidenceOverride status
            (sourceRepo.map RepoScope.value) sourceKind slug (input.origin.getD conversation)
            (rememberSignatureHash library input)) store := by
  unfold rememberInner
  simp [hvalid, hslug, horigin, enforceRememberRateLimit, bind, Except.bind] <;> rfl

theorem rememberInner_refused {library : RememberLibrary}
    (hrefused : ¬ (validateRememberInput input = .ok () ∧ (safeSlug (trim input.title)).isSome)) :
    ∃ err, rememberInner library clock input confidenceOverride status sourceRepo sourceKind
      store = .error err := by
  unfold rememberInner
  cases hvalid : validateRememberInput input with
  | error err => exact ⟨err, rfl⟩
  | ok _ =>
    cases hslug : safeSlug (trim input.title) with
    | none => exact ⟨emptySlugError, by simp [bind, Except.bind, throw, throwThe,
        MonadExceptOf.throw]⟩
    | some slug => exact absurd ⟨hvalid, by simp [hslug]⟩ hrefused

theorem rememberInner_cases
    (hcall : rememberInner library clock input confidenceOverride status sourceRepo sourceKind
      store = .ok (after, outcome)) :
    ∃ slug, let origin := input.origin.getD conversation
      let repo := sourceRepo.map RepoScope.value
      let contentHash := rememberSignatureHash library input
      (∃ rung, findExisting library clock input status repo slug origin contentHash store.skills =
        some rung ∧ rung.apply clock status origin store = .ok (after, outcome)) ∨
      insertFresh library clock input status origin (freshRule library clock input
        confidenceOverride status repo sourceKind slug origin contentHash) store =
          .ok (after, outcome) := by
  obtain ⟨-, slug, -, hfound | ⟨-, hinsert⟩⟩ := rememberInner_rows hcall
  · exact ⟨slug, .inl hfound⟩
  · exact ⟨slug, .inr hinsert⟩

/-- A draft leaves every active row as it was, and returns a draft or an active row that it
did not touch. -/
theorem rememberInner_tierKept {library : RememberLibrary}
    (hcall : rememberInner library clock input confidenceOverride .pending sourceRepo sourceKind
      store = .ok (after, outcome)) : TierKept store after outcome := by
  obtain ⟨slug, ⟨rung, hfind, happly⟩ | hinsert⟩ := rememberInner_cases hcall
  · exact Rung.tierKept (allOf_findExisting clock input .pending _ slug _ _ rung hfind) happly
  · exact insertFresh_tierKept rfl hinsert

theorem rememberFailing_cases (faults : RememberFaults)
    (call : RuleStore → Except Text (RuleStore × RememberOutcome)) (store : RuleStore) :
    (∃ err, rememberFailing faults call store = (.error err, store)) ∨
      ∃ after outcome, call store = .ok (after, outcome) ∧
        ((∃ err torn, rememberFailing faults call store = (.error err, torn) ∧
            torn.skills = after.skills) ∨
          rememberFailing faults call store = (.ok outcome, after)) := by
  unfold rememberFailing
  split
  next err _ => exact .inl ⟨err, rfl⟩
  next after outcome hcall =>
    split
    next => exact .inl ⟨_, rfl⟩
    next => exact .inr ⟨after, outcome, hcall, .inl ⟨_, _, rfl, rfl⟩⟩
    next => exact .inr ⟨after, outcome, hcall, .inl ⟨_, _, rfl, rfl⟩⟩
    next => exact .inr ⟨after, outcome, hcall, .inr rfl⟩

theorem rememberFailing_of_written (faults : RememberFaults)
    {call : RuleStore → Except Text (RuleStore × RememberOutcome)}
    (hcall : call store = .ok (after, outcome)) (hwritten : outcome.matchedExistingActive = false) :
    (faults.write ≠ none ∧ ∃ err, rememberFailing faults call store = (.error err, store)) ∨
    (faults.write = none ∧ ¬ (faults.recordEvent = none ∧ faults.fetch = none) ∧
      ∃ err torn, rememberFailing faults call store = (.error err, torn) ∧
        torn.skills = after.skills) ∨
    ((faults.write = none ∧ faults.recordEvent = none ∧ faults.fetch = none) ∧
      rememberFailing faults call store = (.ok outcome, after)) := by
  unfold rememberFailing
  rw [hcall]
  simp only [hwritten]
  cases faults.write <;> cases faults.recordEvent <;> cases faults.fetch <;> simp [Option.filter]

def twoLetters : RememberLibrary where
  jsonStrings _ := some []
  printStrings _ := emptyListJson
  sha1Hex _ := []
  redactSecrets input := input
  sha256Hex _ := "562b08f11a8ba4f9c0560b7648caea5a009c9d24f3aa61e6ee7d80fb9fa6df41"

def reviewInput : RememberRuleInput where
  title := ['t']
  body := ['b']
  filePatterns := none
  badCode := none
  goodCode := none
  kind := none
  category := none
  origin := some prReviewOrigin
  capturedByClient := none

def noon : CallClock where
  now := []
  nowMs := 0
  localDay := id
  idSuffix := ['0']

def reviewedStore (contentHash : Text) : RuleStore where
  skills := KeyedTable.empty.insertOrIgnore
    { id := ['r']
      name := ['t']
      source := localSource
      version := firstVersion
      description := ['b']
      origin := prReviewOrigin
      contentHash := some contentHash
      installedAt := []
      updatedAt := [] }
  events := []
  examples := []
  rejected := []

def matchesActive : Except Text (RuleStore × RememberOutcome) → Bool
  | .ok (_, outcome) => outcome.matchedExistingActive
  | .error _ => false

theorem rememberInner_tierKept_matched :
    ∃ after outcome, rememberInner twoLetters noon reviewInput none .pending none none
        (reviewedStore (twoLetters.sha256Hex [])) = .ok (after, outcome) ∧
      outcome.matchedExistingActive = true ∧
      TierKept (reviewedStore (twoLetters.sha256Hex [])) after outcome := by
  have hmatched : matchesActive (rememberInner twoLetters noon reviewInput none .pending none none
      (reviewedStore (twoLetters.sha256Hex []))) = true := by decide
  cases hcall : rememberInner twoLetters noon reviewInput none .pending none none
      (reviewedStore (twoLetters.sha256Hex [])) with
  | error err => simp [hcall, matchesActive] at hmatched
  | ok result =>
    obtain ⟨after, outcome⟩ := result
    rw [hcall] at hmatched
    exact ⟨after, outcome, rfl, hmatched, rememberInner_tierKept hcall⟩

end Difflore.Skills

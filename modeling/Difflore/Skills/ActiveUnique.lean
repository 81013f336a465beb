import Difflore.Foundation.Interleaving
import Difflore.Skills.RuleStatements

/-! # Is an active rule the only one of its content?

Promotions and active captures check for an active rule of their content and then write. If no such
rule became active in between, the one that they write is the only one of its repository. The check
of a promotion looks at every repository.
-/

namespace Difflore.Skills

open Foundation Text Foundation.Service Infra Context

def Governs (row : SkillRow) : Prop := row.status = .active ∧ row.origin ≠ conversation

def loweredRepo (repo : Option Text) : Option Text := repo.map toAsciiLowercase

def SameRepo (row other : SkillRow) : Prop :=
  loweredRepo row.sourceRepo = loweredRepo other.sourceRepo

/-- Of the active rules of a repository, no two have one content hash. -/
def ActiveUnique (skills : SkillTable) : Prop :=
  ∀ row ∈ skills.rows, ∀ other ∈ skills.rows, Governs row → Governs other → SameRepo row other →
    row.contentHash.isSome → row.contentHash = other.contentHash → row = other

inductive RuleCall
  | promote (id : Text)
  | remember (capture : ActiveCapture)

/-- What a call has read: the draft, and after a check that found nothing the active rules at the
time of it. -/
inductive CheckPhase
  | fresh
  | draft (id : Text) (row : SkillRow)
  | unmatched (id : Text) (row : SkillRow) (hash : Text) (seen : List Text)
  | refused (id : Text) (row active : SkillRow)
  | new (hash : Text) (repo : Option Text) (seen : List Text)

def activeIds (skills : SkillTable) : List Text :=
  (skills.rows.filter fun row => row.status = .active).map SkillRow.id

def observeCheck (store : RuleStore) (phase : CheckPhase) :
    (query : RuleQuery) → query.Answer → CheckPhase
  | .draft id, some row => .draft id row
  | .activeContent hash, answer =>
    match phase, answer with
    | .draft id row, some active => .refused id row active
    | .draft id row, none => .unmatched id row hash (activeIds store.skills)
    | other, _ => other
  | .content hash repo, none => .new hash repo (activeIds store.skills)
  | _, _ => phase

def RuleCall.program (library : RememberLibrary) : RuleCall → RuleProgram
  | .promote id => promoteProgram id
  | .remember capture => capture.program library

def ruleService (library : RememberLibrary) : Service RuleQuery RuleQuery.Answer RuleResult RuleCall
    RuleStore CheckPhase Unit where
  program := RuleCall.program library
  enter := fun _ _ => .fresh
  serve := fun store _ _ query => some (serveRule library store query)
  observe := observeCheck
  finish := fun store _ _ => store

abbrev RuleWorld (Process : Type) :=
  World RuleQuery RuleQuery.Answer RuleResult RuleCall RuleStore CheckPhase Process

/-- No rule of the content and repository has become active since the check. -/
def NoRival (skills : SkillTable) (hash : Text) (repo : Option Text) (seen : List Text) : Prop :=
  ∀ other ∈ skills.rows, Governs other → loweredRepo other.sourceRepo = loweredRepo repo →
    other.contentHash = some hash → other.id ∈ seen

/-- A draft that is compared has a hash that is neither blank nor padded, and a rule of its content
is active in its repository if one is active anywhere. Whoever writes has no rival since the
check. -/
def Unraced {Process : Type} (world : RuleWorld Process) : Move Process RuleCall Unit → Prop
  | .serve process _ => ∀ call phase query resume,
      world.tasks process = some ⟨call, phase, .ask query resume⟩ →
      match phase, query with
      | .draft _ row, .activeContent hash =>
        (∃ active ∈ world.shared.skills.rows, activeWith hash active = true) →
          ∃ active ∈ world.shared.skills.rows, activeWith hash active = true ∧ SameRepo row active
      | .draft _ row, .activate _ => row.origin ≠ conversation → row.contentHash = none
      | .unmatched _ row hash seen, .activate _ => row.origin ≠ conversation →
          row.contentHash = some hash ∧ NoRival world.shared.skills hash row.sourceRepo seen
      | .new hash _ seen, .insert rule _ => rule.origin ≠ conversation →
          NoRival world.shared.skills hash rule.sourceRepo seen
      | _, _ => True
  | _ => True

/-- The columns that a statement keeps; an active rule stays active. -/
structure SameCore (old new : SkillRow) : Prop where
  id : new.id = old.id
  origin : new.origin = old.origin
  contentHash : new.contentHash = old.contentHash
  sourceRepo : new.sourceRepo = old.sourceRepo
  active : old.status = .active → new.status = .active

theorem sameCore_refl (row : SkillRow) : SameCore row row :=
  ⟨rfl, rfl, rfl, rfl, fun hactive => hactive⟩

section Statements

variable {library : RememberLibrary} {store : RuleStore}

theorem rows_serveRule (store : RuleStore) (query : RuleQuery)
    (hinsert : ∀ rule now, query ≠ .insert rule now) :
    ∃ f : SkillRow → SkillRow, (∀ row, SameCore row (f row)) ∧
      (serveRule library store query).2.skills.rows = store.skills.rows.map f := by
  have hsame : ∃ f : SkillRow → SkillRow, (∀ row, SameCore row (f row)) ∧
      store.skills.rows = store.skills.rows.map f :=
    ⟨id, sameCore_refl, (List.map_id _).symm⟩
  cases query with
  | activate id =>
    simp only [serveRule]
    split
    · refine ⟨_, fun row => ?_, rfl⟩
      split
      · exact ⟨rfl, rfl, rfl, rfl, fun _ => rfl⟩
      · exact sameCore_refl row
    · exact hsame
  | setScore id score now =>
    refine ⟨_, fun row => ?_, rfl⟩
    split
    · exact ⟨rfl, rfl, rfl, rfl, fun hactive => hactive⟩
    · exact sameCore_refl row
  | insert rule now => exact absurd rfl (hinsert rule now)
  | _ => exact hsame

end Statements

/-- Every row is kept in its core, and a row that is not an old one has a new id. -/
structure Evolved (skills after : SkillTable) : Prop where
  kept : ∀ row ∈ skills.rows, ∃ new ∈ after.rows, SameCore row new
  old : ∀ new ∈ after.rows, (∃ row ∈ skills.rows, SameCore row new) ∨ new.id ∉ skills.keys

theorem evolved_serve (store : RuleStore) (query : RuleQuery) :
    Evolved store.skills (serveRule library store query).2.skills := by
  by_cases hinsert : ∃ rule now, query = .insert rule now
  · obtain ⟨rule, now, rfl⟩ := hinsert
    by_cases htaken : rule.id ∈ store.skills.keys
    · simp only [serveRule, htaken, if_true]
      exact ⟨fun row hrow => ⟨row, hrow, sameCore_refl row⟩,
        fun new hnew => .inl ⟨new, hnew, sameCore_refl new⟩⟩
    · have hrows : (rememberRule library.toLibrary rule now store.skills).rows =
          store.skills.rows ++ [rule.newRow library.toLibrary now] := rows_rememberRule htaken
      simp only [serveRule, htaken, if_false]
      refine ⟨fun row hrow => ⟨row, ?_, sameCore_refl row⟩, fun new hnew => ?_⟩
      · rw [hrows]
        exact List.mem_append_left _ hrow
      · rw [hrows] at hnew
        rcases List.mem_append.mp hnew with hold | hfresh
        · exact .inl ⟨new, hold, sameCore_refl new⟩
        · obtain rfl := List.mem_singleton.mp hfresh
          exact .inr htaken
  · obtain ⟨f, hcore, hrows⟩ : ∃ f : SkillRow → SkillRow, (∀ row, SameCore row (f row)) ∧
        (serveRule library store query).2.skills.rows = store.skills.rows.map f :=
      rows_serveRule store query fun rule now hquery => hinsert ⟨rule, now, hquery⟩
    refine ⟨fun row hrow => ?_, fun new hnew => ?_⟩
    · exact ⟨f row, hrows ▸ List.mem_map_of_mem hrow, hcore row⟩
    · rw [hrows] at hnew
      obtain ⟨row, hrow, rfl⟩ := List.mem_map.mp hnew
      exact .inl ⟨row, hrow, hcore row⟩

theorem Evolved.keys {skills after : SkillTable} (hevolved : Evolved skills after) {id : Text}
    (hid : id ∈ skills.keys) : id ∈ after.keys := by
  obtain ⟨row, hrow, rfl⟩ := KeyedTable.mem_keys.mp hid
  obtain ⟨new, hnew, hcore⟩ := hevolved.kept row hrow
  exact KeyedTable.mem_keys.mpr ⟨new, hnew, hcore.id⟩

def Recorded (skills : SkillTable) (id : Text) (row : SkillRow) : Prop :=
  row.id = id ∧ ∃ current ∈ skills.rows, SameCore row current

def SeenFree (skills : SkillTable) (seen : List Text) (hit : SkillRow → Prop) : Prop :=
  (∀ id ∈ seen, id ∈ skills.keys) ∧ ∀ other ∈ skills.rows, other.id ∈ seen → ¬ hit other

def CheckStable (skills : SkillTable) : CheckPhase → Prop
  | .fresh => True
  | .draft id row => Recorded skills id row
  | .unmatched id row hash seen => Recorded skills id row ∧
      SeenFree skills seen fun other => other.contentHash = some hash
  | .refused id row _ => Recorded skills id row ∧ ∃ hash ∈ draftHash row,
      ∃ other ∈ skills.rows, activeWith hash other = true ∧ SameRepo row other
  | .new hash repo seen => SeenFree skills seen fun other => other.contentHash = some hash ∧
      loweredRepo other.sourceRepo = loweredRepo repo ∧ other.origin ≠ conversation

def CheckPermits (phase : CheckPhase) : RuleQuery → Prop
  | .activeContent hash => ∃ id row, phase = .draft id row ∧ draftHash row = some hash
  | .activate id => (∃ row, phase = .draft id row ∧ draftHash row = none) ∨
      ∃ row hash seen, phase = .unmatched id row hash seen ∧ draftHash row = some hash
  | .insert rule _ => rule.origin = conversation ∨
      ∃ seen, phase = .new rule.contentHash rule.sourceRepo seen
  | _ => True

def CheckReturns (call : RuleCall) (phase : CheckPhase) (result : RuleResult) : Prop :=
  ∀ activeId, result = .refused activeId →
    ∃ id row active, call = .promote id ∧ phase = .refused id row active

def activeOutline : Outline RuleQuery RuleResult RuleCall RuleStore CheckPhase where
  good := fun store => ActiveUnique store.skills
  stable := fun store => CheckStable store.skills
  permits := fun _ => CheckPermits
  returns := CheckReturns

section Stable

variable {skills after : SkillTable}

theorem SameCore.trans {first second third : SkillRow} (hfirst : SameCore first second)
    (hsecond : SameCore second third) : SameCore first third where
  id := hsecond.id.trans hfirst.id
  origin := hsecond.origin.trans hfirst.origin
  contentHash := hsecond.contentHash.trans hfirst.contentHash
  sourceRepo := hsecond.sourceRepo.trans hfirst.sourceRepo
  active hactive := hsecond.active (hfirst.active hactive)

theorem Recorded.evolve {id : Text} {row : SkillRow} (hrecorded : Recorded skills id row)
    (hevolved : Evolved skills after) : Recorded after id row := by
  obtain ⟨hid, current, hcurrent, hcore⟩ := hrecorded
  obtain ⟨new, hnew, hlater⟩ := hevolved.kept current hcurrent
  exact ⟨hid, new, hnew, hcore.trans hlater⟩

theorem SeenFree.evolve {seen : List Text} {hit : SkillRow → Prop}
    (hhit : ∀ row new, SameCore row new → hit new → hit row)
    (hfree : SeenFree skills seen hit) (hevolved : Evolved skills after) :
    SeenFree after seen hit := by
  refine ⟨fun id hid => hevolved.keys (hfree.1 id hid), fun new hnew hseen hmatch => ?_⟩
  rcases hevolved.old new hnew with ⟨row, hrow, hcore⟩ | hfresh
  · exact hfree.2 row hrow (hcore.id ▸ hseen) (hhit row new hcore hmatch)
  · exact hfresh (hfree.1 new.id hseen)

theorem CheckStable.evolve {phase : CheckPhase} (hstable : CheckStable skills phase)
    (hevolved : Evolved skills after) : CheckStable after phase := by
  cases phase with
  | fresh => trivial
  | draft id row => exact Recorded.evolve hstable hevolved
  | unmatched id row hash seen =>
    refine ⟨hstable.1.evolve hevolved, hstable.2.evolve (fun row new hcore hmatch => ?_) hevolved⟩
    exact hcore.contentHash ▸ hmatch
  | refused id row active =>
    obtain ⟨hrecorded, hash, hhash, other, hother, hactive, hrepo⟩ := hstable
    obtain ⟨new, hnew, hcore⟩ := hevolved.kept other hother
    simp only [activeWith, Bool.and_eq_true, decide_eq_true_eq] at hactive
    refine ⟨hrecorded.evolve hevolved, hash, hhash, new, hnew, ?_, ?_⟩
    · simp [activeWith, hcore.active hactive.1, hcore.contentHash, hactive.2]
    · rw [SameRepo, hcore.sourceRepo]
      exact hrepo
  | new hash repo seen =>
    refine SeenFree.evolve (fun row new hcore hmatch => ?_) hstable hevolved
    rwa [hcore.contentHash, hcore.sourceRepo, hcore.origin] at hmatch

theorem active_of_mem_activeIds {row : SkillRow} (hrow : row ∈ skills.rows)
    (hid : row.id ∈ activeIds skills) : row.status = .active := by
  obtain ⟨other, hother, hsame⟩ := List.mem_map.mp hid
  obtain ⟨hother, hactive⟩ := List.mem_filter.mp hother
  obtain rfl := KeyedTable.eq_of_key hother hrow hsame
  exact of_decide_eq_true hactive

theorem seenFree_activeIds {hit : SkillRow → Prop}
    (hfree : ∀ row ∈ skills.rows, row.status = .active → ¬ hit row) :
    SeenFree skills (activeIds skills) hit := by
  refine ⟨fun id hid => ?_, fun row hrow hid => hfree row hrow (active_of_mem_activeIds hrow hid)⟩
  obtain ⟨row, hrow, rfl⟩ := List.mem_map.mp hid
  exact KeyedTable.mem_keys.mpr ⟨row, (List.mem_filter.mp hrow).1, rfl⟩

end Stable

/-! ## The programs follow the outline -/

section Programs

variable {library : RememberLibrary}

abbrev Checks (library : RememberLibrary) (post : CheckPhase → RuleResult → Prop) :
    CheckPhase → RuleProgram → Prop :=
  Follows (ruleService library) CheckPermits post

def NotRefused (_ : CheckPhase) (result : RuleResult) : Prop :=
  ∀ activeId, result ≠ .refused activeId

theorem checkReturns_of_notRefused {call : RuleCall} {phase : CheckPhase} {result : RuleResult}
    (hresult : NotRefused phase result) : CheckReturns call phase result :=
  fun activeId hrefused => absurd hrefused (hresult activeId)

theorem explainDraft_follows (id : Text) (phase : CheckPhase) :
    Checks library NotRefused phase (explainDraft id) :=
  ⟨trivial, fun _ _ _ hrefused => nomatch hrefused⟩

theorem activateProgram_follows {id : Text} {phase : CheckPhase}
    (hpermits : CheckPermits phase (.activate id)) :
    Checks library NotRefused phase (activateProgram id) := by
  refine ⟨hpermits, fun _ answer => ?_⟩
  cases answer with
  | some skill => exact fun activeId hrefused => nomatch hrefused
  | none => exact explainDraft_follows id phase

theorem promoteProgram_follows (id : Text) :
    Checks library (CheckReturns (.promote id)) .fresh (promoteProgram id) := by
  refine ⟨trivial, fun _ answer => ?_⟩
  cases answer with
  | none => exact (explainDraft_follows id .fresh).mono fun _ _ => checkReturns_of_notRefused
  | some row =>
    change Checks library _ (.draft id row) _
    dsimp only
    cases hhash : draftHash row with
    | none =>
      exact (activateProgram_follows (.inl ⟨row, rfl, hhash⟩)).mono
        fun _ _ => checkReturns_of_notRefused
    | some hash =>
      refine ⟨⟨id, row, rfl, hhash⟩, fun store answer => ?_⟩
      cases answer with
      | some active =>
        intro activeId _
        exact ⟨id, row, active, rfl, rfl⟩
      | none =>
        exact (activateProgram_follows (.inr ⟨row, hash, _, rfl, hhash⟩)).mono
          fun _ _ => checkReturns_of_notRefused

theorem countCaptures_follows {clock : CallClock} {origin : Text} {next : Nat → RuleProgram}
    {phase : CheckPhase} (hnext : ∀ captures, Checks library NotRefused phase (next captures)) :
    Checks library NotRefused phase (countCaptures clock origin next) := by
  unfold countCaptures
  split
  · exact hnext 0
  · exact ⟨trivial, fun _ captures => hnext captures⟩

theorem fetchRule_follows {id : Text} {next : SkillRow → RuleProgram} {phase : CheckPhase}
    (hnext : ∀ skill, Checks library NotRefused phase (next skill)) :
    Checks library NotRefused phase (fetchRule id next) := by
  refine ⟨trivial, fun _ answer => ?_⟩
  cases answer with
  | none => exact fun activeId hrefused => nomatch hrefused
  | some skill => exact hnext skill

theorem strengthenRow_follows (clock : CallClock) (origin : Text) (row : SkillRow) (reason : Text)
    (windowHit : Bool) (phase : CheckPhase) :
    Checks library NotRefused phase (strengthenRow clock origin row reason windowHit) := by
  refine ⟨trivial, fun _ answer => ?_⟩
  cases answer with
  | none => exact fun activeId hrefused => nomatch hrefused
  | some before =>
    refine ⟨trivial, fun _ _ => ⟨trivial, fun _ _ => ?_⟩⟩
    exact fetchRule_follows fun skill => countCaptures_follows fun captures =>
      fun activeId hrefused => nomatch hrefused

theorem insertRule_follows {clock : CallClock} {origin : Text} {rule : RememberedRule}
    {examples : List RuleExample} {phase : CheckPhase}
    (hpermits : CheckPermits phase (.insert rule clock.now)) :
    Checks library NotRefused phase (insertRule clock origin rule examples) := by
  refine ⟨hpermits, fun _ answer => ?_⟩
  cases answer with
  | false => exact fun activeId hrefused => nomatch hrefused
  | true =>
    refine ⟨trivial, fun _ _ => ⟨trivial, fun _ _ => ?_⟩⟩
    exact fetchRule_follows fun skill => countCaptures_follows fun captures =>
      fun activeId hrefused => nomatch hrefused

theorem windowProgram_follows {capture : ActiveCapture} {slug : Text} {phase : CheckPhase}
    (hpermits : CheckPermits phase (.insert (capture.rule library slug) capture.clock.now)) :
    Checks library NotRefused phase (capture.windowProgram library slug) := by
  refine ⟨trivial, fun _ answer => ?_⟩
  cases answer with
  | some row => exact strengthenRow_follows ..
  | none =>
    refine ⟨trivial, fun _ rows => ?_⟩
    dsimp only
    split
    · exact strengthenRow_follows ..
    · exact insertRule_follows hpermits

theorem ladderProgram_follows (capture : ActiveCapture) (slug : Text) :
    Checks library NotRefused .fresh (capture.ladderProgram library slug) := by
  unfold ActiveCapture.ladderProgram
  split
  next =>
    refine ⟨trivial, fun store answer => ?_⟩
    cases answer with
    | some row => exact strengthenRow_follows ..
    | none => exact windowProgram_follows (.inr ⟨_, rfl⟩)
  next horigin => exact windowProgram_follows (.inl (not_not.mp horigin))

theorem captureProgram_follows (capture : ActiveCapture) :
    Checks library NotRefused .fresh (capture.program library) := by
  unfold ActiveCapture.program
  split
  next => exact fun activeId hrefused => nomatch hrefused
  next =>
    split
    next => exact fun activeId hrefused => nomatch hrefused
    next slug _ =>
      refine countCaptures_follows fun captures => ?_
      split
      next => exact fun activeId hrefused => nomatch hrefused
      next => exact ladderProgram_follows capture slug

theorem ruleProgram_follows (call : RuleCall) :
    Checks library (CheckReturns call) .fresh (call.program library) := by
  cases call with
  | promote id => exact promoteProgram_follows id
  | remember capture =>
    exact (captureProgram_follows capture).mono fun _ _ => checkReturns_of_notRefused

end Programs

section Unique

variable {library : RememberLibrary} {skills : SkillTable}

theorem ActiveUnique.update {condition : SkillRow → Bool} {set : SkillRow → SkillRow}
    (hset : ∀ row, (set row).id = row.id) (hunique : ActiveUnique skills)
    (hstatus : ∀ row, (set row).status = row.status) (hcore : ∀ row, SameCore row (set row)) :
    ActiveUnique (skills.update condition set hset) := by
  have hchange : ∀ row, SameCore row (if condition row then set row else row) ∧
      (if condition row then set row else row).status = row.status := by
    intro row
    split
    · exact ⟨hcore row, hstatus row⟩
    · exact ⟨sameCore_refl row, rfl⟩
  intro new hnew newOther hnewOther hgoverns hotherGoverns hrepo hsome hhash
  obtain ⟨row, hrow, rfl⟩ := KeyedTable.mem_update.mp hnew
  obtain ⟨other, hother, rfl⟩ := KeyedTable.mem_update.mp hnewOther
  obtain ⟨hrowCore, hrowStatus⟩ := hchange row
  obtain ⟨hotherCore, hotherStatus⟩ := hchange other
  rw [Governs, hrowStatus, hrowCore.origin] at hgoverns
  rw [Governs, hotherStatus, hotherCore.origin] at hotherGoverns
  rw [SameRepo, hrowCore.sourceRepo, hotherCore.sourceRepo] at hrepo
  rw [hrowCore.contentHash] at hsome hhash
  rw [hotherCore.contentHash] at hhash
  rw [hunique row hrow other hother hgoverns hotherGoverns hrepo hsome hhash]

theorem ActiveUnique.activate {id : Text} (hunique : ActiveUnique skills)
    (hfree : ∀ row ∈ skills.rows, row.id = id → row.origin ≠ conversation →
      row.contentHash.isSome → ∀ other ∈ skills.rows, Governs other → SameRepo row other →
        row.contentHash ≠ other.contentHash) : ActiveUnique (activateDraft id skills) := by
  have hrows : ∀ new ∈ (activateDraft id skills).rows, ∃ row ∈ skills.rows, new.id = row.id ∧
      new.origin = row.origin ∧ new.contentHash = row.contentHash ∧
      new.sourceRepo = row.sourceRepo ∧ (row.id = id ∨ new = row) := by
    intro new hnew
    obtain ⟨row, hrow, rfl⟩ := KeyedTable.mem_update.mp hnew
    refine ⟨row, hrow, ?_⟩
    split
    next hhit =>
      simp only [Bool.and_eq_true, decide_eq_true_eq] at hhit
      exact ⟨rfl, rfl, rfl, rfl, .inl hhit.1⟩
    next => exact ⟨rfl, rfl, rfl, rfl, .inr rfl⟩
  intro new hnew newOther hnewOther hgoverns hotherGoverns hrepo hsome hhash
  obtain ⟨row, hrow, hid, horigin, hrowHash, hrowRepo, hcase⟩ := hrows new hnew
  obtain ⟨other, hother, hotherId, hotherOrigin, hotherHash, hotherRepo, hotherCase⟩ :=
    hrows newOther hnewOther
  have hsame : row.id = other.id → new = newOther := fun heq =>
    KeyedTable.eq_of_key hnew hnewOther ((hid.trans heq).trans hotherId.symm)
  have horiginal : SameRepo row other := by rwa [SameRepo, ← hrowRepo, ← hotherRepo]
  rw [hrowHash] at hsome hhash
  rw [hotherHash] at hhash
  rcases hcase with hrowId | rfl
  · rcases hotherCase with hotherId' | rfl
    · exact hsame (hrowId.trans hotherId'.symm)
    · exact absurd hhash
        (hfree row hrow hrowId (horigin ▸ hgoverns.2) hsome newOther hother hotherGoverns horiginal)
  · rcases hotherCase with hotherId' | rfl
    · exact absurd hhash.symm (hfree other hother hotherId' (hotherOrigin ▸ hotherGoverns.2)
        (hhash ▸ hsome) new hrow hgoverns horiginal.symm)
    · exact hunique new hrow newOther hother hgoverns hotherGoverns hrepo hsome hhash

theorem ActiveUnique.insert {rule : RememberedRule} {now : Stamp} (hunique : ActiveUnique skills)
    (htaken : rule.id ∉ skills.keys)
    (hfree : rule.origin ≠ conversation → ∀ other ∈ skills.rows, Governs other →
      loweredRepo other.sourceRepo = loweredRepo rule.sourceRepo →
        other.contentHash ≠ some rule.contentHash) :
    ActiveUnique (rememberRule library.toLibrary rule now skills) := by
  intro row hrow other hother hgoverns hotherGoverns hrepo hsome hhash
  rw [rows_rememberRule htaken] at hrow hother
  rcases List.mem_append.mp hrow with hrow | hrow
  · rcases List.mem_append.mp hother with hother | hother
    · exact hunique row hrow other hother hgoverns hotherGoverns hrepo hsome hhash
    · obtain rfl := List.mem_singleton.mp hother
      exact absurd hhash (hfree hotherGoverns.2 row hrow hgoverns hrepo)
  · obtain rfl := List.mem_singleton.mp hrow
    rcases List.mem_append.mp hother with hother | hother
    · exact absurd hhash.symm (hfree hgoverns.2 other hother hotherGoverns hrepo.symm)
    · exact (List.mem_singleton.mp hother).symm

end Unique

/-! ## The outline is sound -/

section Sound

variable {library : RememberLibrary} {store : RuleStore} {phase : CheckPhase}

theorem inRepo_of_loweredRepo {repo : Option Text} {row : SkillRow}
    (hrepo : loweredRepo row.sourceRepo = loweredRepo repo) : inRepo repo row = true := by
  cases repo with
  | none => rfl
  | some incoming =>
    obtain ⟨stored, hstored, hsame⟩ := Option.map_eq_some_iff.mp hrepo
    simp [inRepo, hstored, eqIgnoreAsciiCase, hsame]

theorem checkStable_observe {asked : RuleQuery} (hstable : CheckStable store.skills phase)
    (hpermits : CheckPermits phase asked)
    (hguard : ∀ id row hash, phase = .draft id row → asked = .activeContent hash →
      (∃ active ∈ store.skills.rows, activeWith hash active = true) →
        ∃ active ∈ store.skills.rows, activeWith hash active = true ∧ SameRepo row active) :
    CheckStable (serveRule library store asked).2.skills
      (observeCheck store phase asked (serveRule library store asked).1) := by
  have hkept : CheckStable (serveRule library store asked).2.skills phase :=
    hstable.evolve (evolved_serve store asked)
  cases asked with
  | draft id =>
    simp only [serveRule] at hkept ⊢
    cases hfind : (store.skills.find id).filter fun row => row.status = .pending with
    | none => exact hkept
    | some row =>
      obtain ⟨hrow, hid⟩ := KeyedTable.find_eq_some.mp (Option.filter_eq_some_iff.mp hfind).1
      exact ⟨hid, row, hrow, sameCore_refl row⟩
  | activeContent hash =>
    obtain ⟨id, row, rfl, hhash⟩ := hpermits
    simp only [serveRule]
    cases hactive : (query oldestInstall (activeWith hash) store.skills).head? with
    | some active =>
      have hmem := (mem_query.mp (List.mem_of_mem_head? hactive))
      exact ⟨hstable, hash, hhash, hguard id row hash rfl rfl ⟨active, hmem.1, hmem.2⟩⟩
    | none =>
      refine ⟨hstable, seenFree_activeIds fun other hother hstatus hmatch => ?_⟩
      refine head?_query_eq_none.mp hactive other hother ?_
      simp [activeWith, hstatus, hmatch]
  | content hash repo =>
    simp only [serveRule] at hkept ⊢
    cases hfind : findByContentHash hash .active repo store.skills with
    | some row => exact hkept
    | none =>
      refine seenFree_activeIds fun other hother hstatus hmatch => ?_
      refine findByContentHash_eq_none.mp hfind other hother ?_
      have hrepo := inRepo_of_loweredRepo hmatch.2.1
      simp [sameContent, hmatch.1, hstatus, RuleStatus.row, hrepo]
  | _ => exact hkept

theorem activeUnique_serve {asked : RuleQuery} (hunique : ActiveUnique store.skills)
    (hstable : CheckStable store.skills phase) (hpermits : CheckPermits phase asked)
    (hdraft : ∀ id row, phase = .draft id row → asked = .activate id →
      row.origin ≠ conversation → row.contentHash = none)
    (hunmatched : ∀ id row hash seen, phase = .unmatched id row hash seen →
      asked = .activate id → row.origin ≠ conversation →
        row.contentHash = some hash ∧ NoRival store.skills hash row.sourceRepo seen)
    (hnew : ∀ hash repo seen rule now, phase = .new hash repo seen → asked = .insert rule now →
      rule.origin ≠ conversation → NoRival store.skills hash rule.sourceRepo seen) :
    ActiveUnique (serveRule library store asked).2.skills := by
  cases asked with
  | activate id =>
    simp only [serveRule]
    split
    next =>
      refine hunique.activate fun row hrow hid horigin hsome other hother hgoverns hrepo => ?_
      rcases hpermits with ⟨draft, rfl, -⟩ | ⟨draft, hash, seen, rfl, -⟩
      · obtain ⟨hdraftId, current, hcurrent, hcore⟩ := hstable
        obtain rfl := KeyedTable.eq_of_key hcurrent hrow
          ((hcore.id.trans hdraftId).trans hid.symm)
        have hnone := hdraft id draft rfl rfl (hcore.origin ▸ horigin)
        rw [hcore.contentHash, hnone] at hsome
        cases hsome
      · obtain ⟨⟨hdraftId, current, hcurrent, hcore⟩, hseen⟩ := hstable
        obtain rfl := KeyedTable.eq_of_key hcurrent hrow
          ((hcore.id.trans hdraftId).trans hid.symm)
        obtain ⟨hhash, hrival⟩ := hunmatched id draft hash seen rfl rfl (hcore.origin ▸ horigin)
        intro hsame
        rw [hcore.contentHash, hhash] at hsame
        rw [SameRepo, hcore.sourceRepo] at hrepo
        exact hseen.2 other hother (hrival other hother hgoverns hrepo.symm hsame.symm) hsame.symm
    next => exact hunique
  | insert rule now =>
    by_cases htaken : rule.id ∈ store.skills.keys
    · simp only [serveRule, htaken, if_true]
      exact hunique
    · simp only [serveRule, htaken, if_false]
      refine hunique.insert htaken fun horigin other hother hgoverns hrepo hsame => ?_
      rcases hpermits with hconversation | ⟨seen, rfl⟩
      · exact horigin hconversation
      · have hseen := hnew _ _ _ rule now rfl rfl horigin other hother hgoverns hrepo hsame
        exact hstable.2 other hother hseen ⟨hsame, hrepo, hgoverns.2⟩
  | setScore id score now =>
    simp only [serveRule, setScore]
    refine ActiveUnique.update _ hunique (fun _ => rfl) fun _ => ?_
    exact ⟨rfl, rfl, rfl, rfl, fun hactive => hactive⟩
  | _ => exact hunique

theorem activeOutline_sound {Process : Type} [DecidableEq Process] (library : RememberLibrary) :
    Sound (ruleService library) activeOutline
      (Unraced : RuleWorld Process → Move Process RuleCall Unit → Prop) where
  follows _ call := ruleProgram_follows call
  enter _ _ _ := trivial
  serve := by
    intro world process call phase asked resume choice answer shared hholds hrunning hguard
      hpermits hserve
    obtain ⟨rfl, rfl⟩ := Prod.mk.inj (Option.some.inj hserve)
    have hstable : CheckStable world.shared.skills phase := hholds.stable process _ hrunning
    have hcase := hguard call phase asked resume hrunning
    refine ⟨activeUnique_serve hholds.good hstable hpermits ?_ ?_ ?_,
      checkStable_observe hstable hpermits ?_, fun other task htask _ => ?_⟩
    · rintro id row rfl rfl
      exact hcase
    · rintro id row hash seen rfl rfl
      exact hcase
    · rintro hash repo seen rule now rfl rfl
      exact hcase
    · rintro id row hash rfl rfl
      exact hcase
    · exact (hholds.stable other task htask).evolve (evolved_serve world.shared asked)
  finish := by
    intro world process call phase result hholds _ _ _
    exact ⟨hholds.good, fun other task htask _ => hholds.stable other task htask⟩

end Sound

/-! ## Every run -/

/-- The promotion was refused for an active rule of its content in its own repository. -/
def RefusedInRepo (skills : SkillTable) (call : RuleCall) : Prop :=
  ∃ id, call = .promote id ∧ ∃ draft ∈ skills.rows, draft.id = id ∧ ∃ hash ∈ draftHash draft,
    ∃ active ∈ skills.rows, activeWith hash active = true ∧ SameRepo draft active

theorem draftHash_of_sameCore {row current : SkillRow} (hcore : SameCore row current) :
    draftHash current = draftHash row := by
  rw [draftHash, draftHash, hcore.contentHash]

/-- In a run in which nobody is raced, active rules stay unique, and drafts are refused for a rule
of their own repository. -/
theorem active_unique {Process : Type} [DecidableEq Process] (library : RememberLibrary)
    {store : RuleStore} (hunique : ActiveUnique store.skills)
    {schedule : List (Move Process RuleCall Unit)} {last : RuleWorld Process}
    (hrun : Run (ruleService library).step Unraced (start store) schedule last) :
    ActiveUnique last.shared.skills ∧ ∀ process task activeId,
      last.tasks process = some task → task.program = .done (.refused activeId) →
        RefusedInRepo last.shared.skills task.call := by
  have hholds : Holds (ruleService library) activeOutline last :=
    Holds.run (activeOutline_sound library) hrun (Holds.start hunique)
  refine ⟨hholds.good, fun process task activeId htask hdone => ?_⟩
  have hfollows := hholds.follows process task htask
  rw [hdone] at hfollows
  obtain ⟨id, row, active, hcall, hphase⟩ := hfollows activeId rfl
  have hstable : CheckStable last.shared.skills task.phase := hholds.stable process task htask
  rw [hphase] at hstable
  obtain ⟨⟨hid, current, hcurrent, hcore⟩, hash, hhash, other, hother, hactive, hrepo⟩ := hstable
  refine ⟨id, hcall, current, hcurrent, hcore.id.trans hid, hash, ?_, other, hother, hactive, ?_⟩
  · rw [draftHash_of_sameCore hcore]
    exact hhash
  · rw [SameRepo, hcore.sourceRepo]
    exact hrepo

theorem Evolved.trans {first second third : SkillTable} (hfirst : Evolved first second)
    (hsecond : Evolved second third) : Evolved first third where
  kept row hrow := by
    obtain ⟨middle, hmiddle, hcore⟩ := hfirst.kept row hrow
    obtain ⟨new, hnew, hlater⟩ := hsecond.kept middle hmiddle
    exact ⟨new, hnew, hcore.trans hlater⟩
  old new hnew := by
    rcases hsecond.old new hnew with ⟨middle, hmiddle, hlater⟩ | hfresh
    · rcases hfirst.old middle hmiddle with ⟨row, hrow, hcore⟩ | hfresh
      · exact .inl ⟨row, hrow, hcore.trans hlater⟩
      · exact .inr (hlater.id ▸ hfresh)
    · exact .inr fun hid => hfresh (hfirst.keys hid)

/-- Whatever calls interleave, and wherever they stop: no rule is lost, none changes its content
or its repository, an active rule stays active, and a new one takes an id of its own. -/
theorem evolved_of_run {Process : Type} [DecidableEq Process] (library : RememberLibrary)
    {guard : RuleWorld Process → Move Process RuleCall Unit → Prop}
    {schedule : List (Move Process RuleCall Unit)} {first last : RuleWorld Process}
    (hrun : Run (ruleService library).step guard first schedule last) :
    Evolved first.shared.skills last.shared.skills := by
  have hsame : Evolved first.shared.skills first.shared.skills :=
    ⟨fun row hrow => ⟨row, hrow, sameCore_refl row⟩,
      fun row hrow => .inl ⟨row, hrow, sameCore_refl row⟩⟩
  have hserve : ∀ (store : RuleStore) (phase : CheckPhase) (choice : Unit) (query : RuleQuery)
      (answer : query.Answer) (shared : RuleStore), Evolved first.shared.skills store.skills →
      (ruleService library).serve store phase choice query = some (answer, shared) →
      Evolved first.shared.skills shared.skills := by
    intro store _ _ query answer shared hevolved hserved
    have hnext : Evolved store.skills (serveRule library store query).2.skills :=
      evolved_serve store query
    rw [Option.some.inj hserved] at hnext
    exact hevolved.trans hnext
  exact invariant_of_run hserve (fun _ _ _ hevolved => hevolved) hrun hsame

def contentRow (id : Char) (status : SkillStatus) (repo : String) : SkillRow where
  id := [id]
  name := "use tabs"
  source := localSource
  version := "1"
  sourceRepo := some repo.toList
  contentHash := some "a1"
  status := status
  installedAt := noon.now
  updatedAt := noon.now

def oneDraft : RuleStore where
  skills := ⟨[contentRow 'd' .pending "o/r"], by decide⟩
  events := []
  examples := []
  rejected := []

def promotionSchedule : List (Move Bool RuleCall Unit) :=
  [.call false (.promote ['d']), .serve false (), .serve false (), .serve false ()]

theorem unraced_promotion : ∃ last, Run (ruleService twoEvidence).step Unraced (start oneDraft)
    promotionSchedule last ∧ last.shared.skills.rows = [contentRow 'd' .active "o/r"] := by
  refine ⟨_, .cons trivial rfl <| .cons ?_ rfl <| .cons ?_ rfl <| .cons ?_ rfl <| .nil _, rfl⟩
  · rintro call phase query resume hrunning
    cases hrunning
    exact trivial
  · rintro call phase query resume hrunning
    cases hrunning
    rintro ⟨active, hactive, hmatch⟩
    obtain rfl := List.mem_singleton.mp hactive
    exact absurd hmatch (by decide)
  · rintro call phase query resume hrunning
    cases hrunning
    refine fun _ => ⟨rfl, fun other hother hgoverns => ?_⟩
    obtain rfl := List.mem_singleton.mp hother
    cases hgoverns.1

theorem evolved_of_run_promotion : ∃ last,
    Run (ruleService twoEvidence).step Unraced (start oneDraft) promotionSchedule last ∧
      Evolved oneDraft.skills last.shared.skills := by
  obtain ⟨last, hrun, _⟩ := unraced_promotion
  exact ⟨last, hrun, evolved_of_run twoEvidence hrun⟩

theorem active_unique_promotion : ∃ last,
    Run (ruleService twoEvidence).step Unraced (start oneDraft) promotionSchedule last ∧
      last.shared.skills.rows = [contentRow 'd' .active "o/r"] ∧
      ActiveUnique last.shared.skills := by
  obtain ⟨last, hrun, hrows⟩ := unraced_promotion
  have hunique : ActiveUnique oneDraft.skills := by
    intro row hrow other hother _ _ _ _ _
    exact (List.mem_singleton.mp hrow).trans (List.mem_singleton.mp hother).symm
  exact ⟨last, hrun, hrows, (active_unique twoEvidence hunique hrun).1⟩

def twoDrafts : RuleStore where
  skills := ⟨[contentRow 'a' .pending "o/r", contentRow 'b' .pending "o/r"], by decide⟩
  events := []
  examples := []
  rejected := []

/-- A draft, and an active rule of its content in another repository. -/
def foreignRule : RuleStore where
  skills := ⟨[contentRow 'a' .active "o/x", contentRow 'd' .pending "o/r"], by decide⟩
  events := []
  examples := []
  rejected := []

def racingSchedule : List (Move Bool RuleCall Unit) :=
  [.call false (.promote ['a']), .call true (.promote ['b']), .serve false (), .serve true (),
    .serve false (), .serve true (), .serve false (), .serve true ()]

abbrev AnyRun (store : RuleStore) (schedule : List (Move Bool RuleCall Unit))
    (last : RuleWorld Bool) : Prop :=
  Run (ruleService twoEvidence).step (fun _ _ => True) (start store) schedule last

theorem promotions_race :
    (∃ schedule last, AnyRun twoDrafts schedule last ∧ ActiveUnique twoDrafts.skills ∧
      ¬ ActiveUnique last.shared.skills) ∧
    ∃ schedule last task, AnyRun foreignRule schedule last ∧ last.tasks false = some task ∧
      task.program = .done (.refused ['a']) ∧ ¬ RefusedInRepo last.shared.skills task.call := by
  constructor
  · obtain ⟨last, hexecute, hrows⟩ : ∃ last, execute (ruleService twoEvidence).step
        (fun _ _ => True) (start twoDrafts) racingSchedule = some last ∧
        last.shared.skills.rows = [contentRow 'a' .active "o/r", contentRow 'b' .active "o/r"] :=
      ⟨_, rfl, rfl⟩
    refine ⟨racingSchedule, last, .of_execute hexecute, ?_, fun hunique => ?_⟩
    · intro row hrow other _ hgoverns
      simp only [twoDrafts, List.mem_cons, List.not_mem_nil, or_false] at hrow
      rcases hrow with rfl | rfl
      · cases hgoverns.1
      · cases hgoverns.1
    · have hsame := hunique (contentRow 'a' .active "o/r") (hrows ▸ .head _)
        (contentRow 'b' .active "o/r") (hrows ▸ .tail _ (.head _)) ⟨rfl, by decide⟩
        ⟨rfl, by decide⟩ rfl rfl rfl
      exact absurd (congrArg SkillRow.id hsame) (by decide)
  · obtain ⟨last, task, hexecute, htask, hdone, hcall, hrows⟩ : ∃ last task,
        execute (ruleService twoEvidence).step (fun _ _ => True) (start foreignRule)
          [.call false (.promote ['d']), .serve false (), .serve false ()] = some last ∧
        last.tasks false = some task ∧ task.program = .done (.refused ['a']) ∧
        task.call = .promote ['d'] ∧ last.shared.skills.rows = foreignRule.skills.rows :=
      ⟨_, _, rfl, rfl, rfl, rfl, rfl⟩
    refine ⟨_, last, task, .of_execute hexecute, htask, hdone, ?_⟩
    rintro ⟨id, hid, draft, hdraft, rfl, hash, -, active, hactive, hmatch, hrepo⟩
    obtain hdraftId : ['d'] = draft.id := RuleCall.promote.inj (hcall.symm.trans hid)
    rw [hrows] at hdraft hactive
    simp only [foreignRule, List.mem_cons, List.not_mem_nil, or_false] at hdraft hactive
    rcases hactive with rfl | rfl
    · rcases hdraft with rfl | rfl
      · exact absurd hdraftId (by decide)
      · exact absurd hrepo (by unfold SameRepo loweredRepo; decide)
    · rw [activeWith, Bool.and_eq_true] at hmatch
      exact absurd hmatch.1 (by decide)

end Difflore.Skills

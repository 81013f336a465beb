import Difflore.Ingest.AgentFiles
import Mathlib.Tactic.Linarith

/-! # Importing agent files again

An entry is remembered in its own tier only. A repeated import therefore leaves the rules alone
if every entry still finds a row in its tier, and an active one at the highest confidence; and no
content is both a draft and an active rule if every content keeps to one tier.
-/

namespace Difflore.Ingest.AgentFiles

open Foundation Text Infra Skills Context

variable {library : RememberLibrary} {repo : RepoScope}

variable {call : AgentFileCall} {clock : CallClock} {calls : List (AgentFileCall × CallClock)}
  {store : RuleStore} {before after : SkillTable}

/-! ## One call -/

def AgentFileCall.accepted (call : AgentFileCall) : Bool :=
  (validateRememberInput call.input).toOption.isSome &&
    (safeSlug (trim call.input.title)).isSome

def AgentFileCall.found (library : RememberLibrary) (repo : RepoScope) (call : AgentFileCall)
    (clock : CallClock) (skills : SkillTable) : Option Rung :=
  (safeSlug (trim call.input.title)).bind fun slug =>
    findExisting library clock call.input call.status (some repo.value) slug
      (call.input.origin.getD conversation) (rememberSignatureHash library call.input) skills

def AgentFileCall.newId (call : AgentFileCall) (clock : CallClock) : Text :=
  convIds ++ ((safeSlug (trim call.input.title)).getD [] ++ '-' :: clock.idSuffix)

def AgentFileCall.FromFile (call : AgentFileCall) : Prop :=
  ∃ origin, call.input.origin = some origin ∧ origin ≠ conversation ∧ origin ≠ prReviewOrigin

theorem agentFileOrigin_head (entry : AgentFileMemoryEntry) :
    (agentFileOrigin entry).head? = some 'a' := by
  unfold agentFileOrigin
  split <;> rfl

theorem entryCall_input {options : AgentFileImportOptions} {active : List Nat}
    {entry : AgentFileMemoryEntry} {idx : Nat}
    (hentry : entryCall options active entry idx = some call) : call.input = entryInput entry := by
  unfold entryCall at hentry
  cases hkind : entryKind entry with
  | reviewRule =>
    simp only [hkind] at hentry
    by_cases hreference : isReferenceOnlyEntry entry = true
    · rw [if_pos hreference] at hentry
      contradiction
    · rw [if_neg hreference] at hentry
      by_cases hclaude : isClaudeCodeAutoMemory entry = true
      · rw [if_pos hclaude] at hentry
        rw [← Option.some.inj hentry]
      · rw [if_neg hclaude] at hentry
        by_cases hactive : idx ∈ active
        · rw [if_pos hactive] at hentry
          rw [← Option.some.inj hentry]
        · rw [if_neg hactive] at hentry
          rw [← Option.some.inj hentry]
  | softPreference =>
    simp only [hkind] at hentry
    rw [← Option.some.inj hentry]

theorem fromFile_of_mem {options : AgentFileImportOptions} {entries : List AgentFileMemoryEntry}
    (hcall : call ∈ importCalls options entries) : call.FromFile := by
  unfold importCalls at hcall
  dsimp only at hcall
  rw [List.mem_filterMap] at hcall
  obtain ⟨⟨entry, idx⟩, _, hentry⟩ := hcall
  have hhead := agentFileOrigin_head entry
  refine ⟨agentFileOrigin entry, by rw [entryCall_input hentry]; rfl, ?_, ?_⟩
  · intro heq
    rw [heq] at hhead
    exact absurd hhead (by decide)
  · intro heq
    rw [heq] at hhead
    exact absurd hhead (by decide)

theorem strengthen_of_found (hfile : call.FromFile) {skills : SkillTable} {rung : Rung}
    (hfound : call.found library repo clock skills = some rung) :
    ∃ row reason windowHit, rung = .strengthen row reason windowHit ∧ row ∈ skills.rows ∧
      row.status = call.status.row := by
  obtain ⟨origin, horigin, _, hreview⟩ := hfile
  obtain ⟨slug, _, hexisting⟩ := Option.bind_eq_some_iff.mp hfound
  have hof := allOf_findExisting clock call.input call.status (some repo.value) slug _ _ rung
    hexisting
  cases rung with
  | strengthen row reason windowHit => exact ⟨row, reason, windowHit, rfl, hof⟩
  | matchedActive row =>
    rw [horigin, Option.getD_some] at hexisting
    unfold findExisting importRung at hexisting
    simp [hreview] at hexisting

theorem run_accepted (hfile : call.FromFile) (haccepted : call.accepted = true) (clock : CallClock)
    (store : RuleStore) :
    ∃ slug, safeSlug (trim call.input.title) = some slug ∧ call.run library repo clock store =
        match call.found library repo clock store.skills with
        | some rung =>
          rung.apply clock call.status (call.input.origin.getD conversation) store
        | none =>
          insertFresh library clock call.input call.status
            (call.input.origin.getD conversation)
            (freshRule library clock call.input call.confidence call.status (some repo.value)
              call.sourceKind slug (call.input.origin.getD conversation)
              (rememberSignatureHash library call.input)) store := by
  obtain ⟨origin, horigin, hconversation, _⟩ := hfile
  rw [AgentFileCall.accepted, Bool.and_eq_true] at haccepted
  obtain ⟨slug, hslug⟩ := Option.isSome_iff_exists.mp haccepted.2
  refine ⟨slug, hslug, ?_⟩
  cases hvalid : validateRememberInput call.input with
  | error err =>
    rw [hvalid] at haccepted
    exact absurd haccepted.1 (by simp [Except.toOption])
  | ok _ =>
    rw [AgentFileCall.run, rememberInner_accepted hvalid hslug (by rwa [horigin]),
      AgentFileCall.found, hslug]
    rfl

theorem run_refused (hrefused : call.accepted = false) (clock : CallClock) (store : RuleStore) :
    ∃ err, call.run library repo clock store = .error err := by
  refine rememberInner_refused fun haccepted => ?_
  rw [AgentFileCall.accepted, haccepted.1, haccepted.2] at hrefused
  contradiction

theorem run_found (hfile : call.FromFile) (haccepted : call.accepted = true)
    {row : SkillRow} {reason : Text} {windowHit : Bool}
    (hfound : call.found library repo clock store.skills =
      some (.strengthen row reason windowHit)) (hrow : row ∈ store.skills.rows) :
    ∃ after outcome, call.run library repo clock store = .ok (after, outcome) ∧
      after.skills = strengthenRule row.id clock.now store.skills := by
  obtain ⟨slug, _, hrun⟩ := run_accepted hfile haccepted clock store
  rw [hrun, hfound]
  obtain ⟨outcome, happly⟩ := apply_strengthen_of_mem hrow
  exact ⟨_, outcome, happly, rfl⟩

theorem run_unfound (hfile : call.FromFile) (haccepted : call.accepted = true)
    (hfound : call.found library repo clock store.skills = none)
    (hfresh : call.newId clock ∉ store.skills.keys) :
    ∃ after outcome, call.run library repo clock store = .ok (after, outcome) ∧
      store.skills.rows.length < after.skills.rows.length := by
  obtain ⟨slug, hslug, hrun⟩ := run_accepted hfile haccepted clock store
  rw [AgentFileCall.newId, hslug, Option.getD_some] at hfresh
  rw [hrun, hfound]
  obtain ⟨after, outcome, hinsert⟩ : ∃ after outcome, insertFresh library clock call.input
      call.status (call.input.origin.getD conversation) (freshRule library clock call.input
        call.confidence call.status (some repo.value) call.sourceKind slug
        (call.input.origin.getD conversation) (rememberSignatureHash library call.input)) store =
          .ok (after, outcome) := insertFresh_of_fresh hfresh
  refine ⟨after, outcome, hinsert, ?_⟩
  obtain ⟨hnew, hskills, _⟩ := insertFresh_eq_ok hinsert
  rw [hskills, rows_rememberRule hnew, List.length_append]
  exact Nat.lt_succ_self _

/-! ## A repeated import -/

def Unchanged (before after : SkillTable) : Prop :=
  after.keys = before.keys ∧ ∀ row ∈ before.rows, row.status = .active →
    ∀ other ∈ after.rows, other.id = row.id → other.confidence = row.confidence

/-- The entry finds a row in its tier, and an active one at the highest confidence. -/
def Settled (library : RememberLibrary) (repo : RepoScope) (skills : SkillTable)
    (call : AgentFileCall × CallClock) : Prop :=
  ∃ row reason windowHit, call.1.found library repo call.2 skills =
    some (.strengthen row reason windowHit) ∧
      (call.1.status = .active → row.confidence = conversationConfidenceCap)

def processed (calls : List (AgentFileCall × CallClock)) : List (AgentFileCall × CallClock) :=
  calls.takeWhile (·.1.accepted)

def Kept (before after : SkillTable) : Prop :=
  ∃ f, KeepsContent f ∧ after.rows = before.rows.map f ∧
    ∀ row ∈ before.rows, row.status = .active → (f row).confidence = row.confidence

/-- A confidence that was strengthened when it was not the highest, however often. -/
def Moved (before after : Rat) : Prop := (before < conversationConfidenceCap ∧ before < after) ∨
    (conversationConfidenceCap < before ∧ after ≤ conversationConfidenceCap)

def Changed (before after : SkillTable) : Prop :=
  before.rows.length < after.rows.length ∨ ∃ row ∈ before.rows, row.status = .active ∧
    ∃ other ∈ after.rows, other.id = row.id ∧ Moved row.confidence other.confidence

theorem Kept.refl (skills : SkillTable) : Kept skills skills :=
  ⟨id, keepsContent_id, (List.map_id _).symm, fun _ _ _ => rfl⟩

theorem KeepsContent.id_eq {f : SkillRow → SkillRow} (hf : KeepsContent f) (row : SkillRow) :
    (f row).id = row.id := by
  obtain ⟨_, _, heq⟩ := hf row
  rw [heq]

theorem Kept.keys (hkept : Kept before after) : after.keys = before.keys := by
  obtain ⟨f, hf, hrows, _⟩ := hkept
  unfold KeyedTable.keys
  rw [hrows, List.map_map]
  apply List.map_congr_left
  intro row _
  exact KeepsContent.id_eq hf row

theorem Kept.unchanged (hkept : Kept before after) : Unchanged before after := by
  refine ⟨hkept.keys, ?_⟩
  obtain ⟨f, hf, hrows, hactive⟩ := hkept
  intro row hrow hstatus other hother hid
  rw [hrows] at hother
  obtain ⟨old, hold, rfl⟩ := List.mem_map.mp hother
  rw [KeepsContent.id_eq hf] at hid
  rw [KeyedTable.eq_of_key hold hrow hid]
  exact hactive row hrow hstatus

theorem Moved.strengthen {before confidence : Rat} (hmoved : Moved before confidence) :
    Moved before (min (confidence + 1 / 20) conversationConfidenceCap) := by
  rcases hmoved with ⟨hbefore, hafter⟩ | ⟨hbefore, hafter⟩
  · refine .inl ⟨hbefore, lt_min ?_ hbefore⟩
    linarith
  · exact .inr ⟨hbefore, min_le_right _ _⟩

theorem moved_of_ne {confidence : Rat} (hne : confidence ≠ conversationConfidenceCap) :
    Moved confidence (min (confidence + 1 / 20) conversationConfidenceCap) := by
  rcases lt_or_gt_of_ne hne with hlow | hhigh
  · refine .inl ⟨hlow, lt_min ?_ hlow⟩
    linarith
  · exact .inr ⟨hhigh, min_le_right _ _⟩

theorem Moved.ne {before after : Rat} (hmoved : Moved before after) : after ≠ before := by
  rcases hmoved with ⟨_, hafter⟩ | ⟨hbefore, hafter⟩
  · exact hafter.ne'
  · exact (lt_of_le_of_lt hafter hbefore).ne

theorem Changed.not_unchanged (hchanged : Changed before after) : ¬ Unchanged before after := by
  rintro ⟨hkeys, hactive⟩
  rcases hchanged with hlength | ⟨row, hrow, hstatus, other, hother, hid, hmoved⟩
  · have hsame := congrArg List.length hkeys
    unfold KeyedTable.keys at hsame
    rw [List.length_map, List.length_map] at hsame
    exact absurd hsame hlength.ne'
  · exact hmoved.ne (hactive row hrow hstatus other hother hid)

theorem Changed.strengthen (hchanged : Changed before after) (id : Text) (now : Stamp) :
    Changed before (strengthenRule id now after) := by
  rcases hchanged with hlength | ⟨row, hrow, hstatus, other, hother, hid, hmoved⟩
  · left
    rw [rows_strengthenRule, List.length_map]
    exact hlength
  · refine .inr ⟨row, hrow, hstatus, strengthened id now other, ?_, ?_, ?_⟩
    · rw [rows_strengthenRule]
      exact List.mem_map_of_mem hother
    · rw [KeepsContent.id_eq (keepsContent_strengthened id now), hid]
    · unfold strengthened
      split
      next => exact hmoved.strengthen
      next => exact hmoved

theorem Changed.run {after : RuleStore} {outcome : RememberOutcome}
    (hchanged : Changed before store.skills)
    (hrun : call.run library repo clock store = .ok (after, outcome)) :
    Changed before after.skills := by
  obtain ⟨slug, ⟨rung, _, happly⟩ | hinsert⟩ := rememberInner_cases hrun
  · obtain ⟨_, hsame | ⟨id, hstrengthened⟩⟩ := Rung.apply_eq_ok happly
    · exact hsame ▸ hchanged
    · exact hstrengthened ▸ hchanged.strengthen id clock.now
  · obtain ⟨hfresh, hskills, _⟩ := insertFresh_eq_ok hinsert
    rw [hskills]
    unfold Changed
    rw [rows_rememberRule hfresh]
    rcases hchanged with hlength | ⟨row, hrow, hstatus, other, hother, hid, hmoved⟩
    · left
      rw [List.length_append]
      exact Nat.lt_of_lt_of_le hlength (Nat.le_add_right _ _)
    · exact .inr ⟨row, hrow, hstatus, other, List.mem_append_left _ hother, hid, hmoved⟩

theorem Changed.runCalls (hchanged : Changed before store.skills) :
    Changed before (runCalls library repo calls store).skills := by
  induction calls generalizing store with
  | nil => exact hchanged
  | cons call rest ih =>
    obtain ⟨call, clock⟩ := call
    unfold AgentFiles.runCalls
    split
    next => exact hchanged
    next after outcome hrun => exact ih (hchanged.run hrun)

theorem found_map {f : SkillRow → SkillRow} (hf : KeepsContent f)
    (hrows : after.rows = before.rows.map f) :
    call.found library repo clock after =
      (call.found library repo clock before).map (Rung.mapRow f) := by
  unfold AgentFileCall.found
  cases safeSlug (trim call.input.title) with
  | none => rfl
  | some slug => exact findExisting_map hf hrows _ _ _ _ _ _ _

theorem Kept.settled (hkept : Kept before store.skills) (hfile : call.FromFile)
    (haccepted : call.accepted = true) (hsettled : Settled library repo before (call, clock)) :
    ∃ after outcome, call.run library repo clock store = .ok (after, outcome) ∧
      Kept before after.skills := by
  obtain ⟨f, hf, hrows, hactive⟩ := hkept
  obtain ⟨row, reason, windowHit, hfound, hcap⟩ := hsettled
  obtain ⟨found, _, _, heq, hrow, hstatus⟩ := strengthen_of_found hfile hfound
  obtain ⟨rfl, rfl, rfl⟩ := Rung.strengthen.inj heq
  have hfoundNow : call.found library repo clock store.skills =
      some (.strengthen (f row) reason windowHit) := by
    rw [found_map hf hrows, hfound]
    rfl
  have hmem : f row ∈ store.skills.rows := by
    rw [hrows]
    exact List.mem_map_of_mem hrow
  obtain ⟨after, outcome, hrun, hskills⟩ := run_found hfile haccepted hfoundNow hmem
  refine ⟨after, outcome, hrun, strengthened (f row).id clock.now ∘ f,
    hf.comp (keepsContent_strengthened _ _), ?_, ?_⟩
  · rw [hskills, rows_strengthenRule, hrows, List.map_map]
  · intro other hother hotherActive
    have hkeptConfidence := hactive other hother hotherActive
    rw [Function.comp_apply, strengthened]
    split
    next hid =>
      -- The strengthened row is active, so the call is, and its row is at the cap.
      rw [KeepsContent.id_eq hf, KeepsContent.id_eq hf] at hid
      obtain rfl := KeyedTable.eq_of_key hother hrow hid
      have hcallActive : call.status = .active := by
        rw [hotherActive] at hstatus
        cases hcall : call.status with
        | active => rfl
        | pending =>
          rw [hcall] at hstatus
          contradiction
      have hconfidence := hcap hcallActive
      rw [hkeptConfidence, hconfidence]
      exact min_eq_right (by norm_num [conversationConfidenceCap])
    next => exact hkeptConfidence

theorem Kept.unsettled (hkept : Kept before store.skills) (hfile : call.FromFile)
    (haccepted : call.accepted = true) (hfresh : call.newId clock ∉ before.keys)
    (hunsettled : ¬ Settled library repo before (call, clock)) :
    ∃ after outcome, call.run library repo clock store = .ok (after, outcome) ∧
      Changed before after.skills := by
  have hkeys := hkept.keys
  obtain ⟨f, hf, hrows, hactive⟩ := hkept
  cases hfound : call.found library repo clock before with
  | none =>
    have hfoundNow : call.found library repo clock store.skills = none := by
      rw [found_map hf hrows, hfound]
      rfl
    obtain ⟨after, outcome, hrun, hlength⟩ := run_unfound hfile haccepted hfoundNow
      (by rw [hkeys]; exact hfresh)
    refine ⟨after, outcome, hrun, .inl ?_⟩
    rwa [hrows, List.length_map] at hlength
  | some rung =>
    obtain ⟨row, reason, windowHit, rfl, hrow, hstatus⟩ := strengthen_of_found hfile hfound
    have hmoves : call.status = .active ∧ row.confidence ≠ conversationConfidenceCap := by
      by_contra hnot
      apply hunsettled
      refine ⟨row, reason, windowHit, hfound, ?_⟩
      intro hcallActive
      by_contra hne
      exact hnot ⟨hcallActive, hne⟩
    have hfoundNow : call.found library repo clock store.skills =
        some (.strengthen (f row) reason windowHit) := by
      rw [found_map hf hrows, hfound]
      rfl
    have hmem : f row ∈ store.skills.rows := by
      rw [hrows]
      exact List.mem_map_of_mem hrow
    obtain ⟨after, outcome, hrun, hskills⟩ := run_found hfile haccepted hfoundNow hmem
    have hrowActive : row.status = .active := by
      rw [hstatus, hmoves.1]
      rfl
    refine ⟨after, outcome, hrun, .inr ⟨row, hrow, hrowActive,
      strengthened (f row).id clock.now (f row), ?_, ?_, ?_⟩⟩
    · rw [hskills, rows_strengthenRule]
      exact List.mem_map_of_mem hmem
    · rw [KeepsContent.id_eq (keepsContent_strengthened _ _), KeepsContent.id_eq hf]
    · rw [strengthened, if_pos rfl]
      dsimp only
      rw [hactive row hrow hrowActive]
      exact moved_of_ne hmoves.2

theorem kept_of_settled (hkept : Kept before store.skills) (hfile : ∀ call ∈ calls, call.1.FromFile)
    (hsettled : ∀ call ∈ processed calls, Settled library repo before call) :
    Kept before (runCalls library repo calls store).skills := by
  induction calls generalizing store with
  | nil => exact hkept
  | cons call rest ih =>
    obtain ⟨call, clock⟩ := call
    by_cases haccepted : call.accepted = true
    · have hcons : processed ((call, clock) :: rest) = (call, clock) :: processed rest :=
        List.takeWhile_cons_of_pos haccepted
      rw [hcons] at hsettled
      obtain ⟨after, outcome, hrun, hafter⟩ := hkept.settled (hfile _ (.head _))
        haccepted (hsettled _ (.head _))
      unfold runCalls
      rw [hrun]
      apply ih hafter
      · intro other hother
        exact hfile other (.tail _ hother)
      · intro other hother
        exact hsettled other (.tail _ hother)
    · obtain ⟨err, hrun⟩ : ∃ err, call.run library repo clock store = .error err :=
        run_refused (Bool.eq_false_iff.mpr haccepted) clock store
      unfold runCalls
      rw [hrun]
      exact hkept

theorem changed_of_unsettled (hkept : Kept before store.skills)
    (hfile : ∀ call ∈ calls, call.1.FromFile)
    (hfresh : ∀ call ∈ calls, call.1.newId call.2 ∉ before.keys)
    (hunsettled : ¬ ∀ call ∈ processed calls, Settled library repo before call) :
    Changed before (runCalls library repo calls store).skills := by
  induction calls generalizing store with
  | nil => exact absurd (fun call hcall => absurd hcall List.not_mem_nil) hunsettled
  | cons call rest ih =>
    obtain ⟨call, clock⟩ := call
    by_cases haccepted : call.accepted = true
    · have hcons : processed ((call, clock) :: rest) = (call, clock) :: processed rest :=
        List.takeWhile_cons_of_pos haccepted
      rw [hcons] at hunsettled
      have hcallFile := hfile _ (.head _)
      unfold runCalls
      by_cases hhead : Settled library repo before (call, clock)
      · obtain ⟨after, outcome, hrun, hafter⟩ := hkept.settled hcallFile haccepted hhead
        rw [hrun]
        apply ih hafter
        · intro other hother
          exact hfile other (.tail _ hother)
        · intro other hother
          exact hfresh other (.tail _ hother)
        · intro hrest
          exact hunsettled (List.forall_mem_cons.mpr ⟨hhead, hrest⟩)
      · obtain ⟨after, outcome, hrun, hafter⟩ := hkept.unsettled hcallFile haccepted
          (hfresh _ (.head _)) hhead
        rw [hrun]
        exact hafter.runCalls
    · have hnil : processed ((call, clock) :: rest) = [] := List.takeWhile_cons_of_neg haccepted
      rw [hnil] at hunsettled
      exact absurd (fun call hcall => absurd hcall List.not_mem_nil) hunsettled

end Difflore.Ingest.AgentFiles

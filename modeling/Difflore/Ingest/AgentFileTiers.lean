import Difflore.Ingest.AgentFileLaws

/-! # One tier for each content

While every content of a repository is imported in one tier only, no content is both a draft and
an active rule. The tiers follow from a ranking over all entries, so an edit of one entry may
move another.
-/

namespace Difflore.Ingest.AgentFiles

open Foundation Text Infra Skills Context

variable {library : RememberLibrary}

variable {store : RuleStore} {tiers : Tiers}

structure ImportStep where
  repo : RepoScope
  options : AgentFileImportOptions
  entries : List AgentFileMemoryEntry
  clock : Nat → CallClock

def ImportStep.apply (library : RememberLibrary) (store : RuleStore) (step : ImportStep) :
    RuleStore :=
  importAgentFiles library step.repo step.options step.entries step.clock store

def runHistory (library : RememberLibrary) (history : List ImportStep) (store : RuleStore) :
    RuleStore :=
  history.foldl (ImportStep.apply library) store

def ImportStep.calls (step : ImportStep) : List AgentFileCall :=
  (importCalls step.options step.entries).takeWhile (·.accepted)

def NoneShared (skills : SkillTable) : Prop :=
  ∀ draft ∈ skills.rows, ∀ rule ∈ skills.rows, draft.status = .pending → rule.status = .active →
    ∀ hash repo other, draft.contentHash = some hash → rule.contentHash = some hash →
      draft.sourceRepo = some repo → rule.sourceRepo = some other →
      eqIgnoreAsciiCase repo other = false

abbrev Tiers := Text → Text → RuleStatus

def InTiers (tiers : Tiers) (skills : SkillTable) : Prop :=
  ∀ row ∈ skills.rows, ∀ repo hash, row.sourceRepo = some repo → row.contentHash = some hash →
    row.status = .pending ∨ row.status = .active →
      row.status = (tiers (toAsciiLowercase repo) hash).row

def AgentFileCall.InTier (library : RememberLibrary) (repo : RepoScope) (tiers : Tiers)
    (call : AgentFileCall) : Prop :=
  call.status = tiers (toAsciiLowercase repo.value) (rememberSignatureHash library call.input)

instance (repo : RepoScope) (tiers : Tiers) (call : AgentFileCall) :
    Decidable (call.InTier library repo tiers) :=
  inferInstanceAs (Decidable (_ = _))

theorem InTiers.noneShared {skills : SkillTable} (htiers : InTiers tiers skills) :
    NoneShared skills := by
  intro draft hdraft rule hrule hpending hactive hash repo other hhash hruleHash hrepo hother
  by_contra hsame
  rw [Bool.not_eq_false] at hsame
  have hlower : toAsciiLowercase repo = toAsciiLowercase other := of_decide_eq_true hsame
  have hfirst := htiers draft hdraft repo hash hrepo hhash (.inl hpending)
  have hsecond := htiers rule hrule other hash hother hruleHash (.inr hactive)
  rw [hpending, hlower] at hfirst
  rw [hactive, ← hfirst] at hsecond
  contradiction

theorem InTiers.strengthen {skills : SkillTable} (htiers : InTiers tiers skills) (id : Text)
    (now : Stamp) : InTiers tiers (strengthenRule id now skills) := by
  intro row hrow
  rw [rows_strengthenRule] at hrow
  obtain ⟨old, hold, rfl⟩ := List.mem_map.mp hrow
  obtain ⟨_, _, heq⟩ := keepsContent_strengthened id now old
  rw [heq]
  exact htiers old hold

theorem InTiers.run {repo : RepoScope} {call : AgentFileCall} {clock : CallClock}
    {after : RuleStore} {outcome : RememberOutcome} (htiers : InTiers tiers store.skills)
    (hcall : call.InTier library repo tiers)
    (hrun : call.run library repo clock store = .ok (after, outcome)) :
    InTiers tiers after.skills := by
  obtain ⟨slug, ⟨rung, _, happly⟩ | hinsert⟩ := rememberInner_cases hrun
  · obtain ⟨_, hsame | ⟨id, hstrengthened⟩⟩ := Rung.apply_eq_ok happly
    · exact hsame ▸ htiers
    · exact hstrengthened ▸ htiers.strengthen id clock.now
  · obtain ⟨hfresh, hskills, _⟩ := insertFresh_eq_ok hinsert
    rw [hskills]
    intro row hrow
    rw [rows_rememberRule hfresh, List.mem_append, List.mem_singleton] at hrow
    rcases hrow with hold | rfl
    · exact htiers row hold
    · intro stored hash hrepo hhash _
      obtain rfl : repo.value = stored := Option.some.inj hrepo
      obtain rfl : rememberSignatureHash library call.input = hash := Option.some.inj hhash
      exact congrArg RuleStatus.row hcall

theorem InTiers.runCalls {repo : RepoScope} {calls : List (AgentFileCall × CallClock)}
    (htiers : InTiers tiers store.skills)
    (hcalls : ∀ call ∈ processed calls, call.1.InTier library repo tiers) :
    InTiers tiers (runCalls library repo calls store).skills := by
  induction calls generalizing store with
  | nil => exact htiers
  | cons call rest ih =>
    obtain ⟨call, clock⟩ := call
    unfold AgentFiles.runCalls
    cases hrun : call.run library repo clock store with
    | error err => exact htiers
    | ok result =>
      obtain ⟨after, outcome⟩ := result
      have haccepted : call.accepted = true := by
        by_contra hrefused
        obtain ⟨err, herror⟩ : ∃ err, call.run library repo clock store = .error err :=
          run_refused (Bool.eq_false_iff.mpr hrefused) clock store
        rw [hrun] at herror
        contradiction
      have hcons : processed ((call, clock) :: rest) = (call, clock) :: processed rest :=
        List.takeWhile_cons_of_pos haccepted
      rw [hcons] at hcalls
      apply ih (htiers.run (hcalls _ (.head _)) hrun)
      intro other hother
      exact hcalls other (.tail _ hother)

theorem mem_processed_clockedCalls {options : AgentFileImportOptions}
    {entries : List AgentFileMemoryEntry} {clock : Nat → CallClock}
    {call : AgentFileCall × CallClock}
    (hcall : call ∈ processed (clockedCalls options entries clock)) :
    call.1 ∈ (importCalls options entries).takeWhile (·.accepted) := by
  have hmap : (clockedCalls options entries clock).map (·.1) = importCalls options entries := by
    apply List.ext_getElem
    · simp [clockedCalls]
    · intro idx _ _
      simp [clockedCalls]
  have hfirst := List.mem_map_of_mem (f := (·.1)) hcall
  unfold processed at hfirst
  rw [← hmap, List.takeWhile_map]
  exact hfirst

theorem inTiers_of_history {history : List ImportStep} (htiers : InTiers tiers store.skills)
    (hsteps : ∀ step ∈ history, ∀ call ∈ step.calls, call.InTier library step.repo tiers) :
    InTiers tiers (runHistory library history store).skills := by
  induction history generalizing store with
  | nil => exact htiers
  | cons step rest ih =>
    have hstep : InTiers tiers (step.apply library store).skills := by
      apply htiers.runCalls
      intro call hcall
      exact hsteps step (.head _) call.1 (mem_processed_clockedCalls hcall)
    apply ih hstep
    intro other hother
    exact hsteps other (.tail _ hother)

/-- A repeated import leaves the rules alone exactly if every entry is settled, and a history in
which every content keeps to one tier shares none. -/
theorem import_again_iff (library : RememberLibrary) :
    (∀ (repo : RepoScope) (options : AgentFileImportOptions) (entries : List AgentFileMemoryEntry)
        (first again : Nat → CallClock) (decisions : List Decision) (store : RuleStore),
      let decided := applyDecisions decisions
        (importAgentFiles library repo options entries first store)
      let calls := clockedCalls options entries again
      let repeated := importAgentFiles library repo options entries again decided
      ((∀ call ∈ processed calls, Settled library repo decided.skills call) →
        Unchanged decided.skills repeated.skills) ∧
      ((∀ call ∈ calls, call.1.newId call.2 ∉ decided.skills.keys) →
        Unchanged decided.skills repeated.skills →
          ∀ call ∈ processed calls, Settled library repo decided.skills call)) ∧
    ∀ (tiers : Tiers) (history : List ImportStep) (store : RuleStore), InTiers tiers store.skills →
      (∀ step ∈ history, ∀ call ∈ step.calls, call.InTier library step.repo tiers) →
        NoneShared (runHistory library history store).skills := by
  constructor
  · intro repo options entries first again decisions store decided calls repeated
    have hfile : ∀ call ∈ calls, call.1.FromFile := by
      intro call hcall
      obtain ⟨idx, hidx, rfl⟩ := List.mem_mapIdx.mp hcall
      exact fromFile_of_mem (List.getElem_mem _)
    constructor
    · intro hsettled
      exact (kept_of_settled (Kept.refl decided.skills) hfile hsettled).unchanged
    · intro hfresh hunchanged
      by_contra hunsettled
      exact (changed_of_unsettled (Kept.refl decided.skills) hfile hfresh
        hunsettled).not_unchanged hunchanged
  · intro tiers history store htiers hsteps
    exact (inTiers_of_history htiers hsteps).noneShared

section Samples

def tabsLibrary : RememberLibrary where
  jsonStrings _ := some []
  printStrings _ := emptyListJson
  sha1Hex _ := []
  redactSecrets input := input
  sha256Hex _ := "356fb061bbb2f63d496abf9b41c77f87ced4f8b2bd8af7df3a4c9cc75092350a"

def tabsEntry : AgentFileMemoryEntry where
  title := "Tabs"
  body := "Indent with tabs."
  kind := .reviewRule
  category := none
  filePatterns := []
  sourceId := "agents-md"
  path := "AGENTS.md"

def tabsRepo : RepoScope := ⟨"acme/app"⟩

def tabsImport (first : Char) (store : RuleStore) : RuleStore :=
  importAgentFiles tabsLibrary tabsRepo .default [tabsEntry] (callClock first) store

def radiusEntry : AgentFileMemoryEntry :=
  { tabsEntry with
    title := "Border radius"
    body := "Only use `--radius` tokens." }

def toneEntry : AgentFileMemoryEntry :=
  { tabsEntry with
    title := "Tone"
    body := "Keep answers short."
    kind := .softPreference }

def mixedEntries : List AgentFileMemoryEntry := [tabsEntry, radiusEntry, toneEntry]

def mixedLibrary : RememberLibrary :=
  { tabsLibrary with
    sha256Hex text :=
      if "Tabs" <:+: text then tabsLibrary.sha256Hex text
      else if "Tone" <:+: text then
        "56eb498a62fc24b7a1d33fceff42a0c9e419e3ed65e5665b6643979acc7445ad"
      else "945faa386a3c6d9068cb93570a57d2ee171068735ab8f1f652cac5803cce78ec" }

def mixedStep (first : Char) : ImportStep := ⟨tabsRepo, .default, mixedEntries, callClock first⟩

def mixedImport (first : Char) (store : RuleStore) : RuleStore :=
  (mixedStep first).apply mixedLibrary store

end Samples

/-- The entry of a promoted draft is drafted again. -/
theorem promoted_entry_redrafted :
    let decided := applyDecisions [.promote "conv-tabs-a0"] (tabsImport 'a' emptyStore)
    ¬ Unchanged decided.skills (tabsImport 'b' decided).skills ∧
      ¬ NoneShared (tabsImport 'b' decided).skills := by
  intro decided
  constructor
  · rintro ⟨hkeys, _⟩
    revert hkeys
    decide
  · intro hnone
    have hshared : ∃ draft ∈ (tabsImport 'b' decided).skills.rows,
        ∃ rule ∈ (tabsImport 'b' decided).skills.rows,
          draft.status = .pending ∧ rule.status = .active ∧
            draft.contentHash = some (tabsLibrary.sha256Hex []) ∧
            rule.contentHash = some (tabsLibrary.sha256Hex []) ∧
            draft.sourceRepo = some tabsRepo.value ∧ rule.sourceRepo = some tabsRepo.value := by
      decide
    obtain ⟨draft, hdraft, rule, hrule, hpending, hactive, hhash, hruleHash, hrepo, hother⟩ :=
      hshared
    have hdifferent := hnone draft hdraft rule hrule hpending hactive _ _ _ hhash hruleHash hrepo
      hother
    revert hdifferent
    decide

/-- The active rules are at the highest confidence after the third import, and the history of two
imports. -/
theorem import_again_settled :
    let earlier := mixedImport 'a' (mixedImport 'a' emptyStore)
    Unchanged (mixedImport 'b' earlier).skills
        (mixedImport 'c' (mixedImport 'b' earlier)).skills ∧
      NoneShared (runHistory mixedLibrary [mixedStep 'a', mixedStep 'b'] emptyStore).skills := by
  intro earlier
  constructor
  · apply ((import_again_iff mixedLibrary).1 tabsRepo .default mixedEntries (callClock 'b')
      (callClock 'c') [] earlier).1
    intro call hcall
    have hmem := (List.takeWhile_sublist _).subset hcall
    have hfile : call.1.FromFile := by
      obtain ⟨idx, hidx, rfl⟩ := List.mem_mapIdx.mp hmem
      exact fromFile_of_mem (List.getElem_mem hidx)
    have hfound : ∀ call ∈ clockedCalls .default mixedEntries (callClock 'c'),
        (call.1.found mixedLibrary tabsRepo call.2 (mixedImport 'b' earlier).skills).isSome =
          true := by decide +kernel
    have hhighest : ∀ row ∈ (mixedImport 'b' earlier).skills.rows,
        row.status = .active → row.confidence = conversationConfidenceCap := by decide +kernel
    obtain ⟨rung, hrung⟩ := Option.isSome_iff_exists.mp (hfound call hmem)
    obtain ⟨row, reason, windowHit, rfl, hrow, hstatus⟩ := strengthen_of_found hfile hrung
    refine ⟨row, reason, windowHit, hrung, ?_⟩
    intro hactive
    exact hhighest row hrow (by rw [hstatus, hactive]; rfl)
  · apply (import_again_iff mixedLibrary).2
      (fun _ hash => if hash = tabsLibrary.sha256Hex [] then .pending else .active)
    · intro row hrow
      exact absurd hrow List.not_mem_nil
    · decide +kernel

end Difflore.Ingest.AgentFiles

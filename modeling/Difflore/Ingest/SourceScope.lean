import Difflore.Ingest.HumanLabel
import Difflore.Ingest.KeptApart

/-! # The scope of drafted rules

Drafting selects stored comments by the name of the repository they were imported for, and gives
its drafts the scope of its own command. The drafts come from that scope if every pull request
that was imported under the name was read from there.
-/

namespace Difflore.Ingest

open Foundation Infra Skills

def Pull.scope : Pull → Option RepoScope
  | .github _ sourceRepo _ => RepoScope.github sourceRepo
  | .gitlab host projectPath _ => RepoScope.gitlab host projectPath

def DraftCommand.Reaches (command : DraftCommand) (pull : Pull) : Prop :=
  pull.source = command.source ∧ pull.repo = command.repo ∧
    command.selectsNumber pull.storedNumber = true

instance (command : DraftCommand) (pull : Pull) : Decidable (command.Reaches pull) :=
  inferInstanceAs (Decidable (_ ∧ _ ∧ _))

variable {reading : ReviewReading} {library : Context.RememberLibrary}

theorem mem_comments_runImports {imports : List Import} {comment : ReviewComment}
    (hcomment : comment ∈ (runImports imports).store.comments) :
    ∃ entry ∈ allPersisted imports, ∃ arrival ∈ entry.arrivals, arrival.row = comment := by
  rw [runImports_eq, comments_foldl_persist] at hcomment
  obtain ⟨arrival, harrival, hrow⟩ := arrived_of_mem_foldl hcomment
  obtain ⟨entry, hentry, hmem⟩ := List.mem_flatMap.mp harrival
  exact ⟨entry, hentry, arrival, hmem, hrow⟩

theorem mem_items_runImports {imports : List Import} {item : ReviewItem}
    (hitem : item ∈ (runImports imports).store.items.rows) :
    ∃ entry ∈ allPersisted imports, entry.item = item := by
  have hfind := KeyedTable.find_eq_some.mpr ⟨hitem, rfl⟩
  rw [runImports_eq, find_foldl_persist] at hfind
  rcases Option.or_eq_some_iff.mp hfind with hlast | ⟨_, hempty⟩
  · obtain ⟨entry, hentry, heq⟩ := Option.map_eq_some_iff.mp hlast
    exact ⟨entry, (List.mem_filter.mp (List.mem_of_getLast? hentry)).1, heq⟩
  · obtain ⟨hmem, _⟩ := KeyedTable.find_eq_some.mp hempty
    exact absurd hmem List.not_mem_nil

theorem Pull.SharesItem.selected {first second : Pull} (hshares : first.SharesItem second) :
    first.source = second.source ∧ first.repo = second.repo ∧
      first.storedNumber = second.storedNumber := by
  cases first with
  | github repo sourceRepo number =>
    cases second with
    | github repo' sourceRepo' number' =>
      obtain ⟨rfl, rfl⟩ := hshares
      exact ⟨rfl, rfl, rfl⟩
    | gitlab host path iid => exact hshares.elim
  | gitlab host path iid =>
    cases second with
    | github repo' sourceRepo' number' => exact hshares.elim
    | gitlab host' path' iid' =>
      obtain ⟨rfl, rfl, rfl⟩ := hshares
      exact ⟨rfl, rfl, rfl⟩

theorem reaches_of_selected {imports : List Import} {command : DraftCommand}
    {items : List ReviewItemWithComments}
    (hlisted : ListedBySource (runImports imports).store command.source items)
    {entry : ReviewItemWithComments} (hentry : entry ∈ items)
    (hselects : command.selects entry.item = true) {comment : ReviewComment}
    (hcomment : comment ∈ entry.comments) :
    comment ∈ (runImports imports).store.comments ∧
      comment.origin ∈ origins (allPersisted imports) ∧
      command.Reaches comment.origin.pull := by
  have hitem : entry.item ∈ (runImports imports).store.items.rows ∧
      entry.item.source = command.source := by
    have hmem := (hlisted.items.mem_iff).mp (List.mem_map_of_mem hentry)
    obtain ⟨hrow, hsource⟩ := List.mem_filter.mp hmem
    exact ⟨hrow, of_decide_eq_true hsource⟩
  obtain ⟨hstored, hreview⟩ :=
    List.mem_filter.mp ((hlisted.comments entry hentry).mem_iff.mp hcomment)
  obtain ⟨writer, hwriter, hwritten⟩ := mem_items_runImports hitem.1
  obtain ⟨reader, hreader, arrival, harrival, rfl⟩ := mem_comments_runImports hstored
  have hwriterSound := allPersisted_sound hwriter
  have hreaderSound := allPersisted_sound hreader
  have harrives := hreaderSound.arrives arrival harrival
  have hshares : writer.pull.SharesItem arrival.row.origin.pull := by
    rw [harrives.pull]
    apply Pull.sharesItem_of_itemId hwriterSound.plain hreaderSound.plain
    rw [← hwriterSound.id, hwritten, ← of_decide_eq_true hreview, harrives.item]
  obtain ⟨hsource, hrepo, hnumber⟩ := hshares.selected
  simp only [DraftCommand.selects, Bool.and_eq_true, decide_eq_true_eq] at hselects
  refine ⟨hstored, mem_origins.mpr ⟨reader, hreader, arrival, harrival, rfl⟩, ?_, ?_, ?_⟩
  · rw [← hsource, ← hwriterSound.source, hwritten, hitem.2]
  · rw [← hrepo, ← hwriterSound.repo, hwritten, hselects.1]
  · rw [← hnumber, ← hwriterSound.number, hwritten, hselects.2]

/-! ## What drafting writes -/

def InputFrom (reading : ReviewReading) (sourceRepo : RepoScope) (comment : ReviewComment)
    (input : RememberRuleInput) : Prop :=
  ∃ item candidate, localCandidateInput reading item sourceRepo comment = some candidate ∧
    (input = candidate.input ∨ ∃ (answer : AgentDistillCandidate) (seed : DistillSeed),
      seed.candidate = candidate ∧ input = inputFromAgentCandidate reading answer seed)

def FromScope (reading : ReviewReading) (store : ReviewStore) (sourceRepo : RepoScope)
    (input : RememberRuleInput) : Prop :=
  ∃ comment ∈ store.comments, comment.origin.pull.scope = some sourceRepo ∧
    InputFrom reading sourceRepo comment input

theorem draftedFrom_storeAgentCandidate {call : AgentCall} {sourceRepo : RepoScope}
    {route : CaptureRoute} {sourceKind : ReviewSourceKind} {input : RememberRuleInput}
    {run : AgentRun} {from' : RememberRuleInput → Prop} {base : Context.SkillTable}
    (hfrom : from' input) (hdrafted : DraftedFrom library sourceRepo from' base run.store.skills) :
    DraftedFrom library sourceRepo from' base
      (storeAgentCandidate library call sourceRepo route sourceKind input run).store.skills := by
  unfold storeAgentCandidate
  rcases rememberFailing_cases call.faults (rememberAsCandidateForRepo library call.clock input
      (candidateConfidence call.candidate) sourceRepo (some sourceKind.wireLabel)) run.store with
    ⟨err, herror⟩ | ⟨after, outcome, hcall, ⟨err, torn, herror, htorn⟩ | hok⟩
  · rw [herror]
    exact hdrafted
  · rw [herror]
    exact htorn ▸ hdrafted.call hfrom hcall
  · rw [hok]
    have hafter := hdrafted.call hfrom hcall
    dsimp only
    split
    next => exact hafter
    next =>
      split
      next =>
        split
        next => exact hafter
        next => exact hafter
        next promoted _ hpromote =>
          dsimp only
          rw [promoteDraft_eq_ok hpromote]
          exact hafter.promote _
      next => exact hafter

theorem draftedFrom_writeAgentCandidates {sourceRepo : RepoScope} {seeds : List DistillSeed}
    {calls : List AgentCall} {run : AgentRun}
    {from' : RememberRuleInput → Prop} {base : Context.SkillTable}
    (hfrom : ∀ seed ∈ seeds, ∀ answer, from' (inputFromAgentCandidate reading answer seed))
    (hdrafted : DraftedFrom library sourceRepo from' base run.store.skills) :
    DraftedFrom library sourceRepo from' base
      (writeAgentCandidates reading library sourceRepo seeds calls run).store.skills := by
  induction calls generalizing run with
  | nil => exact hdrafted
  | cons call rest ih =>
    unfold writeAgentCandidates
    split
    next => exact hdrafted
    next =>
      split
      next => exact hdrafted
      next =>
        apply ih
        unfold writeAgentCandidate
        dsimp only
        split
        next => exact hdrafted
        next resolution hseed =>
          have hinput := hfrom _ (mem_of_seedForAgentCandidate hseed) call.candidate
          cases agentCandidateGate call.candidate resolution seeds with
          | mk route sourceKind =>
            dsimp only
            split
            next => exact hdrafted
            next =>
              split
              next => exact hdrafted
              next =>
                split
                next => exact hdrafted
                next =>
                  split
                  next => exact hdrafted
                  next => exact draftedFrom_storeAgentCandidate hinput hdrafted

/-- Every draft of a command has its scope and comes from a comment of that scope. -/
theorem drafts_in_scope (reading : ReviewReading) (library : Context.RememberLibrary)
    (imports : List Import) (command : DraftCommand)
    (hscope : ∀ origin ∈ origins (allPersisted imports), command.Reaches origin.pull →
      origin.pull.scope = some command.sourceRepo) (items : List ReviewItemWithComments)
    (hlisted : ListedBySource (runImports imports).store command.source items) :
    (∀ (clock : Nat → CallClock) (rules : RuleStore), DraftedFrom library command.sourceRepo
        (FromScope reading (runImports imports).store command.sourceRepo) rules.skills
        (runLocalCandidates reading library command items clock rules).skills) ∧
    ∀ (answer : List AgentCall) (rules : RuleStore), DraftedFrom library command.sourceRepo
        (FromScope reading (runImports imports).store command.sourceRepo) rules.skills
        (runLocalAgentCandidates reading library command items answer rules).skills := by
  have hcomments : ∀ entry ∈ items, command.selects entry.item = true →
      ∀ comment ∈ entry.comments, comment ∈ (runImports imports).store.comments ∧
        comment.origin.pull.scope = some command.sourceRepo := by
    intro entry hentry hselects comment hcomment
    obtain ⟨hstored, horigin, hreaches⟩ := reaches_of_selected hlisted hentry hselects hcomment
    exact ⟨hstored, hscope _ horigin hreaches⟩
  constructor
  · intro clock rules
    apply draftedFrom_importReviews
    intro stored hmem
    obtain ⟨candidate, hcandidate, rfl⟩ := List.mem_map.mp hmem
    obtain ⟨entry, hentry, hselects, comment, hcomment, hdraft⟩ := mem_draftedCandidates hcandidate
    obtain ⟨hstored, hown⟩ := hcomments entry hentry hselects comment hcomment
    exact ⟨comment, hstored, hown, entry.item, candidate, hdraft, .inl rfl⟩
  · intro answer rules
    unfold runLocalAgentCandidates
    dsimp only
    split
    next => exact DraftedFrom.refl
    next =>
      apply draftedFrom_writeAgentCandidates _ DraftedFrom.refl
      intro seed hseed given
      obtain ⟨entry, hentry, hselects, comment, hcomment, hdraft⟩ := mem_collectDistillSeeds hseed
      obtain ⟨hstored, hown⟩ := hcomments entry hentry hselects comment hcomment
      exact ⟨comment, hstored, hown, entry.item, seed.candidate, hdraft,
        .inr ⟨given, seed, rfl, rfl⟩⟩

/-! ## A rule of the upstream -/

section Samples

/-- Pull request 8 by Carol, in which Bob says something about the payload. -/
def payloadPr : Github.PrNode :=
  { samplePr 8 "carol" 2 with
    reviewThreads := [⟨false, [{ sampleComment "bob" 2 with body := payloadContent }]⟩] }

def payloadImport (sourceRepo : Text) : List Import :=
  [sampleImport "acme/app" sourceRepo [payloadPr]]

def ownCommand : DraftCommand where
  source := "github"
  repo := "acme/app"
  sourceRepo := ⟨"acme/app"⟩
  maxCandidates := 25
  prNumbers := []
  excludePrs := []

def payloadOpts (sourceRepo : Text) : Github.ImportOptions := ⟨"acme/app", sourceRepo, "p", []⟩

def payloadItem (sourceRepo : Text) : ReviewItem := Github.item (payloadOpts sourceRepo) payloadPr 8

def payloadComment (sourceRepo : Text) : ReviewComment :=
  (Github.inlineArrival (payloadOpts sourceRepo) 8
    ⟨false, [{ sampleComment "bob" 2 with body := payloadContent }]⟩
    { sampleComment "bob" 2 with body := payloadContent } 0 2).row

def payloadCandidate (sourceRepo : Text) : LocalCandidate where
  input := candidateInput payloadReading (payloadItem sourceRepo) (payloadComment sourceRepo)
    ownCommand.sourceRepo.value ["a.rs"]
  confidence := 1 / 2
  route := .candidate
  sourceKind := .human
  comment := payloadComment sourceRepo

end Samples

def payloadLibrary : Context.RememberLibrary where
  jsonStrings _ := some ["**/*.rs"]
  printStrings _ := "[\"**/*.rs\"]"
  sha1Hex _ := []
  redactSecrets input := input
  sha256Hex _ := "bb5bfb893d5693135e207b43b8b31d413d5d049cfd219c295794e1979bb11366"

theorem payload_drafted {sourceRepo : Text}
    (hsource : sourceRepo = "acme/app" ∨ sourceRepo = "up/app") :
    draftedCandidates payloadReading ownCommand
      (listBySource (runImports (payloadImport sourceRepo)).store "github") =
        [payloadCandidate sourceRepo] := by
  have hitems : (listBySource (runImports (payloadImport sourceRepo)).store
      "github").filter (fun entry => ownCommand.selects entry.item) =
        [⟨payloadItem sourceRepo, [payloadComment sourceRepo]⟩] := by
    rcases hsource with rfl | rfl <;> decide
  have hresponse : isPrAuthorResponse (payloadItem sourceRepo) (payloadComment sourceRepo) =
      false := by
    rcases hsource with rfl | rfl <;> decide
  have hlabel : (payloadComment sourceRepo).label = .human := by
    rcases hsource with rfl | rfl <;> decide
  have hdirective : payloadReading.reviewDirective payloadContent ≠ fallbackReviewDirective := by
    decide
  have hscore : payloadReading.bestDirectiveScore payloadContent ["a.rs"] = some 4 := by
    decide
  have hsignal : payloadReading.isHighSignal payloadContent ["a.rs"] = true := by decide
  have hdraft : localCandidateInput payloadReading (payloadItem sourceRepo) ownCommand.sourceRepo
      (payloadComment sourceRepo) = some (payloadCandidate sourceRepo) :=
    localCandidateInput_of_neutral hresponse rfl (List.cons_ne_nil _ _) hsignal hscore (by decide)
      hdirective hlabel rfl rfl rfl
  unfold draftedCandidates
  rw [hitems]
  simp [hdraft]

theorem payload_stored {sourceRepo : Text}
    (hsource : sourceRepo = "acme/app" ∨ sourceRepo = "up/app") :
    (runLocalCandidates payloadReading payloadLibrary ownCommand
      (listBySource (runImports (payloadImport sourceRepo)).store "github")
      (callClock 'a') emptyStore).skills.rows.map Context.SkillRow.sourceRepo =
        [some "acme/app".toList] := by
  unfold runLocalCandidates
  rw [payload_drafted hsource]
  rcases hsource with rfl | rfl <;> decide

/-- The command for the fork's own reviews drafts a rule of its scope from a comment of the
upstream. -/
theorem upstream_rule_in_own_scope : ¬ DraftedFrom payloadLibrary ownCommand.sourceRepo
      (FromScope payloadReading (runImports (payloadImport "up/app")).store
        ownCommand.sourceRepo) emptyStore.skills
      (runLocalCandidates payloadReading payloadLibrary ownCommand
        (listBySource (runImports (payloadImport "up/app".toList)).store "github".toList)
        (callClock 'a') emptyStore).skills := by
  intro hdrafted
  have hrows := payload_stored (.inr rfl)
  obtain ⟨row, hrow, _⟩ := List.mem_map.mp (hrows ▸ List.mem_singleton_self _)
  have hforeign : ∀ comment ∈ (runImports (payloadImport "up/app".toList)).store.comments,
      comment.origin.pull.scope ≠ some ownCommand.sourceRepo := by decide
  rcases hdrafted row hrow with hold | ⟨_, input, ⟨comment, hcomment, hscope, _⟩, _⟩
  · exact absurd hold List.not_mem_nil
  · exact hforeign comment hcomment hscope

/-- The same command after an import of the fork's own pull request. -/
theorem own_rule_in_scope :
    (∃ row, row ∈ (runLocalCandidates payloadReading payloadLibrary ownCommand
      (listBySource (runImports (payloadImport "acme/app")).store "github")
      (callClock 'a') emptyStore).skills.rows) ∧
    DraftedFrom payloadLibrary ownCommand.sourceRepo
      (FromScope payloadReading (runImports (payloadImport "acme/app")).store
        ownCommand.sourceRepo) emptyStore.skills
      (runLocalCandidates payloadReading payloadLibrary ownCommand
        (listBySource (runImports (payloadImport "acme/app".toList)).store "github".toList)
        (callClock 'a') emptyStore).skills := by
  constructor
  · have hrows := payload_stored (.inl rfl)
    obtain ⟨row, hrow, _⟩ := List.mem_map.mp (hrows ▸ List.mem_singleton_self _)
    exact ⟨row, hrow⟩
  · exact (drafts_in_scope payloadReading payloadLibrary (payloadImport "acme/app".toList)
      ownCommand (by decide) _ (listedBySource_listBySource _ _)).1 (callClock 'a') emptyStore

end Difflore.Ingest

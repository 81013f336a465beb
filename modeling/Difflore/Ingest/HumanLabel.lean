import Difflore.Ingest.AgentDistill

/-! # What a human label means

A candidate labelled human has a human author. That no bot stands in front of it in the thread
depends on the bot being noticed, and the evidence may hold what a bot said later. The gate over
an agent's answers activates for a known seed with a human label only.
-/

namespace Difflore.Ingest

open Foundation Infra Skills

variable {reading : ReviewReading} {library : Context.RememberLibrary}

variable {run : AgentRun} {seeds : List DistillSeed} {sourceRepo : RepoScope}
  {sourceKind : ReviewSourceKind}

/-- A human label is that of a thread in which no bot spoke before, and of evidence in which no
bot speaks. -/
def HonestLabel (reading : ReviewReading) (thread : ImportedThread) (idx : Nat)
    (comments : List ReviewComment) (candidate : LocalCandidate) : Prop :=
  candidate.sourceKind = .human → candidate.comment.byBot = false ∧
    (∀ remark ∈ thread.earlier idx, remark.byBot = false) ∧
    ∀ other ∈ evidenceComments reading comments candidate.comment, other.byBot = false

/-- Where the label can be trusted: a bot is known to the label, or there is none. -/
def LabelTrusted (reading : ReviewReading) (thread : ImportedThread) (idx : Nat)
    (comments : List ReviewComment) (comment : ReviewComment) : Prop :=
  comment.byBot = true ∨ BotNoticed thread.recorded (thread.earlier idx) ∨
    ((∀ remark ∈ thread.earlier idx, remark.byBot = false) ∧
      ∀ other ∈ evidenceComments reading comments comment, other.byBot = false)

theorem honestLabel_iff {thread : ImportedThread} {idx : Nat} {item : ReviewItem}
    {comments : List ReviewComment} {comment : ReviewComment} {candidate : LocalCandidate}
    (hcomment : thread.comment idx = some comment)
    (hdraft : localCandidateInput reading item sourceRepo comment = some candidate) :
    HonestLabel reading thread idx comments candidate ↔
      LabelTrusted reading thread idx comments comment := by
  obtain ⟨hsame, hkind⟩ := localCandidateInput_eq_some hdraft
  unfold HonestLabel LabelTrusted
  rw [hsame, hkind, ImportedThread.label_eq_human_iff hcomment]
  constructor
  · intro hhonest
    by_cases hbot : comment.byBot = true
    · exact .inl hbot
    · by_cases hnoticed : BotNoticed thread.recorded (thread.earlier idx)
      · exact .inr (.inl hnoticed)
      · exact .inr (.inr (hhonest ⟨Bool.eq_false_iff.mpr hbot, hnoticed⟩).2)
  · rintro htrusted ⟨hbot, hnoticed⟩
    rcases htrusted with hown | hseen | hnone
    · rw [hbot] at hown
      contradiction
    · exact absurd hseen hnoticed
    · exact ⟨hbot, hnone⟩

theorem heldBack_active {held : Bool} {route : CaptureRoute}
    (hroute : (if held && route = .active then .candidate else route) = CaptureRoute.active) :
    held = false ∧ route = .active := by
  cases held with
  | false => exact ⟨rfl, hroute⟩
  | true =>
    cases route with
    | active => contradiction
    | candidate => contradiction
    | drop => contradiction

theorem candidateRouteForSource_active {candidate : AgentDistillCandidate}
    (hroute : candidateRouteForSource candidate sourceKind = .active) : sourceKind = .human := by
  obtain ⟨hvalidated, -⟩ := heldBack_active hroute
  cases sourceKind with
  | human => rfl
  | bot name => contradiction
  | humanOverrideBot => contradiction

theorem agentCandidateGate_active {candidate : AgentDistillCandidate} {resolution : SeedResolution}
    (hgate : agentCandidateGate candidate resolution seeds = (.active, sourceKind)) :
    resolution.resolved = true ∧ resolution.seed.candidate.sourceKind = .human := by
  unfold agentCandidateGate at hgate
  obtain ⟨hroute, -⟩ := Prod.mk.inj hgate
  rw [Bool.and_comm] at hroute
  obtain ⟨hheld, hactive⟩ := heldBack_active hroute
  have hresolved : resolution.resolved = true := by simpa using hheld
  rw [if_pos hresolved] at hactive
  exact ⟨hresolved, candidateRouteForSource_active hactive⟩

theorem seedForAgentCandidate_resolved {candidate : AgentDistillCandidate}
    {resolution : SeedResolution} (hseed : seedForAgentCandidate candidate seeds = some resolution)
    (hresolved : resolution.resolved = true) :
    candidate.sourceIndex = some resolution.seed.index ∧ resolution.seed ∈ seeds := by
  rcases Option.or_eq_some_iff.mp hseed with hfound | ⟨_, hfirst⟩
  · obtain ⟨seed, hbind, rfl⟩ := Option.map_eq_some_iff.mp hfound
    obtain ⟨index, hindex, hfind⟩ := Option.bind_eq_some_iff.mp hbind
    have hsame : seed.index = index := by simpa using List.find?_some hfind
    exact ⟨by rw [hindex, hsame], List.mem_of_find?_eq_some hfind⟩
  · obtain ⟨seed, _, rfl⟩ := Option.map_eq_some_iff.mp hfirst
    contradiction

/-! ## Activations -/

/-- Every active row was active before, or is the rule of an answer whose seed is known and
labelled human. -/
def ActivatedByHumans (reading : ReviewReading) (library : Context.RememberLibrary)
    (seeds : List DistillSeed) (answer : List AgentDistillCandidate)
    (before after : Context.SkillTable) : Prop :=
  ∀ row ∈ after.rows, row.status = .active → row ∈ before.rows ∨
    ∃ candidate ∈ answer, ∃ seed ∈ seeds, candidate.sourceIndex = some seed.index ∧
      seed.candidate.sourceKind = .human ∧ row.contentHash =
        some (rememberSignatureHash library (inputFromAgentCandidate reading candidate seed))

theorem storeAgentCandidate_active {call : AgentCall} {route : CaptureRoute}
    {input : RememberRuleInput} :
    ∀ row ∈ (storeAgentCandidate library call sourceRepo route sourceKind input
        run).store.skills.rows, row.status = .active → row ∈ run.store.skills.rows ∨
      (route = .active ∧ row.contentHash = some (rememberSignatureHash library input)) := by
  intro row hrow hactive
  unfold storeAgentCandidate at hrow
  rcases rememberFailing_cases call.faults (rememberAsCandidateForRepo library call.clock input
      (candidateConfidence call.candidate) sourceRepo (some sourceKind.wireLabel)) run.store with
    ⟨err, herror⟩ | ⟨store, outcome, hcall, ⟨err, torn, herror, htorn⟩ | hok⟩
  · rw [herror] at hrow
    exact .inl hrow
  · rw [herror] at hrow
    have hstored : row ∈ torn.skills.rows := hrow
    rw [htorn] at hstored
    exact .inl (((rememberInner_tierKept hcall).active row hactive).mp hstored)
  · rw [hok] at hrow
    have hkept := (rememberInner_tierKept hcall).active
    dsimp only at hrow
    split at hrow
    next => exact .inl ((hkept row hactive).mp hrow)
    next hfresh =>
      split at hrow
      next hroute =>
        split at hrow
        next => exact .inl ((hkept row hactive).mp hrow)
        next => exact .inl ((hkept row hactive).mp hrow)
        next promoted _ hpromote =>
          dsimp only at hrow
          rw [promoteDraft_eq_ok hpromote] at hrow
          rcases mem_promoteCandidate hrow with hrow | ⟨old, hold, hid, _, _, _, hhash, _⟩
          · exact .inl ((hkept row hactive).mp hrow)
          · obtain ⟨hskill, hcontent⟩ := rememberInner_fresh hcall (Bool.eq_false_iff.mpr hfresh)
            rw [Foundation.KeyedTable.eq_of_key hold hskill hid] at hhash
            exact .inr ⟨hroute, hhash.trans hcontent⟩
      next => exact .inl ((hkept row hactive).mp hrow)

theorem ActivatedByHumans.candidate {answer : List AgentDistillCandidate}
    {before : Context.SkillTable} {call : AgentCall} (hmem : call.candidate ∈ answer)
    (hactivated : ActivatedByHumans reading library seeds answer before run.store.skills) :
    ActivatedByHumans reading library seeds answer before
      (writeAgentCandidate reading library sourceRepo seeds call run).store.skills := by
  unfold writeAgentCandidate
  dsimp only
  split
  next => exact hactivated
  next resolution hseed =>
    cases hgate : agentCandidateGate call.candidate resolution seeds with
    | mk route sourceKind =>
      dsimp only
      split
      next => exact hactivated
      next =>
        split
        next => exact hactivated
        next =>
          split
          next => exact hactivated
          next =>
            split
            next => exact hactivated
            next =>
              intro row hrow hactive
              rcases storeAgentCandidate_active row hrow hactive with hold | ⟨rfl, hhash⟩
              · exact hactivated row hold hactive
              · obtain ⟨hresolved, hhuman⟩ := agentCandidateGate_active hgate
                obtain ⟨hindex, hlisted⟩ := seedForAgentCandidate_resolved hseed hresolved
                exact .inr ⟨call.candidate, hmem, resolution.seed, hlisted, hindex, hhuman, hhash⟩

theorem activatedByHumans_of_answer {answer : List AgentDistillCandidate}
    {before : Context.SkillTable} {calls : List AgentCall}
    (hcalls : ∀ call ∈ calls, call.candidate ∈ answer)
    (hactivated : ActivatedByHumans reading library seeds answer before run.store.skills) :
    ActivatedByHumans reading library seeds answer before
      (writeAgentCandidates reading library sourceRepo seeds calls run).store.skills := by
  induction calls generalizing run with
  | nil => exact hactivated
  | cons call rest ih =>
    unfold writeAgentCandidates
    split
    next => exact hactivated
    next =>
      split
      next => exact hactivated
      next =>
        apply ih
        · intro call hcall
          exact hcalls call (.tail _ hcall)
        · exact hactivated.candidate (hcalls _ (.head _))

/-- A label means what it says exactly where it can be trusted, and an agent's answer activates
rules of known seeds with a human label only. -/
theorem human_label_iff (reading : ReviewReading) (library : Context.RememberLibrary) :
    (∀ (thread : ImportedThread) (idx : Nat) (comment : ReviewComment) (item : ReviewItem)
        (sourceRepo : RepoScope) (comments : List ReviewComment) (candidate : LocalCandidate),
      thread.comment idx = some comment →
      localCandidateInput reading item sourceRepo comment = some candidate →
      (HonestLabel reading thread idx comments candidate ↔
        LabelTrusted reading thread idx comments comment)) ∧
    ∀ (sourceRepo : RepoScope) (seeds : List DistillSeed)
      (calls : List AgentCall) (run : AgentRun),
      ActivatedByHumans reading library seeds (calls.map (·.candidate)) run.store.skills
        (writeAgentCandidates reading library sourceRepo seeds calls run).store.skills := by
  constructor
  · intro thread idx comment item sourceRepo comments candidate hcomment hdraft
    exact honestLabel_iff hcomment hdraft
  · intro sourceRepo seeds calls run
    apply activatedByHumans_of_answer
    · intro call hcall
      exact List.mem_map_of_mem hcall
    · intro row hrow _
      exact .inl hrow

section Samples

def payloadContent : Text := "Validate the payload before parsing it."

/-- How the text about the payload is read, in the file `a.rs`. -/
def payloadReading : ReviewReading where
  isPlatformReviewWrapper _ := false
  candidateScopePaths _ _ := ["a.rs"]
  isHighSignal content _ := content = payloadContent
  bestDirectiveScore content _ := if content = payloadContent then some 4 else none
  reviewDirective _ := "validate the payload before parsing it"
  ruleStatement _ := payloadContent
  evidenceExcerpt _ _ := "Validate the payload before parsing it"
  candidateTitle _ _ := "Validate the payload before parsing it"
  candidateFilePatterns _ _ := some ["**/*.rs"]
  cleanReviewComment content := content
  redactSecrets text := text

def reviewNote (id : Int) (author body : Text) : Gitlab.Note where
  id
  body
  author := some author
  system := false
  resolvable := true
  resolved := false
  position := some (some "a.rs", some 3)

theorem noSlash_gl : '/' ∉ ("gl" : Text) := by decide

def notesOpts : Gitlab.ImportOptions := ⟨⟨"gl", noSlash_gl⟩, "acme/app", "p", []⟩

def notesRequest (discussion : Gitlab.Discussion) : Gitlab.MergeRequest :=
  ⟨7, some "dora", none, [discussion], []⟩

def answeredNote (answerer : Text) : Gitlab.Discussion :=
  ⟨"d", [reviewNote 1 "alice" payloadContent, reviewNote 2 answerer "Rename this helper."]⟩

def answeredThread (answerer : Text) : ImportedThread :=
  .gitlab notesOpts (notesRequest (answeredNote answerer)) (answeredNote answerer)

def answeredComment (answerer : Text) : ReviewComment :=
  (Gitlab.noteArrival notesOpts (notesRequest (answeredNote answerer)) (answeredNote answerer)
    (reviewNote 1 "alice" payloadContent) 0).row

def answeredComments (answerer : Text) : List ReviewComment :=
  (Gitlab.arrivals notesOpts (notesRequest (answeredNote answerer))).map (·.row)

def payloadScope : RepoScope := ⟨"gitlab.com/acme/app"⟩

end Samples

theorem answered_drafted (answerer : Text)
    (hanswerer : answerer = "renovate-bot" ∨ answerer = "bob") :
    ∃ candidate, localCandidateInput payloadReading
        (Gitlab.item notesOpts (notesRequest (answeredNote answerer))) payloadScope
        (answeredComment answerer) = some candidate ∧
      candidate.sourceKind = .human ∧ candidate.comment = answeredComment answerer := by
  have hlabel : (answeredComment answerer).label = .human := by
    rcases hanswerer with rfl | rfl <;> decide
  have hread : (isPrAuthorResponse (Gitlab.item notesOpts (notesRequest (answeredNote answerer)))
      (answeredComment answerer)) = false := by
    rcases hanswerer with rfl | rfl <;> decide
  have hreplies : repliesContradict (answeredComment answerer).metadata.signal.laterReplies =
      false := by
    rcases hanswerer with rfl | rfl <;> decide
  have hdirective : payloadReading.reviewDirective payloadContent ≠ fallbackReviewDirective := by
    decide
  have hscore : payloadReading.bestDirectiveScore payloadContent ["a.rs"] = some 4 := by
    decide
  have hsignal : payloadReading.isHighSignal payloadContent ["a.rs"] = true := by decide
  have hdrafted : ∃ candidate, localCandidateInput payloadReading
      (Gitlab.item notesOpts (notesRequest (answeredNote answerer))) payloadScope
      (answeredComment answerer) = some candidate :=
    ⟨_, localCandidateInput_of_neutral hread rfl (List.cons_ne_nil _ _) hsignal hscore
      (by decide) hdirective hlabel rfl rfl hreplies⟩
  obtain ⟨candidate, hdraft⟩ := hdrafted
  obtain ⟨hcomment, hkind⟩ := localCandidateInput_eq_some hdraft
  exact ⟨candidate, hdraft, hkind.trans hlabel, hcomment⟩

/-- What a bot said after Alice is evidence for a seed that is labelled human. -/
theorem bot_reply_on_human_label : (answeredThread "renovate-bot").comment 0 =
        some (answeredComment "renovate-bot") ∧
      ∃ candidate, localCandidateInput payloadReading
          (Gitlab.item notesOpts (notesRequest (answeredNote "renovate-bot"))) payloadScope
          (answeredComment "renovate-bot") = some candidate ∧
        ¬ HonestLabel payloadReading (answeredThread "renovate-bot") 0
          (answeredComments "renovate-bot") candidate := by
  obtain ⟨candidate, hdraft, hhuman, hcomment⟩ := answered_drafted _ (.inl rfl)
  refine ⟨rfl, candidate, hdraft, ?_⟩
  intro hhonest
  have hevidence := (hhonest hhuman).2.2
  rw [hcomment] at hevidence
  revert hevidence
  decide

/-- The label of a note that a human answers. -/
theorem honest_label_answered : ∃ candidate, candidate.comment = answeredComment "bob" ∧
      HonestLabel payloadReading (answeredThread "bob") 0 (answeredComments "bob")
        candidate := by
  obtain ⟨candidate, hdraft, _, hcomment⟩ := answered_drafted _ (.inr rfl)
  have hnone : (∀ remark ∈ (answeredThread "bob").earlier 0, remark.byBot = false) ∧
      ∀ other ∈ evidenceComments payloadReading (answeredComments "bob")
        (answeredComment "bob"), other.byBot = false := by decide
  refine ⟨candidate, hcomment, ?_⟩
  exact ((human_label_iff payloadReading Skills.twoLetters).1 _ 0 (answeredComment "bob")
    _ _ _ _ rfl hdraft).mpr (.inr (.inr hnone))

end Difflore.Ingest

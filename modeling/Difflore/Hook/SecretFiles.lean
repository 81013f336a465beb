import Difflore.Hook.Adapters

/-! # Do secret-bearing files stay local?

Two runs see the same events, except for the texts of edits to files the documentation
lists as denied, and for the contents of those files. The deny list guards one of the
routes by which such a text reaches a queue; the others have to be closed.
-/

namespace Difflore.Hook

open Foundation Text
open Cloud.Observations (ObservationEvent)

variable {other : Env} {files : List Text} {stores : Stores} {sessionId file : Text}

/-! ## What two runs may differ in -/

def Member.blank : Member → Member
  | .text _ => .text []
  | .absent => .absent
  | .nonText => .nonText

def EditItem.blank (item : EditItem) : EditItem := ⟨item.oldString.blank, item.newString.blank⟩

def EditTexts.blank (texts : EditTexts) : EditTexts where
  oldString := texts.oldString.blank
  newString := texts.newString.blank
  content := texts.content.blank
  oldCode := texts.oldCode.blank
  newCode := texts.newCode.blank
  command := texts.command.blank
  edits := texts.edits.map (·.map EditItem.blank)

def ToolInput.blank (input : ToolInput) : ToolInput := { input with texts := input.texts.blank }

def ToolCall.blank : ToolCall → ToolCall
  | .claudeCode toolName input output sessionId =>
    .claudeCode toolName (input.map ToolInput.blank) (output.map fun _ => []) sessionId
  | .cursorFileEdit toolName filePath input =>
    .cursorFileEdit toolName filePath (input.map ToolInput.blank)
  | .geminiAfterTool toolName input output sessionId =>
    .geminiAfterTool toolName (input.map ToolInput.blank) (output.map fun _ => []) sessionId
  | .windsurfWriteCode info trajectoryId executionId =>
    .windsurfWriteCode (info.map ToolInput.blank) trajectoryId executionId
  | .codexApplyPatch _ sessionId => .codexApplyPatch none sessionId
  | .codexTool toolName input sessionId =>
    .codexTool toolName (input.map ToolInput.blank) sessionId

/-- The lines of a patch outside the hunks of denied files; file headers all stay. -/
def publicPatchLines : Bool → List Text → List Text
  | _, [] => []
  | denied, line :: rest =>
    match Codex.fileHeader line with
    | some path => line :: publicPatchLines (isDocumentedDenied path) rest
    | none => if denied then publicPatchLines true rest else line :: publicPatchLines false rest

def ToolCall.publicLines : ToolCall → List Text
  | .codexApplyPatch command _ => publicPatchLines false (Text.lines (command.getD []))
  | _ => []

def ToolCall.targetFiles (call : ToolCall) : List Text :=
  orderedTargetFiles call.event.filePath call.event.targetFiles

def ToolCall.touchesDenied (call : ToolCall) : Bool := call.targetFiles.any isDocumentedDenied

def AlikeCalls (first second : ToolCall) : Prop := first = second ∨
    (first.touchesDenied ∧ first.blank = second.blank ∧ first.publicLines = second.publicLines)

/-- The same answers, but for what git and the disk say of denied files. -/
def AlikeEnvs (first second : Env) : Prop := second = { first with files := second.files } ∧
    ∀ path, if isDocumentedDenied path then
        (second.files path).map RepoFile.repoFile = (first.files path).map RepoFile.repoFile
      else second.files path = first.files path

inductive HookInput where
  | postEdit (env : Env) (call : ToolCall)
  | stop (env : Env) (sessionId message : Option Text)

def HookInput.Alike : HookInput → HookInput → Prop
  | .postEdit env call, .postEdit otherEnv otherCall =>
    AlikeEnvs env otherEnv ∧ AlikeCalls call otherCall
  | .stop env sessionId message, .stop otherEnv otherSessionId otherMessage =>
    AlikeEnvs env otherEnv ∧ sessionId = otherSessionId ∧ message = otherMessage
  | _, _ => False

def HookInput.env : HookInput → Env
  | .postEdit env _ => env
  | .stop env _ _ => env

def Env.keepsObservation (env : Env) : Bool :=
  env.captureEnabled && ((env.dbAvailable && env.outboxError.isNone) || env.spillName.isSome)

def Env.reachesRetrieval (env : Env) : Bool := env.dbAvailable && env.indexAvailable

/-- A denied file that lies in a repository: what git says of it may not show. -/
def Env.hides (env : Env) (file : Text) : Bool := isDocumentedDenied file && (env.files file).isSome

/-- Among the files of a rule, a public one with a diff comes before every hidden one, or
none is hidden. -/
def PublicDecides (env : Env) (files : List Text) : Prop :=
  ∀ file ∈ files.find? (fun file => env.hides file || env.gitFileHasDiff file),
    env.hides file = false

theorem filter_publicPatchLines (denied : Bool) (lines : List Text) :
    (publicPatchLines denied lines).filter (fun line => (Codex.fileHeader line).isSome) =
      lines.filter fun line => (Codex.fileHeader line).isSome := by
  induction lines generalizing denied with
  | nil => rfl
  | cons line rest ih =>
    unfold publicPatchLines
    split
    next path hheader => simp [hheader, ih]
    next hheader =>
      cases denied with
      | true => simp [hheader, ih]
      | false => simp [hheader, ih]

theorem patchFilePaths_filter (lines : List Text) :
    Codex.patchFilePaths (lines.filter fun line => (Codex.fileHeader line).isSome) =
      Codex.patchFilePaths lines := by
  rw [Codex.patchFilePaths, List.foldl_filter]
  congr 1
  funext paths line
  cases hheader : Codex.fileHeader line with
  | none => simp [Codex.addHeaderPath, hheader]
  | some path => simp

theorem fileHeader_of_addFile {line : Text} (hadd : Codex.addFile <+: line) :
    (Codex.fileHeader line).isSome := by
  have hstrip : stripPrefix Codex.addFile line = some (line.drop Codex.addFile.length) := by
    rw [stripPrefix, if_pos hadd]
  rw [Codex.fileHeader, Option.isSome_map, List.findSome?_isSome_iff]
  exact ⟨Codex.addFile, by simp, by simp [hstrip]⟩

theorem codexPatchToolName_filter (lines : List Text) :
    Codex.codexPatchToolName (lines.filter fun line => (Codex.fileHeader line).isSome) =
      Codex.codexPatchToolName lines := by
  have hcount : (lines.filter fun line => (Codex.fileHeader line).isSome).countP
      (fun line => (Codex.fileHeader line).isSome) =
      lines.countP fun line => (Codex.fileHeader line).isSome := by
    rw [List.countP_filter]
    simp
  have hadd : ((lines.filter fun line => (Codex.fileHeader line).isSome).any
      fun line => Codex.addFile <+: line) = lines.any fun line => Codex.addFile <+: line := by
    rw [List.any_filter]
    congr 1
    funext line
    by_cases hline : Codex.addFile <+: line
    · simp [hline, fileHeader_of_addFile hline]
    · simp [hline]
  rw [Codex.codexPatchToolName, hcount, hadd]
  rfl

def PostToolUse.header (event : PostToolUse) : Text × List Text × Option Text :=
  (event.toolName, orderedTargetFiles event.filePath event.targetFiles, event.sessionId)

def publicHeader (lines : List Text) : ToolCall → Text × List Text × Option Text
  | .codexApplyPatch _ sessionId =>
    (Codex.codexPatchToolName lines,
      orderedTargetFiles (Codex.patchFilePaths lines).head? (Codex.patchFilePaths lines),
      sessionId)
  | call => call.event.header

theorem header_event (call : ToolCall) :
    call.event.header = publicHeader call.publicLines call.blank := by
  cases call with
  | claudeCode toolName input output sessionId => cases input <;> rfl
  | cursorFileEdit toolName filePath input => cases input <;> rfl
  | geminiAfterTool toolName input output sessionId => cases input <;> rfl
  | windsurfWriteCode info trajectoryId executionId => cases info <;> rfl
  | codexTool toolName input sessionId => cases input <;> rfl
  | codexApplyPatch command sessionId =>
    have hlines := filter_publicPatchLines false (Text.lines (command.getD []))
    have hpaths : Codex.patchFilePaths (publicPatchLines false (Text.lines (command.getD []))) =
        Codex.patchFilePaths (Text.lines (command.getD [])) := by
      rw [← patchFilePaths_filter, hlines, patchFilePaths_filter]
    have htool : Codex.codexPatchToolName
        (publicPatchLines false (Text.lines (command.getD []))) =
        Codex.codexPatchToolName (Text.lines (command.getD [])) := by
      rw [← codexPatchToolName_filter, hlines, codexPatchToolName_filter]
    simp [ToolCall.event, Codex.applyPatchEvent, PostToolUse.header, publicHeader,
      ToolCall.blank, ToolCall.publicLines, hpaths, htool]

theorem AlikeCalls.header {first second : ToolCall} (halike : AlikeCalls first second) :
    first.event.header = second.event.header := by
  rcases halike with rfl | ⟨_, hblank, hlines⟩
  · rfl
  · rw [header_event first, header_event second, hblank, hlines]

/-! ## What a post-edit event writes -/

def storeObservation (env : Env) (payload : Option Text) (stores : Stores) : Stores :=
  if env.dbAvailable then enqueueObservationAndReplayOutbox env payload stores
  else spillWithoutDb env payload stores

def Stores.tell (platform : Platform) (env : Env) (events : List ObservationEvent)
    (stores : Stores) : Stores :=
  events.foldl (fun stores event => env.emit platform event stores) stores

def citedEvents (platform : Platform) (env : Env) (sessionId file : Text) (excerpt : Option Text)
    (stores : Stores) : List ObservationEvent :=
  ((strongestRecentRuleId platform env sessionId file stores).map fun ruleId =>
    .ruleCitedInEdit ruleId sessionId file
      (Cloud.truncate (excerpt.getD []) excerptMaxChars) env.nowMs).toList

def servedEvents (platform : Platform) (env : Env) (sessionId : Option Text) (intent : Text) :
    List ObservationEvent :=
  match env.retrieval with
  | .served ruleIds topK strictMatchCount estimatedTokens =>
    servedEvent platform env sessionId intent ruleIds topK strictMatchCount estimatedTokens ::
      if ruleIds = [] then [] else [firedEvent env sessionId intent ruleIds]
  | _ => []

def editEvents (platform : Platform) (env : Env) (event : PostToolUse) (file : Text)
    (stores : Stores) : List ObservationEvent :=
  citedEvents platform env (event.sessionId.getD []) file (event.diff.or event.newText) stores ++
    servedEvents platform env event.sessionId (postEditRetrievalIntent event.diff event.newText)

def cacheServed (platform : Platform) (env : Env) (file intent : Text) (stores : Stores) : Stores :=
  match env.retrieval with
  | .served ruleIds _ _ _ =>
    if ruleIds = [] then stores
    else stores.rememberInjection env.cacheTtlMs env.nowMs (cacheKey env.projectHash file)
      ruleIds.length (signalHash platform.sha256 intent)
  | _ => stores

def skipsRecent (platform : Platform) (env : Env) (stores : Stores) (event : PostToolUse)
    (file : Text) : Bool :=
  stores.shouldSkipRecent env.cacheTtlMs env.nowMs (cacheKey env.projectHash file)
    (signalHash platform.sha256 (postEditRetrievalIntent event.diff event.newText))

section

variable {platform : Platform} {env : Env}

theorem observations_replaySpillFiles (files : List SpillFile) (stores : Stores) :
    (replaySpillFiles env.insertOutbox files stores).observations = stores.observations := by
  induction files generalizing stores with
  | nil => rfl
  | cons file rest ih =>
    unfold replaySpillFiles
    split
    next => exact ih stores
    next => exact ih _
    next =>
      split
      next => exact ih _
      next =>
        cases hinsert : env.insertOutbox with
        | none => rfl
        | some insertRow =>
          simp only [← hinsert, ih]
          rw [Env.insertOutbox] at hinsert
          split at hinsert
          next => rw [← Option.some.inj hinsert]; rfl
          next => cases hinsert

theorem observations_storeObservation (payload : Option Text) (stores : Stores) :
    (storeObservation env payload stores).observations = stores.observations := by
  have hspill : ∀ payload error (stores : Stores),
      (spillObservationPayload env payload error stores).observations = stores.observations := by
    intro payload error stores
    rw [spillObservationPayload]
    split
    next => rfl
    next => rfl
  rw [storeObservation]
  split
  next =>
    have hreplayed : (stores.replay env.insertOutbox).observations = stores.observations :=
      observations_replaySpillFiles _ _
    unfold enqueueObservationAndReplayOutbox enqueueObservation
    split
    next => exact hreplayed
    next =>
      split
      next => exact hreplayed
      next =>
        split
        next => exact hreplayed
        next => exact (hspill _ _ _).trans hreplayed
  next =>
    unfold spillWithoutDb
    split
    next => rfl
    next =>
      split
      next => exact hspill _ _ _
      next => rfl

theorem storeObservation_of_lost {payload : Option Text}
    (hlost : env.keepsObservation = true → payload = none) (stores : Stores) :
    storeObservation env payload stores = storeObservation env none stores := by
  cases payload with
  | none => rfl
  | some payloadJson =>
    have hkeeps : env.keepsObservation = false := by
      by_contra hkeeps
      cases hlost (by simpa using hkeeps)
    cases hcapture : env.captureEnabled with
    | false => simp [storeObservation, enqueueObservationAndReplayOutbox, enqueueObservation,
        spillWithoutDb, hcapture]
    | true =>
      rw [Env.keepsObservation, hcapture, Bool.true_and, Bool.or_eq_false_iff,
        Option.isSome_eq_false_iff, Option.isNone_iff_eq_none] at hkeeps
      obtain ⟨herror, hname⟩ := hkeeps
      cases hdb : env.dbAvailable with
      | false => simp [storeObservation, hdb, spillWithoutDb, hcapture, spillObservationPayload,
          hname]
      | true =>
        rw [hdb, Bool.true_and, Option.isNone_eq_false_iff, Option.isSome_iff_exists] at herror
        obtain ⟨error, herror⟩ := herror
        simp [storeObservation, hdb, enqueueObservationAndReplayOutbox, enqueueObservation,
          hcapture, herror, spillObservationPayload, hname]

theorem tell_of_silent (hsilent : (env.captureEnabled && env.observationsAvailable) = false)
    (events : List ObservationEvent) (stores : Stores) :
    stores.tell platform env events = stores := by
  induction events with
  | nil => rfl
  | cons event rest ih =>
    have hfirst : env.emit platform event stores = stores := by
      rw [Env.emit, hsilent, if_neg Bool.false_ne_true]
    rw [Stores.tell, List.foldl_cons, hfirst]
    exact ih

theorem maybeEmitRuleCitedInEdit_eq (excerpt : Option Text) :
    maybeEmitRuleCitedInEdit platform env sessionId file excerpt stores =
      stores.tell platform env (citedEvents platform env sessionId file excerpt stores) := by
  unfold maybeEmitRuleCitedInEdit
  split
  next hclosed =>
    have hsilent : (env.captureEnabled && env.observationsAvailable) = false := by
      simp [hclosed]
    exact (tell_of_silent hsilent _ _).symm
  next =>
    rw [citedEvents]
    cases strongestRecentRuleId platform env sessionId file stores <;> rfl

theorem fetchRelevantRules_eq (sessionId : Option Text) (intent : Text) (stores : Stores) :
    fetchRelevantRules platform env sessionId file intent stores =
      cacheServed platform env file intent
        (stores.tell platform env (servedEvents platform env sessionId intent)) := by
  unfold fetchRelevantRules servedEvents cacheServed
  cases env.retrieval with
  | shortCircuit | failed => rfl
  | served ruleIds =>
    by_cases hempty : ruleIds = []
    · simp only [if_pos hempty]
      rfl
    · simp only [if_neg hempty]
      rfl

theorem payloads_cacheServed (intent : Text) (stores : Stores) :
    (cacheServed platform env file intent stores).payloads = stores.payloads := by
  rw [cacheServed]
  split
  next => split <;> rfl
  next => rfl

theorem recordEdit_of_runs {event : PostToolUse}
    (hruns : skipsRecent platform env stores event file = false) :
    recordEdit platform env event file stores =
      let stored := storeObservation env (observationPayload platform env event file) stores
      if env.reachesRetrieval then
        cacheServed platform env file (postEditRetrievalIntent event.diff event.newText)
          (stored.tell platform env (editEvents platform env event file stores))
      else stored := by
  rw [skipsRecent] at hruns
  rw [recordEdit, recordSignals, hruns, if_neg Bool.false_ne_true, Env.reachesRetrieval]
  cases hdb : env.dbAvailable with
  | false => simp only [storeObservation, hdb, Bool.false_and, Bool.false_eq_true, if_false]
  | true =>
    have hstored (payload : Option Text) : enqueueObservationAndReplayOutbox env payload stores =
        storeObservation env payload stores := by
      rw [storeObservation, if_pos hdb]
    simp only [recordWithDb, hstored, Bool.true_and, if_true]
    cases env.indexAvailable with
    | false => rfl
    | true =>
      have hcited (payload excerpt : Option Text) :
          citedEvents platform env (event.sessionId.getD []) file excerpt
            (storeObservation env payload stores) =
          citedEvents platform env (event.sessionId.getD []) file excerpt stores := by
        rw [citedEvents, strongestRecentRuleId, matchingRecentRuleIds,
          observations_storeObservation]
        rfl
      rw [if_neg (by simp), if_pos rfl, maybeEmitRuleCitedInEdit_eq, fetchRelevantRules_eq, hcited,
        editEvents, Stores.tell, Stores.tell, Stores.tell, List.foldl_append]

section

variable (halike : AlikeEnvs env other)
include halike

theorem AlikeEnvs.files_eq {path : Text}
    (hpublic : isDocumentedDenied path = false) : other.files path = env.files path := by
  have hpath := halike.2 path
  rwa [hpublic, if_neg Bool.false_ne_true] at hpath

theorem AlikeEnvs.isSome_files (path : Text) :
    (other.files path).isSome = (env.files path).isSome := by
  have hpath := halike.2 path
  split at hpath
  next => rw [← Option.isSome_map (f := RepoFile.repoFile), hpath, Option.isSome_map]
  next => rw [hpath]

theorem AlikeEnvs.files_eq_of_not_hides {path : Text}
    (hhides : env.hides path = false) : other.files path = env.files path := by
  cases hdenied : isDocumentedDenied path with
  | false => exact halike.files_eq hdenied
  | true =>
    have hnone : (env.files path).isSome = false := by simpa [Env.hides, hdenied] using hhides
    have hother := halike.isSome_files path
    rw [hnone, Option.isSome_eq_false_iff, Option.isNone_iff_eq_none] at hother
    rw [hother, Option.isNone_iff_eq_none.mp (Option.isSome_eq_false_iff.mp hnone)]

theorem PublicDecides.files_eq (hdecides : PublicDecides env files)
    (hfound : files.find? env.gitFileHasDiff = some file) : other.files file = env.files file := by
  apply halike.files_eq_of_not_hides
  induction files with
  | nil => cases hfound
  | cons head rest ih =>
    cases hhides : env.hides head with
    | true =>
      have hhead := hdecides head (by simp [hhides])
      rw [hhides] at hhead
      cases hhead
    | false =>
      cases hdiff : env.gitFileHasDiff head with
      | true =>
        rw [List.find?_cons, hdiff] at hfound
        exact Option.some.inj hfound ▸ hhides
      | false =>
        rw [List.find?_cons, hdiff] at hfound
        refine ih ?_ hfound
        intro found hmem
        exact hdecides found (by simpa [List.find?_cons, hhides, hdiff] using hmem)

end

section

variable (halike : AlikeEnvs env other)
include halike

end

/-! ## Runs -/

theorem HookInput.Alike.captureEnabled {first second : HookInput} (halike : first.Alike second) :
    second.env.captureEnabled = first.env.captureEnabled := by
  cases first with
  | postEdit env call =>
    cases second with
    | stop => cases halike
    | postEdit other otherCall => rw [HookInput.env, HookInput.env, halike.1.1]
  | stop env sessionId message =>
    cases second with
    | postEdit => cases halike
    | stop other otherSessionId otherMessage => rw [HookInput.env, HookInput.env, halike.1.1]

end

/-- A JSON string; the texts below hold no other character that is escaped. -/
def jsonString (text : Text) : Text :=
  '"' :: (text.flatMap (fun c => if c = '\n' then ['\\', 'n'] else [c]) ++ ['"'])

def jsonStrings (texts : List Text) : Text :=
  '[' :: ([','].intercalate (texts.map jsonString) ++ [']'])

/-- What serde writes for the two events of the run below, whose only time is 0. -/
def encodeCitedRun : Cloud.Observations.ObservationEvent → Text
  | .ruleFired ruleIds none none sessionId _ =>
    "\x7b\"event_type\":\"rule_fired\",\"rule_ids\":".toList ++ (jsonStrings ruleIds ++
      (",\"session_id\":".toList ++ (jsonString sessionId ++
        ",\"fired_at\":\"1970-01-01T00:00:00Z\"\x7d".toList)))
  | .ruleCitedInEdit ruleId sessionId filePath diffExcerpt _ =>
    "\x7b\"event_type\":\"rule_cited_in_edit\",\"rule_id\":".toList ++ (jsonString ruleId ++
      (",\"session_id\":".toList ++ (jsonString sessionId ++ (",\"file_path\":".toList ++
        (jsonString filePath ++ (",\"diff_excerpt\":".toList ++ (jsonString diffExcerpt ++
          ",\"cited_at\":\"1970-01-01T00:00:00Z\"\x7d".toList)))))))
  | _ => []

def firedOnce : Cloud.Observations.ObservationEvent :=
  .ruleFired ["r1".toList] none none "s".toList 0

def citedPlatform : Platform where
  serde :=
    { encode := encodeCitedRun
      encodeIds := jsonStrings
      decode := fun payload =>
        if payload = encodeCitedRun firedOnce then .ok firedOnce else .error "no event".toList
      parseJson := fun _ => none }
  encodeObservation _ := []
  encodeAcceptedEdit _ := []
  sha256 text := text
  recallSignals _ _ := []
  filePatternsMatch patterns _ := patterns.isNone
  detectLanguage _ := none

def citedStores : Stores where
  outbox := .empty 1
  observations := AutoTable.insert (.empty 1)
    (Cloud.Observations.newRow citedPlatform.serde firedOnce 0)
    (Cloud.Observations.newRow_id citedPlatform.serde firedOnce 0)
  spill := []
  cache := []

def emptyStores : Stores := { citedStores with observations := .empty 1 }

def quietEnv : Env where
  captureEnabled := true
  cacheTtlMs := defaultTtlMs
  nowMs := 0
  projectHash := "p".toList
  recallFile := ".env".toList
  repoScope := none
  dbAvailable := true
  indexAvailable := true
  observationsAvailable := true
  outboxError := none
  spillName := none
  skills := [⟨"r1".toList, none, none⟩]
  retrieval := .shortCircuit
  flush := id
  detectedRepo := none
  resolveRuleId := id
  files _ := none

def envEdit (old new : Text) : ToolCall := .claudeCode (some "Edit".toList)
    (some ⟨.text ".env".toList, .absent, .absent, .absent,
      ⟨.text old, .text new, .absent, .absent, .absent, .absent, none⟩⟩)
    none (some "s".toList)

end Difflore.Hook

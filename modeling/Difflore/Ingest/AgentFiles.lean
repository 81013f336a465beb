import Difflore.Skills.Promotion

/-! # Importing agent files

The entries of agent memory files become rules: soft preferences and the few best concrete
review rules are active at once, the other review rules are drafts. Each entry is remembered in
its own tier, and the user may promote or reject drafts between imports.
-/

namespace Difflore.Ingest.AgentFiles

open Foundation Text Infra Skills

inductive AgentFileMemoryKind
  | reviewRule
  | softPreference
  deriving DecidableEq

structure AgentFileMemoryEntry where
  title : Text
  body : Text
  kind : AgentFileMemoryKind
  category : Option Text
  filePatterns : List Text
  sourceId : Text
  path : Text
  deriving DecidableEq

structure AgentFileImportOptions where
  reviewRuleConfidence : Rat
  maxAutoActiveReviewRules : Nat

def AgentFileImportOptions.default : AgentFileImportOptions where
  reviewRuleConfidence := 55 / 100
  maxAutoActiveReviewRules := 3

def claudeCodeMemorySourceId : Text := "claude-code-memory"

def claudeCodeAutoMemoryOrigin : Text := "agent-memory"

def claudeCodeAutoMemorySourceKind : Text := "bot:claude-code-memory"

def isClaudeCodeAutoMemory (entry : AgentFileMemoryEntry) : Bool :=
  entry.sourceId = claudeCodeMemorySourceId

def isReferenceOnlyEntry (entry : AgentFileMemoryEntry) : Bool :=
  let title := toAsciiLowercase (trim entry.title)
  let body := toAsciiLowercase (trim entry.body)
  "design system" <:+: title && "read `" <+: body &&
    "full design system reference" <:+: body

/-- How often a text occurs, without overlaps, behind so many skipped characters. -/
def countMatches (needle : Text) : Nat → Text → Nat
  | _, [] => 0
  | skip + 1, _ :: rest => countMatches needle skip rest
  | 0, c :: rest =>
    if needle <+: c :: rest then countMatches needle (needle.length - 1) rest + 1
    else countMatches needle 0 rest

def codeMarks : List Text := [['`'], ['-', '-'], [':', ':'], ['#'], "src/"]

def imperatives : List Text := ["never ", "do not ", "only ", "must ", "always ",
    " no ", "use ", "prefer "]

def autoActiveScore (entry : AgentFileMemoryEntry) : Int :=
  let title := toAsciiLowercase (trim entry.title)
  let body := trim entry.body
  let lower := toAsciiLowercase body
  let inTitle (word : String) : Bool := word.toList <:+: title
  let inBody (word : String) : Bool := word.toList <:+: lower
  let codeish := (codeMarks.map fun mark => countMatches mark 0 body).sum
  ((min codeish 5 : Nat) : Int) +
    (imperatives.filter fun needle =>
      needle <:+: lower || trimStart needle <+: lower).length +
    (if entry.filePatterns ≠ [] then 1 else 0) +
    (if inBody "token" || inBody "var(--" then 2 else 0) +
    (if inTitle "border" || inTitle "radius" then 3
      else if inTitle "breakpoint" || inTitle "typography" then 1 else 0) -
    (if inTitle "shadow" && inBody "hover" then 2 else 0) -
    (if 900 < body.length then 2 else 0) -
    (if inBody "exception" || inBody "regardless of theme" then 2 else 0)

def autoActiveReviewRuleIndexes (entries : List AgentFileMemoryEntry) (limit : Nat) : List Nat :=
  let scored := entries.zipIdx.filterMap fun (entry, idx) =>
    if entry.kind = .reviewRule && !isClaudeCodeAutoMemory entry && !isReferenceOnlyEntry entry &&
        6 ≤ autoActiveScore entry then some (idx, autoActiveScore entry)
    else none
  ((scored.insertionSort fun left right =>
    right.2 < left.2 ∨ (left.2 = right.2 ∧ left.1 ≤ right.1)).take limit).map (·.1)

structure AgentFileCall where
  input : RememberRuleInput
  confidence : Option Rat
  status : RuleStatus
  sourceKind : Option Text

def bodyWithSourceFileProvenance (body path : Text) : Text := "Rule:\n" ++ (trim body ++
    ("\n\nSource evidence:\nSource: Claude Code auto-memory\nFile: " ++ path))

def reviewRuleKind : Text := "review_rule"

def softPreferenceKind : Text := "soft_preference"

def agentFileOrigin (entry : AgentFileMemoryEntry) : Text :=
  if isClaudeCodeAutoMemory entry then claudeCodeAutoMemoryOrigin
  else "agent_file:" ++ entry.sourceId

def entryKind (entry : AgentFileMemoryEntry) : AgentFileMemoryKind :=
  if isClaudeCodeAutoMemory entry then .reviewRule else entry.kind

def entryInput (entry : AgentFileMemoryEntry) : RememberRuleInput where
  title := entry.title
  body := if isClaudeCodeAutoMemory entry then bodyWithSourceFileProvenance entry.body entry.path
    else entry.body
  filePatterns := if entry.filePatterns = [] then none else some entry.filePatterns
  badCode := none
  goodCode := none
  kind := some (if entryKind entry = .reviewRule then reviewRuleKind else softPreferenceKind)
  category := entry.category
  origin := some (agentFileOrigin entry)
  capturedByClient := some (if isClaudeCodeAutoMemory entry then
    "claude-code-auto-memory-import" else "agent-file-import")

/-- The call for an entry; `active` are the indices of the rules that are active at once. -/
def entryCall (options : AgentFileImportOptions) (active : List Nat) (entry : AgentFileMemoryEntry)
    (idx : Nat) : Option AgentFileCall :=
  let input := entryInput entry
  match entryKind entry with
  | .reviewRule =>
    if isReferenceOnlyEntry entry then none
    else if isClaudeCodeAutoMemory entry then
      some ⟨input, some options.reviewRuleConfidence, .pending, claudeCodeAutoMemorySourceKind⟩
    else if idx ∈ active then some ⟨input, none, .active, none⟩
    else some ⟨input, some options.reviewRuleConfidence, .pending, none⟩
  | .softPreference => some ⟨input, none, .active, none⟩

def importCalls (options : AgentFileImportOptions) (entries : List AgentFileMemoryEntry) :
    List AgentFileCall :=
  let active := autoActiveReviewRuleIndexes entries options.maxAutoActiveReviewRules
  entries.zipIdx.filterMap fun (entry, idx) => entryCall options active entry idx

variable (library : Context.RememberLibrary) (repo : RepoScope)

/-- `remember_for_repo`, `remember_as_candidate_with_confidence_for_repo` or the latter with a
kind of source. -/
def AgentFileCall.run (call : AgentFileCall) (clock : CallClock) (store : RuleStore) :
    Except Text (RuleStore × RememberOutcome) :=
  rememberInner library clock call.input call.confidence call.status (some repo) call.sourceKind
    store

def runCalls : List (AgentFileCall × CallClock) → RuleStore → RuleStore
  | [], store => store
  | (call, clock) :: rest, store =>
    match call.run library repo clock store with
    | .error _ => store
    | .ok (after, _) => runCalls rest after

def clockedCalls (options : AgentFileImportOptions) (entries : List AgentFileMemoryEntry)
    (clock : Nat → CallClock) : List (AgentFileCall × CallClock) :=
  (importCalls options entries).mapIdx fun idx call => (call, clock idx)

def importAgentFiles (options : AgentFileImportOptions) (entries : List AgentFileMemoryEntry)
    (clock : Nat → CallClock) (store : RuleStore) : RuleStore :=
  runCalls library repo (clockedCalls options entries clock) store

inductive Decision
  | promote (id : Text)
  | reject (id : Text)

def Decision.apply (store : RuleStore) : Decision → RuleStore
  | .promote id => tryPromote store id
  | .reject id => tryReject store id

def applyDecisions (decisions : List Decision) (store : RuleStore) : RuleStore :=
  decisions.foldl Decision.apply store

end Difflore.Ingest.AgentFiles

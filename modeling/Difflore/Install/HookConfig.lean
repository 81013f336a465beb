import Difflore.Foundation.Json
import Difflore.Foundation.OrderedMap

/-! # Hook configurations

Five clients run the hooks that a JSON file lists under the names of events. Three of them
list groups with hooks of their own, two list the hooks themselves. A hook is DiffLore's by
its name or by its command.
-/

namespace Difflore.Install.Hooks

open Foundation

inductive HookClient
  | claudeCode
  | codex
  | cursor
  | geminiCli
  | windsurf
  deriving DecidableEq

def HookClient.name : HookClient → Text
  | .claudeCode => "claude-code"
  | .codex => "codex"
  | .cursor => "cursor"
  | .geminiCli => "gemini-cli"
  | .windsurf => "windsurf"

def hookEntrypointStem : Text := "difflore-hook"

def exeSuffix (windows : Bool) : Text := if windows then ".exe" else []

/-- The directory of the binary, with its separator, and the name of its neighbour. -/
def hookAdjacentBinaryPath (windows : Bool) (bin stem : Text) : Text :=
  bin.rdropWhile (fun c => !(c = '/' || c = '\\')) ++ (stem ++ exeSuffix windows)

def hookEntrypointPath (windows : Bool) (bin : Text) : Text :=
  hookAdjacentBinaryPath windows bin hookEntrypointStem

def pathNeedsShellQuotes (path : Text) : Bool := path.any Text.isWhitespace

def hookEntrypointToken (windows : Bool) (path : Text) (client : HookClient) : Text :=
  if windows && client = .codex && !pathNeedsShellQuotes path then path
  else '"' :: (path ++ ['"'])

def clientMarker (client : HookClient) : Text := "--client " ++ client.name

def hookCommandString (windows : Bool) (bin : Text) (client : HookClient) : Text :=
  let normalised := (hookEntrypointPath windows bin).map fun c => if c = '\\' then '/' else c
  hookEntrypointToken windows normalised client ++ (' ' :: clientMarker client)

def hookLauncher : Text := "difflore-launcher"

def hookLauncherSentinel : Text := "--difflore-hook"

def hookCommandMatchesClient (command : Text) (client : HookClient) : Bool :=
  let launcherHook :=
    decide (hookLauncher <:+: command) && decide (hookLauncherSentinel <:+: command)
  let directHook := !launcherHook && decide (hookEntrypointStem <:+: command)
  (directHook || launcherHook) && decide (clientMarker client <:+: command)

def nameKey : Text := "name"

def commandKey : Text := "command"

def hooksKey : Text := "hooks"

def timeoutKey : Text := "timeout"

def typeKey : Text := "type"

def matcherKey : Text := "matcher"

def showOutputKey : Text := "show_output"

def diffloreName : Text := "difflore"

def hookHasName (hook : Json) : Bool :=
  decide ((hook.get nameKey).bind Json.asStr = some diffloreName)

def hookHasCommand (client : HookClient) (hook : Json) : Bool :=
  ((hook.get commandKey).bind Json.asStr).any (hookCommandMatchesClient · client)

def isDiffloreHook : HookClient → Json → Bool
  | .cursor, hook | .geminiCli, hook => hookHasName hook
  | .windsurf, hook => hookHasCommand .windsurf hook
  | .claudeCode, hook => hookHasCommand .claudeCode hook
  | .codex, hook => hookHasCommand .codex hook

def groupHooks (group : Json) : List Json := ((group.get hooksKey).bind Json.asArray).getD []

def hookValueIsDifflore : HookClient → Json → Bool
  | .cursor, value => isDiffloreHook .cursor value
  | .windsurf, value => isDiffloreHook .windsurf value
  | .geminiCli, value => (groupHooks value).any (isDiffloreHook .geminiCli)
  | .claudeCode, value => (groupHooks value).any (isDiffloreHook .claudeCode)
  | .codex, value => (groupHooks value).any (isDiffloreHook .codex)

/-- `retain(|v| !hook_value_is_difflore(v, client))`. -/
def retainOthers (client : HookClient) (items : List Json) : List Json :=
  items.filter fun value => !hookValueIsDifflore client value

/-! ## What DiffLore registers -/

def hookFastTimeoutSecs : Int := 5

def hookDefaultTimeoutSecs : Int := 10

def postToolUse : Text := "PostToolUse"

def sessionStart : Text := "SessionStart"

def userPromptSubmit : Text := "UserPromptSubmit"

def stopEvent : Text := "Stop"

def sessionEnd : Text := "SessionEnd"

def timeoutSecsForEvent (event : Text) : Int :=
  if event = postToolUse || event = userPromptSubmit then hookFastTimeoutSecs
  else hookDefaultTimeoutSecs

def commandHook (command : Text) (timeoutSecs : Int) : Json :=
  .object [(commandKey, .string command), (timeoutKey, .number (.integer timeoutSecs)),
    (typeKey, .string commandKey)]

/-- `claude_hook_group` and `codex_hook_group`. -/
def hookGroup (event : Text) (matcher : Option Text) (command : Text) : Json :=
  .object ((hooksKey, .array [commandHook command (timeoutSecsForEvent event)]) ::
    (matcher.map fun text => (matcherKey, Json.string text)).toList)

def sessionStartMatcher : Text := "startup|clear|compact"

def claudeHookEventMatchers : List (Text × Option Text) :=
  [(postToolUse, some "Edit|MultiEdit|Write|Bash"),
    (sessionStart, some sessionStartMatcher), (userPromptSubmit, none), (stopEvent, none),
    (sessionEnd, none)]

def codexHookEventMatchers : List (Text × Option Text) :=
  [(postToolUse, some "apply_patch|Bash|Write|Edit|MultiEdit"),
    (sessionStart, some sessionStartMatcher), (userPromptSubmit, none), (stopEvent, none)]

def cursorHookEvents : List Text := ["afterFileEdit", "afterMCPExecution", "afterShellExecution",
    "beforeSubmitPrompt", "stop"]

def geminiHookEvents : List Text :=
  [sessionStart, "BeforeAgent", "AfterAgent", "AfterTool", sessionEnd]

def windsurfHookEvents : List Text := ["pre_user_prompt", "post_write_code", "post_run_command",
    "post_cascade_response"]

def windsurfRetiredHookEvents : List Text := ["post_mcp_tool_use"]

def cursorEntry (command : Text) : Json :=
  .object [(commandKey, .string command), (nameKey, .string diffloreName),
    (timeoutKey, .number (.integer hookFastTimeoutSecs))]

def geminiHookEntry (command : Text) : Json :=
  .object [(commandKey, .string command), (nameKey, .string diffloreName),
    (timeoutKey, .number (.integer hookFastTimeoutSecs)), (typeKey, .string commandKey)]

def geminiGroup (command : Text) : Json :=
  .object [(hooksKey, .array [geminiHookEntry command]), (matcherKey, .string ['*'])]

def windsurfEntry (command : Text) : Json :=
  .object [(commandKey, .string command), (showOutputKey, .bool false)]

/-- The events a client is registered for, each with what is put under it. -/
def registrations (client : HookClient) (command : Text) : List (Text × Json) :=
  match client with
  | .claudeCode => claudeHookEventMatchers.map fun (event, matcher) =>
    (event, hookGroup event matcher command)
  | .codex => codexHookEventMatchers.map fun (event, matcher) =>
    (event, hookGroup event matcher command)
  | .cursor => cursorHookEvents.map fun event => (event, cursorEntry command)
  | .geminiCli => geminiHookEvents.map fun event => (event, geminiGroup command)
  | .windsurf => windsurfHookEvents.map fun event => (event, windsurfEntry command)

abbrev HookEvents := OrderedMap Text Json

inductive HooksValue
  | object (events : HookEvents)
  | other (value : Json)

/-- The object of a hooks file, with the member `hooks` apart. -/
@[ext]
structure HookConfig where
  hooks : Option HooksValue
  others : OrderedMap Text Json

instance : EmptyCollection HookConfig := ⟨⟨none, .empty⟩⟩

abbrev HooksFile := JsonFile HookConfig

/-- The file of context next to the hooks of Gemini and of Windsurf. -/
inductive ContextFile
  | absent
  | text (content : Text)
  | unreadable (err : Text)
  | readOnly (content err : Text)
  /-- A file stands where its directory is to be. -/
  | uncreatable (err : Text)

structure HookDisk where
  hooks : HooksFile
  context : ContextFile

def geminiContextTag : Text := "<difflore-context>"

def geminiPlaceholder : Text := "<difflore-context>\n# DiffLore team rules\n\n" ++
    "Rules pulled from DiffLore will be injected here by the hook runtime.\n" ++
    "</difflore-context>\n"

def upsertGeminiMdContext : ContextFile → Except Text ContextFile
  | .absent => .ok (.text geminiPlaceholder)
  | .unreadable err | .uncreatable err => .error err
  | .readOnly content err =>
    if geminiContextTag <:+: content then .ok (.readOnly content err) else .error err
  | .text content =>
    if geminiContextTag <:+: content then .ok (.text content)
    else
      let sep := if content = [] || content.getLast? = some '\n' then [] else ['\n']
      .ok (.text (content ++ (sep ++ ('\n' :: geminiPlaceholder))))

def windsurfPlaceholder : Text := "# DiffLore context\n\n" ++
    "Rules pulled from DiffLore will be surfaced here after your first session.\n"

def writeWindsurfContextFile : ContextFile → Except Text ContextFile
  | .absent => .ok (.text windsurfPlaceholder)
  | .uncreatable err => .error err
  | .text content => .ok (.text content)
  | .unreadable err => .ok (.unreadable err)
  | .readOnly content err => .ok (.readOnly content err)

/-! ## Installing and removing hooks

A merge takes DiffLore's groups out of the events of a client, puts one under each event it
registers and writes the file. A removal takes the groups out of every event.
-/

section

variable (windows : Bool) (path : Text)

def hooksNotObjectError : Text := path ++ ": `hooks` is not a JSON object"

def eventNotArrayError (event : Text) : Text :=
  path ++ (": hooks." ++ (event ++ " is not an array"))

def hooksObject (cfg : HookConfig) : Except Text HookEvents :=
  match cfg.hooks with
  | none => .ok .empty
  | some (.object events) => .ok events
  | some (.other _) => .error (hooksNotObjectError path)

/-- The events, and how many of them lost a group or got one they did not have. -/
structure MergedEvents where
  events : HookEvents
  changed : Nat

def registerEvent (place : Json → List Json → List Json × Bool) (registration : Text × Json)
    (merged : MergedEvents) : Except Text MergedEvents :=
  match (merged.events.find registration.1).getD (.array []) with
  | .array items =>
    let (placed, changed) := place registration.2 items
    .ok ⟨merged.events.insert registration.1 (.array placed),
      merged.changed + if changed then 1 else 0⟩
  | _ => .error (eventNotArrayError path registration.1)

def registerEvents (place : Json → List Json → List Json × Bool) :
    List (Text × Json) → MergedEvents → Except Text MergedEvents
  | [], merged => .ok merged
  | registration :: rest, merged => do
      let merged ← registerEvent path place registration merged
      registerEvents place rest merged

structure DesiredScan where
  kept : List Json
  foundDesired : Bool
  removedDifflore : Bool

/-- The first group that is as it should be stays, the other ones of DiffLore go. -/
def retainDesired (client : HookClient) (desired : Json) : Bool → List Json → DesiredScan
  | found, [] => ⟨[], found, false⟩
  | found, group :: rest =>
    if !hookValueIsDifflore client group then
      let scan := retainDesired client desired found rest
      { scan with kept := group :: scan.kept }
    else if !found && group = desired then
      let scan := retainDesired client desired true rest
      { scan with kept := group :: scan.kept }
    else { retainDesired client desired found rest with removedDifflore := true }

def placeDesired : HookClient → Json → List Json → List Json × Bool
  | .claudeCode, desired, items =>
    let scan := retainDesired .claudeCode desired false items
    if scan.foundDesired then (scan.kept, scan.removedDifflore)
    else (scan.kept ++ [desired], true)
  | .codex, desired, items => (items ++ [desired], false)
  | client, desired, items =>
    let kept := retainOthers client items
    (kept ++ [desired], kept.length != items.length)

/-! ## Sweeping -/

/-- The list of an event without DiffLore's groups; `none` if it is empty then. -/
def retainedEvent (client : HookClient) : Json → Option Json
  | .array items =>
    let kept := retainOthers client items
    if kept = [] then none else some (.array kept)
  | value => some value

def eventHasDifflore (client : HookClient) : Json → Bool
  | .array items => items.any (hookValueIsDifflore client)
  | _ => false

def claudeCodeEventIsRegistered (event : Text) : Bool :=
  claudeHookEventMatchers.any fun registered => registered.1 = event

/-- An event that is no longer registered keeps an empty list it had. -/
def retiredClaudeEvent (event : Text) (value : Json) : Option Json :=
  if claudeCodeEventIsRegistered event || !eventHasDifflore .claudeCode value then some value
  else retainedEvent .claudeCode value

def sweepClaudeCode (events : HookEvents) : MergedEvents :=
  ⟨events.filterMap retiredClaudeEvent, events.entries.countP fun (event, value) =>
    !claudeCodeEventIsRegistered event && eventHasDifflore .claudeCode value⟩

def sweepAll (client : HookClient) (events : HookEvents) : MergedEvents :=
  ⟨events.filterMap fun _ => retainedEvent client,
    events.entries.countP fun entry => eventHasDifflore client entry.2⟩

def sweepRetired : List Text → MergedEvents → Except Text MergedEvents
  | [], merged => .ok merged
  | event :: rest, merged =>
    match merged.events.find event with
    | none => sweepRetired rest merged
    | some (.array items) =>
      sweepRetired rest
        ⟨merged.events.assign event (retainedEvent .windsurf (.array items)),
          merged.changed + if eventHasDifflore .windsurf (.array items) then 1 else 0⟩
    | some _ => .error (eventNotArrayError path event)

def sweepEvents (client : HookClient) (events : HookEvents) : Except Text MergedEvents :=
  match client with
  | .claudeCode => .ok (sweepClaudeCode events)
  | .codex => .ok (sweepAll .codex events)
  | .cursor | .geminiCli => .ok ⟨events, 0⟩
  | .windsurf => sweepRetired path windsurfRetiredHookEvents ⟨events, 0⟩

def mergeEvents (client : HookClient) (bin : Text) (events : HookEvents) :
    Except Text MergedEvents := do
  let swept ← sweepEvents path client events
  registerEvents path (placeDesired client)
    (registrations client (hookCommandString windows bin client)) swept

def versionKey : Text := "version"

def withVersion (client : HookClient) (cfg : HookConfig) : HookConfig :=
  if client = .cursor && cfg.others.find versionKey = none then
    { cfg with others := cfg.others.insert versionKey (.number (.integer 1)) }
  else cfg

def mergeConfig (client : HookClient) (bin : Text) (cfg : HookConfig) :
    Except Text (HookConfig × Nat) := do
  let events ← hooksObject path (withVersion client cfg)
  let merged ← mergeEvents windows path client bin events
  pure ({ withVersion client cfg with hooks := some (.object merged.events) }, merged.changed)

def mergeClaudeCodeHooks (bin : Text) (disk : HookDisk) : HookDisk × Except Text Nat :=
  match (loadJsonObject disk.hooks).bind (mergeConfig windows path .claudeCode bin) with
  | .error err => (disk, .error err)
  | .ok (cfg, changed) =>
    (if 0 < changed then { disk with hooks := .config cfg } else disk, .ok changed)

def mergeJsonHooks (client : HookClient) (writeContext : ContextFile → Except Text ContextFile)
    (bin : Text) (dryRun : Bool) (disk : HookDisk) : HookDisk × Except Text Bool :=
  match (loadJsonObject disk.hooks).bind (mergeConfig windows path client bin) with
  | .error err => (disk, .error err)
  | .ok (cfg, changed) =>
    if dryRun then (disk, .ok (0 < changed))
    else
      match writeContext disk.context with
      | .error err => (⟨.config cfg, disk.context⟩, .error err)
      | .ok context => (⟨.config cfg, context⟩, .ok (0 < changed))

def mergeCodexHooks : Text → Bool → HookDisk → HookDisk × Except Text Bool :=
  mergeJsonHooks windows path .codex .ok

def mergeCursorHooks : Text → Bool → HookDisk → HookDisk × Except Text Bool :=
  mergeJsonHooks windows path .cursor .ok

def mergeGeminiCliHooks : Text → Bool → HookDisk → HookDisk × Except Text Bool :=
  mergeJsonHooks windows path .geminiCli upsertGeminiMdContext

def mergeWindsurfHooks : Text → Bool → HookDisk → HookDisk × Except Text Bool :=
  mergeJsonHooks windows path .windsurf writeWindsurfContextFile

def removeDiffloreHookEntries (client : HookClient) (dropEmptyHooksObject dryRun : Bool)
    (disk : HookDisk) : HookDisk × Except Text Nat :=
  match disk.hooks with
  | .missing => (disk, .ok 0)
  | .broken err => (disk, .error err)
  | .config cfg =>
    match cfg.hooks with
    | some (.object events) =>
      let swept := sweepAll client events
      let hooks := if dropEmptyHooksObject && swept.events.entries.isEmpty then none
        else some (.object swept.events)
      (if 0 < swept.changed && !dryRun then { disk with hooks := .config { cfg with hooks } }
        else disk, .ok swept.changed)
    | _ => (disk, .ok 0)

def removeClaudeCodeHooks : Bool → HookDisk → HookDisk × Except Text Nat :=
  removeDiffloreHookEntries .claudeCode true

def removeCodexHooks : Bool → HookDisk → HookDisk × Except Text Nat :=
  removeDiffloreHookEntries .codex true

def removeCursorHooks : Bool → HookDisk → HookDisk × Except Text Nat :=
  removeDiffloreHookEntries .cursor false

def removeGeminiCliHooks : Bool → HookDisk → HookDisk × Except Text Nat :=
  removeDiffloreHookEntries .geminiCli false

def removeWindsurfHooks : Bool → HookDisk → HookDisk × Except Text Nat :=
  removeDiffloreHookEntries .windsurf false

/-- The merge of a client, which wrote what it is to write unless it failed. -/
def mergeHooks (client : HookClient) (bin : Text) (disk : HookDisk) : HookDisk × Except Text Unit :=
  match client with
  | .claudeCode => (mergeClaudeCodeHooks windows path bin disk).map id (·.map fun _ => ())
  | .codex => (mergeCodexHooks windows path bin false disk).map id (·.map fun _ => ())
  | .cursor => (mergeCursorHooks windows path bin false disk).map id (·.map fun _ => ())
  | .geminiCli => (mergeGeminiCliHooks windows path bin false disk).map id (·.map fun _ => ())
  | .windsurf => (mergeWindsurfHooks windows path bin false disk).map id (·.map fun _ => ())

end

def removeHooks (client : HookClient) (disk : HookDisk) : HookDisk × Except Text Nat :=
  match client with
  | .claudeCode => removeClaudeCodeHooks false disk
  | .codex => removeCodexHooks false disk
  | .cursor => removeCursorHooks false disk
  | .geminiCli => removeGeminiCliHooks false disk
  | .windsurf => removeWindsurfHooks false disk

end Difflore.Install.Hooks

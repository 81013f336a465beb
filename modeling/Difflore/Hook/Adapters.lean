import Difflore.Hook.Dispatch

/-! # Edits as the clients report them

Every client has its own JSON for a finished edit. Its adapter reads the tool, the files
and the texts out of it.
-/

namespace Difflore.Hook

open Foundation Text

inductive Member where
  | absent
  | nonText
  | text (value : Text)

def Member.asStr : Member → Option Text
  | .text value => some value
  | .absent | .nonText => none

/-- `get(a).or_else(|| get(b))`: any value under the first key wins. -/
def Member.orElse : Member → Member → Member
  | .absent, other => other
  | .nonText, _ => .nonText
  | .text value, _ => .text value

structure EditItem where
  oldString : Member
  newString : Member

structure EditTexts where
  oldString : Member
  newString : Member
  content : Member
  oldCode : Member
  newCode : Member
  command : Member
  edits : Option (List EditItem)

structure ToolInput where
  filePath : Member
  path : Member
  file : Member
  absolutePath : Member
  texts : EditTexts

/-- A finished tool call; `output` is what the adapter reads of the tool's response. -/
inductive ToolCall where
  | claudeCode (toolName : Option Text) (input : Option ToolInput) (output sessionId : Option Text)
  | cursorFileEdit (toolName filePath : Option Text) (input : Option ToolInput)
  | geminiAfterTool (toolName : Option Text) (input : Option ToolInput)
      (output sessionId : Option Text)
  | windsurfWriteCode (info : Option ToolInput) (trajectoryId executionId : Option Text)
  | codexApplyPatch (command sessionId : Option Text)
  | codexTool (toolName : Option Text) (input : Option ToolInput) (sessionId : Option Text)

def pushPrefixed (mark : Char) (text : Text) : Text :=
  (Text.lines text).flatMap fun line => mark :: (line ++ ['\n'])

def diffOldNew (old new : Text) : Text := pushPrefixed '-' old ++ pushPrefixed '+' new

def diffContent (content : Text) : Text := pushPrefixed '+' content

def diffShell (command output : Option Text) : Option Text :=
  let cmd := trim (command.getD [])
  let outText := trim (output.getD [])
  if cmd = [] ∧ outText = [] then none
  else some ((if cmd = [] then [] else "$ ".toList ++ (cmd ++ ['\n'])) ++ pushPrefixed '+' outText)

def diffEdits (edits : List EditItem) : Text :=
  edits.flatMap fun edit => match edit.oldString.asStr, edit.newString.asStr with
    | some old, some new => diffOldNew old new
    | _, _ => []

def diffFlat (texts : EditTexts) : Option Text :=
  match texts.oldString.asStr, texts.newString.asStr with
  | some old, some new => some (diffOldNew old new)
  | _, _ => none

/-- The diff of an `edits` array, unless it comes out empty. -/
def diffOfEdits (texts : EditTexts) : Option Text := (texts.edits.map diffEdits).filter (· ≠ [])

def diffOfContent (texts : EditTexts) : Option Text := texts.content.asStr.map diffContent

def diffOfCommand (texts : EditTexts) (output : Option Text) : Option (Option Text) :=
  texts.command.asStr.map fun command => diffShell (some command) output

def joinEdits (parts : List Text) : Option Text :=
  let joined := parts.foldl
    (fun joined part => (if joined = [] then [] else joined ++ "\n\n".toList) ++ part) []
  if joined = [] then none else some joined

def extractEditStrings (texts : EditTexts) : Option Text × Option Text :=
  match texts.edits with
  | some edits =>
    (joinEdits (edits.filterMap fun edit => edit.oldString.asStr),
      joinEdits (edits.filterMap fun edit => edit.newString.asStr))
  | none => (texts.oldString.asStr, (texts.newString.orElse texts.content).asStr)

/-! ## Adapters -/

def fileEvent (toolName : Text) (filePath diff : Option Text) (texts : Option Text × Option Text)
    (sessionId : Option Text) : PostToolUse where
  toolName := toolName
  filePath := filePath
  targetFiles := filePath.toList
  diff := diff
  sessionId := sessionId
  newText := texts.2
  oldText := texts.1

def editStrings (input : Option ToolInput) : Option Text × Option Text :=
  (input.map fun given => extractEditStrings given.texts).getD (none, none)

namespace ClaudeCode

def synthesiseDiff (output : Option Text) (texts : EditTexts) : Option Text :=
  match diffOfCommand texts output with
  | some diff => diff
  | none => (diffFlat texts).or (diffOfContent texts)

def postToolUse (toolName : Option Text) (input : Option ToolInput)
    (output sessionId : Option Text) : PostToolUse :=
  fileEvent (toolName.getD []) (input.bind (·.filePath.asStr))
    (input.bind fun given => synthesiseDiff output given.texts) (editStrings input) sessionId

end ClaudeCode

namespace Cursor

def synthesiseEditDiff (texts : EditTexts) : Option Text :=
  ((diffOfEdits texts).or (diffFlat texts)).or (diffOfContent texts)

def postToolUseForFileEdit (toolName filePath : Option Text) (input : Option ToolInput) :
    PostToolUse :=
  fileEvent (toolName.getD "Edit")
    (filePath.or (input.bind fun given => (given.filePath.orElse given.path).asStr))
    (input.bind fun given => synthesiseEditDiff given.texts) (editStrings input) none

end Cursor

namespace GeminiCli

def synthesiseDiff (output : Option Text) (texts : EditTexts) : Option Text :=
  ((diffFlat texts).or (diffOfContent texts)).or ((diffOfCommand texts output).getD none)

def afterToolEvent (toolName : Option Text) (input : Option ToolInput)
    (output sessionId : Option Text) : PostToolUse :=
  fileEvent
    (if toolName = some "WriteFile".toList then "Write".toList else toolName.getD [])
    (input.bind fun given => ((given.filePath.orElse given.path).orElse given.file).asStr)
    (input.bind fun given => synthesiseDiff output given.texts) (editStrings input) sessionId

end GeminiCli

namespace Windsurf

def synthesiseWriteDiff (texts : EditTexts) : Option Text :=
  (diffOfEdits texts).or (diffOfContent texts)

def extractWriteText (texts : EditTexts) : Option Text × Option Text :=
  if (extractEditStrings texts).1.isSome || (extractEditStrings texts).2.isSome then
    extractEditStrings texts
  else (texts.oldCode.asStr, (texts.newCode.orElse texts.content).asStr)

def postWriteCode (info : Option ToolInput) (trajectoryId executionId : Option Text) :
    PostToolUse :=
  fileEvent "Write" (info.bind (·.filePath.asStr))
    (info.bind fun given => synthesiseWriteDiff given.texts)
    ((info.map fun given => extractWriteText given.texts).getD (none, none))
    ((nonBlank trajectoryId).or (nonBlank executionId))

end Windsurf

namespace Codex

def updateFile : Text := "*** Update File: "

def addFile : Text := "*** Add File: "

def deleteFile : Text := "*** Delete File: "

def fileHeader (line : Text) : Option Text :=
  ([updateFile, addFile, deleteFile].findSome? (stripPrefix · line)).map trim

def addHeaderPath (paths : List Text) (line : Text) : List Text :=
  match fileHeader line with
  | some path => if path = [] || paths.contains path then paths else paths ++ [path]
  | none => paths

def patchFilePaths (lines : List Text) : List Text := lines.foldl addHeaderPath []

def codexPatchToolName (lines : List Text) : Text :=
  if 1 < lines.countP fun line => (fileHeader line).isSome then "MultiEdit"
  else if lines.any fun line => addFile <+: line then "Write"
  else "Edit"

def patchSide (mark : Char) (lines : List Text) : Option Text :=
  let side := lines.foldl
    (fun side line =>
      if "***" <+: line || "@@" <+: line then side
      else match stripPrefix [mark] line with
        | some text => (if side = [] then [] else side ++ ['\n']) ++ text
        | none => side) []
  if side = [] then none else some side

def patchEditStrings (lines : List Text) : Option Text × Option Text :=
  (patchSide '-' lines, patchSide '+' lines)

/-- A patch may touch several files; the first one becomes the file of the event. -/
def applyPatchEvent (command sessionId : Option Text) : PostToolUse :=
  let lines := Text.lines (command.getD [])
  let targetFiles := patchFilePaths lines
  let texts := if targetFiles.length ≤ 1 then patchEditStrings lines else (none, none)
  { toolName := codexPatchToolName lines
    filePath := targetFiles.head?
    targetFiles
    diff := if trim (command.getD []) = [] then none else some (trim (command.getD []))
    sessionId
    newText := texts.2
    oldText := texts.1 }

def toolEvent (toolName : Option Text) (input : Option ToolInput) (sessionId : Option Text) :
    PostToolUse :=
  fileEvent (toolName.getD [])
    (input.bind fun given =>
      [given.filePath, given.path, given.absolutePath].findSome? Member.asStr)
    none (none, none) sessionId

end Codex

def ToolCall.event : ToolCall → PostToolUse
  | .claudeCode toolName input output sessionId =>
    ClaudeCode.postToolUse toolName input output sessionId
  | .cursorFileEdit toolName filePath input => Cursor.postToolUseForFileEdit toolName filePath input
  | .geminiAfterTool toolName input output sessionId =>
    GeminiCli.afterToolEvent toolName input output sessionId
  | .windsurfWriteCode info trajectoryId executionId =>
    Windsurf.postWriteCode info trajectoryId executionId
  | .codexApplyPatch command sessionId => Codex.applyPatchEvent command sessionId
  | .codexTool toolName input sessionId => Codex.toolEvent toolName input sessionId

end Difflore.Hook

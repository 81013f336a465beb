import Difflore.Foundation.Lines

/-! # The Goose YAML config

A `difflore` entry is spliced into, read from and cut out of the top-level
`mcpServers:` mapping line by line, without a YAML parser. A file is its content,
or `none` while it does not exist; writes succeed.
-/

namespace Difflore.Install

open Foundation Text

def mcpServers : Text := "mcpServers"

def diffloreKey : Text := "difflore"

def mcpServerArg : Text := "mcp-server"

def indentOf (line : Text) : Nat := (line.takeWhile (· = ' ')).length

def isEol (c : Char) : Bool := c = '\n' || c = '\r'

/-- `trim_end_matches(['\n', '\r'])`. -/
def trimEol (line : Text) : Text := line.rdropWhile isEol

def blank (line : Text) : Bool := trim line = []

def isIndentedKey (line key : Text) (indent : Nat) : Bool :=
  indentOf (trimEol line) = indent && (key ++ [':']).isPrefixOf ((trimEol line).drop indent)

def mcpChildIndentFromLine (line : Text) : Option Nat :=
  if blank line || ['#'].isPrefixOf (trimStart line) then none
  else if 0 < indentOf line then some (indentOf line)
  else none

/-- The key of an unindented mapping entry, and what follows its colon. -/
def topLevelKeyAndTail (line : Text) : Option (Text × Text) :=
  let content := trimStart (trimEol line)
  if indentOf line ≠ 0 || content = [] || ['#'].isPrefixOf content || ['-'].isPrefixOf content then
    none
  else if ':' ∈ content then
    let key := trimEnd (content.takeWhile (· ≠ ':'))
    if key = [] then none else some (key, (content.dropWhile (· ≠ ':')).tail)
  else none

def topLevelKey (line : Text) : Option Text := (topLevelKeyAndTail line).map (·.1)

def topLevelBlockKey (line : Text) : Option Text :=
  (topLevelKeyAndTail line).bind fun (key, tail) =>
    if trim (tail.takeWhile (· ≠ '#')) = [] then some key else none

def hasTopLevelMcpServers (yaml : Text) : Bool :=
  (Text.lines yaml).any fun line => topLevelKey line = some mcpServers

/-- What the loops below carry: whether they are in the `mcpServers:` mapping,
and the indentation of its first child. -/
structure Scan where
  inMcpServers : Bool
  childIndent : Option Nat

def Scan.start : Scan := ⟨false, none⟩

def Scan.next (scan : Scan) (line : Text) : Scan :=
  match topLevelKey line with
  | some key => ⟨key = mcpServers && topLevelBlockKey line = some mcpServers, none⟩
  | none =>
    if scan.inMcpServers && scan.childIndent.isNone then
      { scan with childIndent := mcpChildIndentFromLine line }
    else scan

/-- The line is the key of the entry; `scan` has already read it. -/
def Scan.atEntry (scan : Scan) (line : Text) : Bool :=
  topLevelKey line = none && scan.inMcpServers &&
    scan.childIndent.any (isIndentedKey line diffloreKey)

def belongs (indent : Nat) (line : Text) : Bool := blank line || indent < indentOf line

def hasEntry (scan : Scan) : List Text → Bool
  | [] => false
  | line :: rest => (scan.next line).atEntry line || hasEntry (scan.next line) rest

def yamlHasDiffloreUnderMcpServers (yaml : Text) : Bool := hasEntry .start (Text.lines yaml)

def spliceEntry (replacement : Nat → Text) (scan : Scan) : List Text → Option (List Text)
  | [] => none
  | line :: rest =>
    if (scan.next line).atEntry line then
      let indent := (scan.next line).childIndent.getD 2
      some (replacement indent :: rest.dropWhile (belongs indent))
    else (spliceEntry replacement (scan.next line) rest).map (line :: ·)

def entryLines (scan : Scan) : List Text → List Text
  | [] => []
  | line :: rest =>
    if (scan.next line).atEntry line then
      line :: rest.takeWhile (belongs ((scan.next line).childIndent.getD 2))
    else entryLines (scan.next line) rest

def diffloreBlockLines (yaml : Text) : List Text := entryLines .start (Text.lines yaml)

def firstChildIndent (inMcpServers : Bool) : List Text → Option Nat
  | [] => none
  | line :: rest =>
    match topLevelKey line with
    | some key =>
      firstChildIndent (key = mcpServers && topLevelBlockKey line = some mcpServers) rest
    | none =>
      if inMcpServers then (mcpChildIndentFromLine line).or (firstChildIndent inMcpServers rest)
      else firstChildIndent inMcpServers rest

def mcpChildIndent (yaml : Text) : Option Nat := firstChildIndent false (Text.lines yaml)

def yamlEscapeScalar (s : Text) : Text :=
  if ':' ∈ s || '#' ∈ s || '\\' ∈ s || s.head? = some ' ' || s.getLast? = some ' ' || s = [] then
    '\'' :: (s.flatMap (fun c => if c = '\'' then ['\'', '\''] else [c]) ++ ['\''])
  else s

def commandKey : Text := "command: "

def argsKey : Text := "args:"

def commandLine (bin : Text) : Text := commandKey ++ yamlEscapeScalar bin

def argLine : Text := "- " ++ mcpServerArg

def renderGooseBlockAtIndent (bin : Text) (indent : Nat) : Text := unlines
    [List.replicate indent ' ' ++ (diffloreKey ++ [':']),
     List.replicate (indent + 2) ' ' ++ commandLine bin,
     List.replicate (indent + 2) ' ' ++ argsKey,
     List.replicate (indent + 4) ' ' ++ argLine]

def renderGooseBlock (bin : Text) : Text := renderGooseBlockAtIndent bin 2

def blockNotFound : Text := "could not locate existing difflore block under mcpServers"

def replaceGooseDiffloreBlock (yaml bin : Text) : Except Text Text :=
  match spliceEntry (renderGooseBlockAtIndent bin) .start (splitInclusive yaml) with
  | none => .error blockNotFound
  | some lines => .ok lines.flatten

/-- Put the entry right behind the first `mcpServers:` line. -/
def insertBehindHeader (entry : Text) : List Text → Except Text (List Text)
  | [] => .error "mcpServers: not found"
  | line :: rest =>
    if topLevelKey line = some mcpServers then
      if topLevelBlockKey line ≠ some mcpServers then
        .error "mcpServers must be a block mapping, not an inline value"
      else .ok (line :: entry :: rest)
    else (insertBehindHeader entry rest).map (line :: ·)

def insertUnderMcpServers (yaml bin : Text) : Except Text Text :=
  let entry := renderGooseBlockAtIndent bin ((mcpChildIndent yaml).getD 2)
  (insertBehindHeader entry (splitInclusive yaml)).map List.flatten

def mcpServersHeader : Text := mcpServers ++ [':']

def mergedContent (existing bin : Text) : Except Text (Text × Bool) :=
  if existing = [] then .ok (unlines [mcpServersHeader] ++ renderGooseBlock bin, false)
  else if yamlHasDiffloreUnderMcpServers existing then
    (replaceGooseDiffloreBlock existing bin).map (·, true)
  else if hasTopLevelMcpServers existing then (insertUnderMcpServers existing bin).map (·, false)
  else
    .ok (unlines [trimEnd existing, mcpServersHeader] ++ renderGooseBlock bin, false)

def mergeGooseYamlConfig (file : Option Text) (bin : Text) (dryRun : Bool) :
    Except Text (Bool × Option Text) :=
  (mergedContent (file.getD []) bin).map fun (content, replaced) =>
    (replaced, if dryRun then file else some content)

inductive InstallState
  | installed
  | notInstalled
  | conflict
  | unknown

structure TargetStatus where
  name : Text
  detected : Bool
  state : InstallState
  detail : Option Text

def entryAsExpected (yaml expectedCommand : Text) : Bool :=
  (diffloreBlockLines yaml).any (fun line => trimStart line = commandLine expectedCommand) &&
    (diffloreBlockLines yaml).any (fun line => trimStart line = argLine)

def probeGooseInstall (name path : Text) (file : Option Text) (expectedCommand : Text) :
    TargetStatus :=
  match file with
  | none => ⟨name, false, .notInstalled, some (path ++ " not found")⟩
  | some text =>
    if !yamlHasDiffloreUnderMcpServers text then
      ⟨name, true, .notInstalled, some (path ++ " has no difflore block")⟩
    else if entryAsExpected text expectedCommand then ⟨name, true, .installed, some path⟩
    else
      ⟨name, true, .conflict, some (path ++ ": difflore block exists but command/args drifted")⟩

def extractGooseBlock (file : Option Text) : Option Text := file.bind fun text =>
    if !yamlHasDiffloreUnderMcpServers text || diffloreBlockLines text = [] then none
    else some (unlines ((diffloreBlockLines text).map trimEol))

def removeGooseDiffloreBlock (yaml : Text) : Except Text Text :=
  match spliceEntry (fun _ => []) .start (splitInclusive yaml) with
  | none => .error blockNotFound
  | some lines => .ok lines.flatten

/-- An `mcpServers:` line whose next line that is not blank is not indented. -/
def emptyHeader (line : Text) (rest : List Text) : Bool :=
  indentOf (trimEol line) = 0 && trimEnd (trimEol line) = mcpServersHeader &&
    !(rest.find? fun next => !blank next).any fun next => 0 < indentOf next

def dropEmptyHeaders : List Text → List Text
  | [] => []
  | line :: rest =>
    if emptyHeader line rest then dropEmptyHeaders rest else line :: dropEmptyHeaders rest

def dropEmptyMcpServersBlock (yaml : Text) : Text :=
  (dropEmptyHeaders (splitInclusive yaml)).flatten

/-- The new content; `none` where there is no entry to remove. -/
def removedContent (existing : Text) : Except Text (Option Text) :=
  if yamlHasDiffloreUnderMcpServers existing then
    (removeGooseDiffloreBlock existing).map fun stripped => some (dropEmptyMcpServersBlock stripped)
  else .ok none

def removeGooseYamlConfig (file : Option Text) (dryRun : Bool) : Except Text (Bool × Option Text) :=
  match file with
  | none => .ok (false, none)
  | some existing =>
    (removedContent existing).map fun
      | none => (false, some existing)
      | some content => (true, if dryRun then some existing else some content)

end Difflore.Install

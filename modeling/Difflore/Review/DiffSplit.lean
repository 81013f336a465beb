import Difflore.Foundation.Lines
import Difflore.Review.Perspectives

/-! # Hunk-aware line resolution

The hunks of one file's diff section, and the search for the lines a review
issue is about.
-/

namespace Difflore.Review

open Foundation Text

inductive LineKind
  | context
  | added
  | deleted
  deriving DecidableEq

structure HunkLine where
  kind : LineKind
  content : Text
  deriving DecidableEq

structure DiffHunk where
  oldStart : Nat
  newStart : Nat
  lines : List HunkLine
  deriving DecidableEq

structure IndexedLine where
  lineNum : Nat
  content : Text

structure ResolveTarget where
  snippet : Option Text
  claimedLine : Option Int

/-- An `@@ -a,b +c,d @@` line as an empty hunk. -/
def parseHunkHeader (header : Text) : Option DiffHunk := do
  let inner ← stripPrefix "@@" header
  let spec ← beforeFirst "@@" inner
  match splitWhitespace (trim spec) with
  | oldPart :: newPart :: _ =>
    let old ← stripPrefix ['-'] oldPart
    let new ← stripPrefix ['+'] newPart
    let oldStart ← parseU32 (old.takeWhile (· ≠ ','))
    let newStart ← parseU32 (new.takeWhile (· ≠ ','))
    return ⟨oldStart, newStart, []⟩
  | _ => none

def isHunkHeader (line : Text) : Bool := "@@".toList.isPrefixOf line

/-- A body line of a hunk; markers of a missing newline, and lines that are not
part of a hunk, give nothing. -/
def parseHunkLine (line : Text) : Option HunkLine :=
  match line with
  | [] => some ⟨.context, []⟩
  | '+' :: content => some ⟨.added, content⟩
  | '-' :: content => some ⟨.deleted, content⟩
  | ' ' :: content => some ⟨.context, content⟩
  | _ :: _ => none

/-- The scan over the lines: the hunks so far and the one being read. -/
def parseHunkLines (hunks : List DiffHunk) (current : Option DiffHunk) : List Text → List DiffHunk
  | [] => hunks ++ current.toList
  | raw :: rest =>
    let line := stripCr raw
    if isHunkHeader line then
      parseHunkLines (hunks ++ current.toList) (parseHunkHeader line) rest
    else
      parseHunkLines hunks
        (current.map fun hunk =>
          { hunk with lines := hunk.lines ++ (parseHunkLine line).toList }) rest

/-- Parse the hunks of one file; lines in front of the first one are skipped. -/
def parseHunks (diffSection : Text) : List DiffHunk :=
  parseHunkLines [] none (Text.lines diffSection)

def normalizeLine (s : Text) : Text :=
  let t := trim s
  trim (((stripPrefix ['+'] t).or (stripPrefix ['-'] t)).getD t)

def splitAndNormalize (code : Text) : List Text :=
  ((Text.lines code).map normalizeLine).filter (· ≠ [])

def addU32 (a b : Nat) : Nat := (a + b) % 2 ^ 32

def absDiff (a b : Nat) : Nat := max a b - min a b

def toI32 (n : Nat) : Int := if n < 2 ^ 31 then n else 2 ^ 31 - 1

def sideLinesFrom (newSide : Bool) (oldLine newLine : Nat) : List HunkLine → List IndexedLine
  | [] => []
  | line :: rest =>
    match line.kind with
    | .context =>
      ⟨if newSide then newLine else oldLine, normalizeLine line.content⟩ ::
        sideLinesFrom newSide (addU32 oldLine 1) (addU32 newLine 1) rest
    | .added =>
      (if newSide then [⟨newLine, normalizeLine line.content⟩] else []) ++
        sideLinesFrom newSide oldLine (addU32 newLine 1) rest
    | .deleted =>
      (if newSide then [] else [⟨oldLine, normalizeLine line.content⟩]) ++
        sideLinesFrom newSide (addU32 oldLine 1) newLine rest

def extractSideLines (hunk : DiffHunk) (newSide : Bool) : List IndexedLine :=
  sideLinesFrom newSide hunk.oldStart hunk.newStart hunk.lines

/-- Keep the earlier candidate unless the later one starts nearer to the claim. -/
def nearer (claimed : Nat) (best : Option (Nat × Nat)) (candidate : Nat × Nat) : Nat × Nat :=
  match best with
  | none => candidate
  | some prev => if absDiff candidate.1 claimed < absDiff prev.1 claimed then candidate else prev

def consecutiveMatches (targets : List Text) : List IndexedLine → List (Nat × Nat)
  | [] => []
  | side@(first :: rest) =>
    let window := side.take targets.length
    let others := consecutiveMatches targets rest
    if window.map IndexedLine.content = targets then
      (first.lineNum, (window.getLastD first).lineNum) :: others
    else others

def matchConsecutive (side : List IndexedLine) (targets : List Text) (preferNear : Option Nat) :
    Option (Nat × Nat) :=
  if targets = [] then none
  else
    let found := consecutiveMatches targets side
    match preferNear with
    | none => found.head?
    | some claimed => found.foldl (fun best candidate => some (nearer claimed best candidate)) none

def matchSide (hunks : List DiffHunk) (targets : List Text) (prefer : Option Nat)
    (newSide : Bool) : Option (Nat × Nat) :=
  let found := hunks.filterMap fun hunk =>
    matchConsecutive (extractSideLines hunk newSide) targets prefer
  match prefer with
  | none => found.head?
  | some claimed => found.foldl (fun best candidate => some (nearer claimed best candidate)) none

def snapClaimedLine (claimed : Nat) (hunks : List DiffHunk) : Option Int :=
  let best := hunks.foldl (fun best hunk =>
    let side := extractSideLines hunk true
    match side.head?, side.getLast? with
    | some lo, some hi =>
      if addU32 claimed 2 < lo.lineNum || addU32 hi.lineNum 2 < claimed then best
      else
        side.foldl (fun (best : Option (Nat × Nat)) line =>
          let dist := absDiff line.lineNum claimed
          if best.all (dist < ·.1) then some (dist, line.lineNum) else best) best
    | _, _ => best) none
  best.map fun found => toI32 found.2

def ResolveTarget.positiveClaim (target : ResolveTarget) : Option Nat :=
  (target.claimedLine.filter (0 < ·)).map Int.toNat

def ResolveTarget.snippetMatch (target : ResolveTarget) (hunks : List DiffHunk) :
    Option (Nat × Nat) :=
  match target.snippet with
  | none => none
  | some snippet =>
    let targets := splitAndNormalize snippet
    if targets = [] then none
    else
      (matchSide hunks targets target.positiveClaim true).or
        (matchSide hunks targets target.positiveClaim false)

/-- The lines an issue is about: its snippet on the new side, else on the old
side, else the line nearest to the claim. -/
def resolveIssueLines (target : ResolveTarget) (hunks : List DiffHunk) : Option (Int × Int) :=
  if hunks = [] then none
  else
    match target.snippetMatch hunks with
    | some (start, stop) => some (toI32 start, toI32 stop)
    | none =>
      (target.positiveClaim.bind (snapClaimedLine · hunks)).map fun line => (line, line)

/-! ## Splitting a diff by file

The splitter reads line by line: a `diff --git` line closes a section, and a
`+++` line names the file the section is for, wherever it stands.
-/

/-- Sections by path; a later section of a path hides an earlier one. -/
abbrev Sections := List (Text × Text)

structure SplitState where
  currentPath : Option Text
  currentBody : Text
  out : Sections

namespace SplitState

def initial : SplitState := ⟨none, [], []⟩

def flush (state : SplitState) : SplitState :=
  match state.currentPath with
  | none => state
  | some path =>
    if trim state.currentBody = [] then ⟨none, [], state.out⟩
    else ⟨none, [], (path, state.currentBody) :: state.out⟩

def push (state : SplitState) (line : Text) : SplitState :=
  if state.currentPath.isSome then
    { state with currentBody := state.currentBody ++ line ++ ['\n'] }
  else state

end SplitState

def namedPath (line : Text) : Option Text :=
  match stripPrefix "+++ " line with
  | none => none
  | some rest =>
    let path := trim ((stripPrefix "b/" rest).getD rest)
    if path ≠ [] && path ≠ "/dev/null" then some path else none

def isGitHeader (line : Text) : Bool := "diff --git ".toList.isPrefixOf line

def splitStep (state : SplitState) (line : Text) : SplitState :=
  if isGitHeader line then ⟨none, [], state.flush.out⟩
  else
    match namedPath line with
    | some path => { state with currentPath := some path }.push line
    | none => state.push line

def splitDiffByFile (diff : Text) : Sections :=
  ((Text.lines diff).foldl splitStep .initial).flush.out

def sectionHunks (sections : Sections) (file : Text) : List DiffHunk :=
  ((sections.lookup file).map parseHunks).getD []

def resolveIssue (hunks : Text → List DiffHunk) (issue : ReviewIssueRecord)
    (snippet : Option Text) : ReviewIssueRecord :=
  match issue.file with
  | none => issue
  | some file =>
    match resolveIssueLines ⟨snippet, issue.line⟩ (hunks file) with
    | none => issue
    | some (start, _) => { issue with line := some start }

def withSnippets : List ReviewIssueRecord → List (Option Text) →
    List (ReviewIssueRecord × Option Text)
  | [], _ => []
  | issue :: issues, [] => (issue, none) :: withSnippets issues []
  | issue :: issues, snippet :: snippets => (issue, snippet) :: withSnippets issues snippets

def applyHunkLineResolution (issues : List ReviewIssueRecord) (snippets : List (Option Text))
    (diff : Text) : List ReviewIssueRecord :=
  let sections := splitDiffByFile diff
  (withSnippets issues snippets).map fun (issue, snippet) =>
    resolveIssue (sectionHunks sections) issue snippet

structure DiffHunkRecord where
  header : Text
  body : Text
  deriving DecidableEq

structure DiffContentRecord where
  filePath : Text
  hunks : List DiffHunkRecord
  deriving DecidableEq

def diffRecordPatch (record : DiffContentRecord) : Text :=
  "--- a/" ++ record.filePath ++ "\n+++ b/".toList ++ record.filePath ++ "\n".toList ++
    record.hunks.flatMap fun hunk => hunk.header ++ "\n".toList ++ hunk.body

def diffRecordsToString (records : List DiffContentRecord) : Text := records.flatMap diffRecordPatch

end Difflore.Review

import Difflore.Foundation.Lines
import Difflore.Foundation.Marker
import Mathlib.Data.List.Sort

/-! # Packing a diff into a context, and slicing it again

`pack_diff_context` writes one section for each file under a `## File:` header,
in full or compacted to the budget. `diff_slice_for_file` finds a file's section
in such a text, in a list of diff records or in a raw diff, by string search.
-/

namespace Difflore.Review

open Foundation Text

inductive DiffContextMode
  | reviewExtraction
  | fixPr

inductive DiffContextFileChange
  | added
  | modified
  | renamed
  | deleted
  deriving DecidableEq

def DiffContextFileChange.asStr : DiffContextFileChange → Text
  | .added => "added"
  | .modified => "modified"
  | .renamed => "renamed"
  | .deleted => "deleted"

structure DiffContextFile where
  path : Text
  patch : Text
  relevance : Nat
  change : DiffContextFileChange
  deriving DecidableEq

def DiffContextFile.new (path patch : Text) : DiffContextFile := ⟨path, patch, 0, .modified⟩

structure DiffContextOptions where
  charBudget : Option Nat
  mode : DiffContextMode

structure PackedDiffFile where
  path : Text
  change : DiffContextFileChange
  relevance : Nat
  originalChars : Nat
  includedChars : Nat
  additions : Nat
  deletions : Nat
  truncated : Bool
  deriving DecidableEq

inductive DiffContextSummaryReason
  | deletedFile
  | emptyPatch
  | omittedForBudget
  | truncatedForBudget
  deriving DecidableEq

structure DiffContextSummary where
  path : Text
  change : DiffContextFileChange
  reason : DiffContextSummaryReason
  originalChars : Nat
  includedChars : Nat
  additions : Nat
  deletions : Nat
  summary : Text

structure PackedDiffContext where
  text : Text
  includedFiles : List PackedDiffFile
  summaries : List DiffContextSummary
  charBudget : Option Nat
  packedChars : Nat
  originalChars : Nat

def isContextLine (line : Text) : Bool := " ".toList.isPrefixOf line

def isChangedLine (line : Text) : Bool :=
  ("+".toList.isPrefixOf line && !"+++".toList.isPrefixOf line) ||
    ("-".toList.isPrefixOf line && !"---".toList.isPrefixOf line)

def keyPatchPrefixes : List Text :=
  ["diff --git ", "index ", "old mode ", "new mode ",
    "new file mode ", "deleted file mode ", "similarity index ",
    "rename from ", "rename to ", "--- ", "+++ ", "@@ ",
    "Binary files "]

def isKeyPatchLine (line : Text) : Bool :=
  keyPatchPrefixes.any (·.isPrefixOf line) || isChangedLine line

def countChangedLines (patch : Text) : Nat × Nat :=
  let ls := Text.lines patch
  let added : Text → Bool := fun line =>
    "+".toList.isPrefixOf line && !"+++".toList.isPrefixOf line
  let removed : Text → Bool := fun line =>
    "-".toList.isPrefixOf line && !"---".toList.isPrefixOf line
  (ls.countP added, ls.countP removed)

def changedLineTotal (patch : Text) : Nat :=
  (countChangedLines patch).1 + (countChangedLines patch).2

def patchIndicatesDeletedFile (patch : Text) : Bool := (Text.lines patch).any fun line =>
    trim line = "+++ /dev/null" || "deleted file mode ".toList.isPrefixOf line

def effectiveChange (file : DiffContextFile) : DiffContextFileChange :=
  if file.change = .deleted || patchIndicatesDeletedFile file.patch then .deleted else file.change

def activeRank : DiffContextFileChange → Nat
  | .deleted => 1
  | .added | .modified | .renamed => 0

def compareText (s t : Text) : Ordering := compareOfLessAndEq s t

def compareContents (a b : DiffContextFile) (mode : DiffContextMode) : Ordering :=
  let size := fun file : DiffContextFile => (trimEnd file.patch).length
  let last := (compare (size a) (size b)).then (compareText (trim a.path) (trim b.path))
  let first := (compare b.relevance a.relevance).then
    (compare (activeRank (effectiveChange a)) (activeRank (effectiveChange b)))
  match mode with
  | .reviewExtraction => first.then last
  | .fixPr =>
    (first.then (compare (changedLineTotal b.patch) (changedLineTotal a.patch))).then last

/-- Files are packed by relevance, deleted ones last, then by the amount of change (only
for a fix), by size, path and position. -/
def compareFiles (a b : DiffContextFile × Nat) (mode : DiffContextMode) : Ordering :=
  (compareContents a.1 b.1 mode).then (compare a.2 b.2)

def orderedFiles (files : List DiffContextFile) (mode : DiffContextMode) : List DiffContextFile :=
  (files.zipIdx.insertionSort fun a b => compareFiles a b mode ≠ .gt).map (·.1)

def fileMark : Text := "## File: "

def blankLine : Text := "\n\n"

def fenceOpening : Text := "\n\n```diff\n"

def fenceClosing : Text := "\n```\n"

def renderFileSection (path patch : Text) : Text :=
  blankLine ++ (fileMark ++ (path ++ (fenceOpening ++ (trimEnd patch ++ fenceClosing))))

/-- The lines of a patch, each with whether it is kept: key lines, and the
context next to them. -/
def markKept (previousIsKey : Bool) : List Text → List (Text × Bool)
  | [] => []
  | line :: rest =>
    let kept := isKeyPatchLine line ||
      (isContextLine line && (previousIsKey || rest.head?.any isKeyPatchLine))
    (line, kept) :: markKept (isKeyPatchLine line) rest

def tryPushLine (out line : Text) (maxChars : Nat) : Option Text :=
  if out.length + (line.length + 1) > maxChars then none else some (out ++ (line ++ ['\n']))

def pushPartialLine (out line : Text) (maxChars : Nat) : Text :=
  let remaining := maxChars - out.length
  if remaining > 1 then out ++ (line.take (remaining - 1) ++ ['\n']) else out

/-- The loop over the marked lines. `skipped` asks for an ellipsis in front of
the next line; the first line that does not fit ends the loop. -/
def pushKept (maxChars : Nat) (out : Text) (skipped includedAny : Bool) : List (Text × Bool) → Text
  | [] => out
  | (_, false) :: rest => pushKept maxChars out true includedAny rest
  | (line, true) :: rest =>
    let ellipsis := if skipped && includedAny then tryPushLine out "..." maxChars else none
    let skipped := skipped && ellipsis.isNone
    let out := ellipsis.getD out
    match tryPushLine out line maxChars with
    | some out => pushKept maxChars out skipped true rest
    | none => if includedAny then out else pushPartialLine out line maxChars

def compactPatchLines (patch : Text) (maxChars : Nat) : Text :=
  let ls := Text.lines (trimEnd patch)
  if maxChars = 0 || ls = [] then []
  else
    let marked := markKept false ls
    if marked.any (·.2) then trimEnd (pushKept maxChars [] false false marked)
    else (trim patch).take maxChars

def truncatedMarker : Text := "... [diff context truncated]\n"

def renderCompactFileSection (path patch : Text) (maxChars : Nat) : Option Text :=
  let start := blankLine ++ (fileMark ++ (path ++ fenceOpening))
  let ending := "```\n".toList
  let overhead := start.length + 1 + truncatedMarker.length + ending.length
  if maxChars ≤ overhead then none
  else
    let compactPatch := compactPatchLines patch (maxChars - overhead)
    if trim compactPatch = [] then none
    else
      let compacted := start ++ (trimEnd compactPatch ++ (['\n'] ++ (truncatedMarker ++ ending)))
      if compacted.length ≤ maxChars then some compacted else none

/-! ## Packing -/

def reasonText : DiffContextSummaryReason → Text
  | .deletedFile => "summarized because the file was deleted"
  | .emptyPatch => "omitted because the patch was empty"
  | .omittedForBudget => "deferred because the char budget was exhausted"
  | .truncatedForBudget =>
    "partially included with key patch context because the full patch exceeded budget"

def buildSummary (path : Text) (change : DiffContextFileChange)
    (reason : DiffContextSummaryReason) (originalChars includedChars : Nat)
    (changed : Nat × Nat) : DiffContextSummary where
  path := path
  change := change
  reason := reason
  originalChars := originalChars
  includedChars := includedChars
  additions := changed.1
  deletions := changed.2
  summary := path ++ (" (" ++ (change.asStr ++ (", +" ++ (Nat.toDigits 10 changed.1 ++
    (", -" ++ (Nat.toDigits 10 changed.2 ++ (", " ++
    (Nat.toDigits 10 originalChars ++ (" chars): " ++ reasonText reason)))))))))

def fitsBudget (currentChars addedChars : Nat) (budget : Option Nat) : Bool :=
  budget.all fun limit => currentChars + addedChars ≤ limit

namespace PackedDiffContext

def initial (charBudget : Option Nat) : PackedDiffContext := ⟨[], [], [], charBudget, 0, 0⟩

def includeFile (packed : PackedDiffContext) (file : DiffContextFile) (contents : Text)
    (truncated : Bool) : PackedDiffContext :=
  let changed := countChangedLines (trimEnd file.patch)
  { packed with
    text := packed.text ++ contents
    packedChars := packed.packedChars + contents.length
    includedFiles := packed.includedFiles ++ [{
         path := trim file.path
         change := effectiveChange file
         relevance := file.relevance
         originalChars := (trimEnd file.patch).length
         includedChars := contents.length
         additions := changed.1
         deletions := changed.2
         truncated := truncated }] }

def summarize (packed : PackedDiffContext) (file : DiffContextFile)
    (reason : DiffContextSummaryReason) (includedChars : Nat) : PackedDiffContext :=
  { packed with
    summaries := packed.summaries ++ [buildSummary (trim file.path) (effectiveChange file) reason
        (trimEnd file.patch).length includedChars
        (countChangedLines (trimEnd file.patch))] }

def step (packed : PackedDiffContext) (file : DiffContextFile) : PackedDiffContext :=
  let path := trim file.path
  let patch := trimEnd file.patch
  let packed := { packed with originalChars := packed.originalChars + patch.length }
  if path = [] || trim patch = [] then packed.summarize file .emptyPatch 0
  else if effectiveChange file = .deleted then packed.summarize file .deletedFile 0
  else
    let full := renderFileSection path patch
    if fitsBudget packed.packedChars full.length packed.charBudget then
      packed.includeFile file full false
    else
      match packed.charBudget with
      | none => packed
      | some charBudget =>
        match renderCompactFileSection path patch (charBudget - packed.packedChars) with
        | some compacted =>
          (packed.includeFile file compacted true).summarize file .truncatedForBudget
            compacted.length
        | none => packed.summarize file .omittedForBudget 0

end PackedDiffContext

def packDiffContext (files : List DiffContextFile) (options : DiffContextOptions) :
    PackedDiffContext :=
  (orderedFiles files options.mode).foldl PackedDiffContext.step (.initial options.charBudget)

structure Slice where
  start : Nat
  text : Text

def sliceBetween (header next diff : Text) : Option Slice := (find header diff).map fun pos =>
    let body := diff.drop pos
    let stop := (find next (body.drop header.length)).elim body.length fun n =>
      header.length + n + 1
    ⟨pos, body.take stop⟩

/-- The section of a raw diff whose header line ends in the suffix. A header
without a line feed ends the search. -/
def sliceRaw (headerSuffix : Text) (offset : Nat) : Text → Option Slice
  | [] => none
  | c :: rest =>
    if "diff --git " <+: c :: rest then
      match find ['\n'] (c :: rest) with
      | none => none
      | some lineEnd =>
        if headerSuffix <:+ (c :: rest).take lineEnd then
          let stop := (find "\ndiff --git " ((c :: rest).drop lineEnd)).elim
            (c :: rest).length fun n => lineEnd + n + 1
          some ⟨offset, (c :: rest).take stop⟩
        else sliceRaw headerSuffix (offset + 1) rest
    else sliceRaw headerSuffix (offset + 1) rest

def nextMark : Text := '\n' :: fileMark

def packedHeader (file : Text) : Text := fileMark ++ (file ++ ['\n'])

def recordFormHeader (file : Text) : Text :=
  "--- a/" ++ (file ++ ("\n+++ b/" ++ (file ++ ['\n'])))

def diffSliceForFile (diff file : Text) : Option Slice :=
  ((sliceBetween (packedHeader file) nextMark diff).or
    (sliceBetween (recordFormHeader file) "\n--- a/" diff)).or
      (sliceRaw (" b/" ++ file) 0 diff)

end Difflore.Review

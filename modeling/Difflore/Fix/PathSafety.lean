import Difflore.Package.Rules

/-! # Path safety of the apply step

A generated diff may only name the file of the issue. Paths are compared without their `.`
components and with backslashes as slashes.
-/

namespace Difflore.Fix

open Foundation Text
open Package (Component components)

/-- A plain name or `.`. -/
def isPlain : Component → Bool
  | .normal _ | .curDir => true
  | .parentDir | .rootDir => false

/-- `replace('\\', "/")`. -/
def forwardSlashed (path : Text) : Text := path.map fun c => if c = '\\' then '/' else c

def isSafeRepoRelative (path : Text) : Bool := (components (forwardSlashed path)).all isPlain

def names (path : Text) : List Text := (components path).filterMap fun component =>
    match component with
    | .normal name => some name
    | _ => none

def canonicalRel (path : Text) : Text := ['/'].intercalate (names (forwardSlashed path))

/-- How the lines start that `git apply` acts on without a `---` and a `+++` line. -/
def gitFormatStarts : List Text :=
  ["diff --git ", "index ", "old mode", "new mode",
   "new file", "deleted file", "rename ", "copy ",
   "similarity ", "dissimilarity ", "GIT binary patch",
   "Binary files "]

inductive DiffSide where
  | old
  | new
  deriving DecidableEq

def DiffSide.marker : DiffSide → Text
  | .old => "---"
  | .new => "+++"

def DiffSide.wanted : DiffSide → Text
  | .old => ['a', '/']
  | .new => ['b', '/']

def sideOf (line : Text) : Option DiffSide :=
  if "--- " <+: line then some .old
  else if "+++ " <+: line then some .new
  else none

def devNull : Text := "/dev/null"

def refusingToApply (expected why : Text) : Text :=
  "refusing to apply patch for '" ++ (expected ++ ("': " ++ why))

def headerPath (line : Text) : Text := (line.drop 4).takeWhile (· ≠ '\t')

def checkHeader (expected : Text) (side : DiffSide) (line : Text) : Except Text Unit :=
  let path := headerPath line
  if path = devNull then
    .error (refusingToApply expected "diff creates or deletes a file")
  else match stripPrefix side.wanted path with
    | none =>
      .error (refusingToApply expected ("diff header '" ++ (side.marker ++ (' ' :: (path ++
        ("' lacks the required '" ++ (side.wanted ++ "' prefix")))))))
    | some target =>
      if ¬ isSafeRepoRelative target then
        .error (refusingToApply expected
          ("diff targets an unsafe path '" ++ (target ++ ['\''])))
      else if canonicalRel target ≠ canonicalRel expected then
        .error (refusingToApply expected
          ("diff targets a different file '" ++ (target ++ ['\''])))
      else .ok ()

def usesGitFormat : Text :=
  ("diff uses a git-extended/binary header; only a plain unified single-file edit is " ++
   "allowed").toList

def noCompleteHeader : Text :=
  "diff has no complete `--- a/<file>` + `+++ b/<file>` header for the expected file"

def checkLines (expected : Text) : List Text → Bool → Bool → Except Text Unit
  | [], sawOld, sawNew =>
    if sawOld && sawNew then .ok () else .error (refusingToApply expected noCompleteHeader)
  | rawLine :: rest, sawOld, sawNew =>
    let line := stripCr rawLine
    if gitFormatStarts.any (· <+: line) then
      .error (refusingToApply expected usesGitFormat)
    else match sideOf line with
      | none => checkLines expected rest sawOld sawNew
      | some side =>
        match checkHeader expected side line with
        | .error e => .error e
        | .ok () =>
          checkLines expected rest (sawOld || side = .old) (sawNew || side = .new)

def validateDiffTargets (diff expectedFilePath : Text) : Except Text Unit :=
  checkLines expectedFilePath (Text.lines diff) false false

end Difflore.Fix

import Difflore.Hook.Privacy

/-! # The observation classifier

Turns an edit into the observation that is uploaded. The label is read off the raw
texts; narrative and excerpt come from the diff without its private regions.
-/

namespace Difflore.Hook

open Foundation Text

structure ClassifyInput where
  tool : Text
  filePath : Option Text
  diff : Option Text
  newText : Option Text
  oldText : Option Text
  sessionId : Option Text
  tsMs : Int

inductive ObsType where
  | feature
  | bugfix
  | refactor
  | change

structure ObservationScope where
  anchorKind : Text
  anchorKey : Text
  parentPath : Option Text
  displayName : Option Text

structure Observation where
  sessionId : Text
  tsMs : Int
  obsType : ObsType
  tool : Text
  filePath : Option Text
  scope : Option ObservationScope
  title : Text
  narrative : Option Text
  diffExcerpt : Option Text
  contentHash : Text

def diffExcerptMaxBytes : Nat := 1024

def titleMaxChars : Nat := 120

def narrativeMaxChars : Nat := 500

def isEditTool (tool : Text) : Bool := tool = "Edit" || tool = "MultiEdit" || tool = "Write"

def isWordChar (c : Char) : Bool := c.isAlphanum || c = '_'

/-- Occurrences of the needle as a word; `prev` is the character before the text, and
`skip` characters still belong to the last occurrence. -/
def countWordsFrom (needle : Text) : Option Char → Nat → Text → Nat
  | _, _, [] => 0
  | _, skip + 1, c :: rest => countWordsFrom needle (some c) skip rest
  | prev, 0, c :: rest =>
    if needle <+: c :: rest && prev.all (!isWordChar ·) &&
        ((c :: rest).drop needle.length).head?.all (!isWordChar ·) then
      countWordsFrom needle (some c) (needle.length - 1) rest + 1
    else countWordsFrom needle (some c) 0 rest

def countWordOccurrences (haystack needle : Text) : Nat := countWordsFrom needle none 0 haystack

def bugMarkers : List Text := ["FIXME", "BUG", "TODO"]

def removesBugMarker (old new : Text) : Bool := bugMarkers.any fun marker =>
    countWordOccurrences new marker < countWordOccurrences old marker

def stripWs (s : Text) : Text := s.filter (!isWhitespace ·)

inductive ChangeLine where
  | removed (text : Text)
  | added (text : Text)

/-- What a diff line removes or adds; file headers and context do neither. -/
def changeLine (line : Text) : Option ChangeLine :=
  if "---" <+: line || "+++" <+: line then none
  else match line with
    | '-' :: rest => some (.removed rest)
    | '+' :: rest => some (.added rest)
    | _ => none

def diffIsWhitespaceOnly (diff : Text) : Bool :=
  let changes := (Text.lines diff).filterMap changeLine
  let removed := changes.flatMap fun
    | .removed text => text ++ ['\n']
    | .added _ => []
  let added := changes.flatMap fun
    | .removed _ => []
    | .added text => text ++ ['\n']
  !changes.isEmpty && stripWs removed = stripWs added

def diffHasChangeLines (diff : Text) : Bool :=
  (Text.lines diff).any fun line => (changeLine line).isSome

def typeOfDiff (diff : Text) : Option ObsType :=
  if diffIsWhitespaceOnly diff then some .refactor
  else if diffHasChangeLines diff then some .change
  else none

def typeOfTexts : Option Text → Option Text → ObsType
  | some old, some new => if stripWs old = stripWs new ∧ old ≠ new then .refactor else .change
  | _, _ => .change

def determineObsType (input : ClassifyInput) : ObsType :=
  if input.tool = "Write" ∧ input.oldText = none then .feature
  else if input.oldText.any fun old => removesBugMarker old (input.newText.getD []) then .bugfix
  else (input.diff.bind typeOfDiff).getD (typeOfTexts input.oldText input.newText)

def truncateChars (s : Text) (maxChars : Nat) : Text :=
  if s.length ≤ maxChars then s else s.take (maxChars - 1) ++ ['…']

/-- `str::len`. -/
def byteLength (s : Text) : Nat := (s.map Char.utf8Size).sum

def takeBytes : Nat → Text → Text
  | _, [] => []
  | bytes, c :: rest =>
    if c.utf8Size ≤ bytes then c :: takeBytes (bytes - c.utf8Size) rest else []

def truncateDiffExcerpt (diff : Text) : Text :=
  if byteLength diff ≤ diffExcerptMaxBytes then diff
  else takeBytes diffExcerptMaxBytes diff ++ "\n…[truncated]"

def typeHint : ObsType → Text
  | .feature => "new file"
  | .bugfix => "remove bug marker"
  | .refactor => "whitespace/rename"
  | .change => "edit"

def buildTitle (tool filePath : Text) (obsType : ObsType) : Text :=
  truncateChars (tool ++ (" " ++ (filePath ++ (": " ++ typeHint obsType))))
    titleMaxChars

def collectLines (collected : Text) : List Text → Text
  | [] => collected
  | line :: rest =>
    collectLines (if collected = [] then line else collected ++ ('\n' :: line)) rest

def narrativeOf (diff : Text) : Option Text :=
  let collected := collectLines [] ((Text.lines diff).take 6)
  if collected = [] then none else some (truncateChars collected narrativeMaxChars)

def buildNarrative (input : ClassifyInput) : Option Text :=
  input.diff.bind fun diff => narrativeOf (stripPrivateTaggedRegions diff)

def computeContentHash (sha256 : Text → Text) (sessionId filePath title : Text)
    (narrative : Option Text) : Text :=
  (sha256 (sessionId ++
    ('|' :: (filePath ++ ('|' :: (title ++ ('|' :: narrative.getD []))))))).take 16

def deriveScope (filePath : Text) : Option ObservationScope :=
  let parts := ((trimMatches (· = '/') filePath).splitOnP (· = '/')).filter (· ≠ [])
  if parts = [] then none
  else some
    { anchorKind := "file"
      anchorKey := "/".toList.intercalate parts
      parentPath := if 1 < parts.length then some ("/".toList.intercalate parts.dropLast) else none
      displayName := parts.getLast? }

def observationOf (sha256 : Text → Text) (input : ClassifyInput) (filePath : Text)
    (obsType : ObsType) : Observation :=
  let title := buildTitle input.tool filePath obsType
  let narrative := buildNarrative input
  let sessionId := input.sessionId.getD []
  { sessionId
    tsMs := input.tsMs
    obsType
    tool := input.tool
    filePath := some filePath
    scope := deriveScope filePath
    title
    narrative
    diffExcerpt := input.diff.map fun diff => truncateDiffExcerpt (stripPrivateTaggedRegions diff)
    contentHash := computeContentHash sha256 sessionId filePath title narrative }

def classify (sha256 : Text → Text) (input : ClassifyInput) : Option Observation :=
  if ¬ isEditTool input.tool then none
  else input.filePath.bind fun filePath =>
    if isPrivacyDenied filePath then none
    else if input.diff = none ∧ input.newText = none then none
    else some (observationOf sha256 input filePath (determineObsType input))

theorem classify_of_denied {sha256 : Text → Text} {input : ClassifyInput} {filePath : Text}
    (hpath : input.filePath = some filePath) (hdenied : isPrivacyDenied filePath = true) :
    classify sha256 input = none := by
  unfold classify
  split
  next => rfl
  next => rw [hpath, Option.bind_some, if_pos hdenied]

end Difflore.Hook

import Difflore.Hook.SecretFiles
import Mathlib.Data.List.Dedup

/-! # Do private-tagged regions stay local?

Stripping makes a text the same whatever its regions hold. The label of an observation,
the intent of a retrieval and the two excerpts are taken from the text as it came.
-/

namespace Difflore.Hook

open Foundation Text
open Cloud.HookSpill (observationKind)
open Cloud.Observations (ObservationEvent maxQueueRows newRow)

inductive RegionKind where
  | priv
  | secret
  | sensitive
  deriving DecidableEq

def RegionKind.opening : RegionKind → Tag '<' '>'
  | .priv => ⟨"private", by decide, by decide, by decide⟩
  | .secret => ⟨"secret", by decide, by decide, by decide⟩
  | .sensitive => ⟨"sensitive", by decide, by decide, by decide⟩

def RegionKind.closing : RegionKind → Tag '<' '>'
  | .priv => ⟨"/private", by decide, by decide, by decide⟩
  | .secret => ⟨"/secret", by decide, by decide, by decide⟩
  | .sensitive => ⟨"/sensitive", by decide, by decide, by decide⟩

def RegionKind.all : List RegionKind := [.priv, .secret, .sensitive]

theorem RegionKind.mem_all (kind : RegionKind) : kind ∈ RegionKind.all := by
  cases kind <;> decide

def openings : List (Tag '<' '>') := RegionKind.all.map RegionKind.opening

theorem privateTagPairs_eq :
    privateTagPairs = RegionKind.all.map fun kind => (kind.opening.symbols, kind.closing.symbols) :=
  by decide

def IsPublic (text : Text) : Prop := Free openings (toAsciiLowercase text)

/-- A region with the public text before it. The tags may be in any case. -/
structure Segment where
  before : Text
  kind : RegionKind
  opening : Text
  content : Text
  closing : Text
  before_public : IsPublic before
  opening_eq : toAsciiLowercase opening = kind.opening.symbols
  closing_eq : toAsciiLowercase closing = kind.closing.symbols
  content_closed : ¬ kind.closing.symbols <:+: toAsciiLowercase content

def Segment.render (segment : Segment) : Text :=
  segment.before ++ (segment.opening ++ (segment.content ++ segment.closing))

def renderSegments (segments : List Segment) (tail : Text) : Text :=
  segments.flatMap Segment.render ++ tail

structure Segment.SameFrame (first second : Segment) : Prop where
  before : first.before = second.before
  kind : first.kind = second.kind
  opening : first.opening = second.opening
  closing : first.closing = second.closing

/-- The texts are equal, or differ only in what their closed regions hold. -/
def DifferInside (first second : Text) : Prop := first = second ∨
    ∃ segments others tail, IsPublic tail ∧ List.Forall₂ Segment.SameFrame segments others ∧
      first = renderSegments segments tail ∧ second = renderSegments others tail

/-- The texts differ only inside their regions and have as many lines. -/
def AlikeTexts (first second : Text) : Prop :=
  DifferInside first second ∧ (Text.lines first).length = (Text.lines second).length

/-! ## Stripping -/

theorem toAsciiLowercase_append (s t : Text) :
    toAsciiLowercase (s ++ t) = toAsciiLowercase s ++ toAsciiLowercase t :=
  List.map_append

theorem length_toAsciiLowercase (s : Text) : (toAsciiLowercase s).length = s.length :=
  List.length_map _

theorem RegionKind.opening_symbols_ne {kind other : RegionKind} (hne : other ≠ kind) :
    other.opening.symbols ≠ kind.opening.symbols := by
  cases kind <;> cases other <;> first | contradiction | decide

theorem find_opening_self {x : Text} (hx : Free openings x) (kind : RegionKind) (y : Text) :
    find kind.opening.symbols (x ++ (kind.opening.symbols ++ y)) = some x.length := by
  have hfree : ¬ kind.opening.symbols <:+: x :=
    hx kind.opening (List.mem_map_of_mem kind.mem_all)
  rw [find_append (kind.opening.cleanCut_symbols_append kind.opening) hfree, find_append_self]
  rfl

theorem find_opening_other {x : Text} (hx : Free openings x) {kind other : RegionKind}
    (hne : other ≠ kind) (y : Text) :
    find other.opening.symbols (x ++ (kind.opening.symbols ++ y)) =
      (find other.opening.symbols y).map fun n => x.length + (kind.opening.symbols.length + n) := by
  have hfree : ¬ other.opening.symbols <:+: x :=
    hx other.opening (List.mem_map_of_mem other.mem_all)
  have hother : ¬ other.opening.symbols <:+: kind.opening.symbols :=
    other.opening.not_infix_symbols (RegionKind.opening_symbols_ne hne)
  rw [find_append (other.opening.cleanCut_symbols_append kind.opening) hfree,
    find_append (other.opening.cleanCut_symbols kind.opening) hother, Option.map_map]
  rfl

theorem nextPrivateOpenTag_append {x : Text} (hx : Free openings x) (kind : RegionKind) (y : Text) :
    nextPrivateOpenTag (x ++ (kind.opening.symbols ++ y)) =
      some (x.length, kind.opening.symbols, kind.closing.symbols) := by
  have hself := find_opening_self hx kind y
  have hpos := List.length_pos_of_ne_nil kind.opening.symbols_ne_nil
  -- All that counts of the other tags is that they come later.
  obtain ⟨later, hlater, hother⟩ : ∃ later : Nat → Nat, (∀ n, x.length < later n) ∧
      ∀ other : RegionKind, other ≠ kind →
        find other.opening.symbols (x ++ (kind.opening.symbols ++ y)) =
          (find other.opening.symbols y).map later :=
    ⟨_, fun n => by omega, fun other hne => find_opening_other hx hne y⟩
  have hnot : ∀ n, ¬ later n < x.length := fun n => (hlater n).not_gt
  rw [nextPrivateOpenTag, privateTagPairs_eq]
  simp only [RegionKind.all, List.map_cons, List.map_nil]
  cases kind with
  | priv =>
    simp only [List.filterMap_cons, List.filterMap_nil, hself, hother .secret (by decide),
      hother .sensitive (by decide)]
    cases find RegionKind.secret.opening.symbols y <;>
      cases find RegionKind.sensitive.opening.symbols y <;> simp [hnot]
  | secret =>
    simp only [List.filterMap_cons, List.filterMap_nil, hself, hother .priv (by decide),
      hother .sensitive (by decide)]
    cases find RegionKind.priv.opening.symbols y <;>
      cases find RegionKind.sensitive.opening.symbols y <;> simp [hlater, hnot]
  | sensitive =>
    simp only [List.filterMap_cons, List.filterMap_nil, hself, hother .priv (by decide),
      hother .secret (by decide)]
    rcases find RegionKind.priv.opening.symbols y with _ | first <;>
      rcases find RegionKind.secret.opening.symbols y with _ | second
    · simp
    · simp [hlater]
    · simp [hlater]
    · by_cases hless : later second < later first <;> simp [hless, hlater]

theorem nextPrivateOpenTag_of_public {text : Text} (hpublic : IsPublic text) :
    nextPrivateOpenTag (toAsciiLowercase text) = none := by
  have hnone : ∀ kind : RegionKind,
      find kind.opening.symbols (toAsciiLowercase text) = none := fun kind =>
    find_eq_none_iff.mpr (hpublic kind.opening (List.mem_map_of_mem kind.mem_all))
  rw [nextPrivateOpenTag, privateTagPairs_eq]
  simp [hnone]

def redactSegments (segments : List Segment) (tail : Text) : Text :=
  segments.flatMap (fun segment => segment.before ++ privateRedaction) ++ tail

theorem redactSegments_eq {segments others : List Segment}
    (hframe : List.Forall₂ Segment.SameFrame segments others) (tail : Text) :
    redactSegments segments tail = redactSegments others tail := by
  induction hframe with
  | nil => rfl
  | cons hhead _ ih =>
    simp only [redactSegments, List.flatMap_cons, List.append_assoc] at ih ⊢
    rw [hhead.before, ih]

theorem stripPrivateFrom_segment (segment : Segment) (rest : Text) (fuel : Nat) :
    stripPrivateFrom (fuel + 1) (segment.render ++ rest) =
      segment.before ++ (privateRedaction ++ stripPrivateFrom fuel rest) := by
  have hlength : segment.opening.length = segment.kind.opening.symbols.length := by
    rw [← segment.opening_eq, length_toAsciiLowercase]
  have hclosing : segment.closing.length = segment.kind.closing.symbols.length := by
    rw [← segment.closing_eq, length_toAsciiLowercase]
  have hnext : nextPrivateOpenTag (toAsciiLowercase (segment.render ++ rest)) =
      some (segment.before.length, segment.kind.opening.symbols, segment.kind.closing.symbols) := by
    simp only [Segment.render, toAsciiLowercase_append, segment.opening_eq, List.append_assoc]
    rw [nextPrivateOpenTag_append segment.before_public, length_toAsciiLowercase]
  have htake : (segment.render ++ rest).take segment.before.length = segment.before := by
    rw [Segment.render, List.append_assoc, List.take_left]
  have hdrop : (segment.render ++ rest).drop
      (segment.before.length + segment.kind.opening.symbols.length) =
      segment.content ++ (segment.closing ++ rest) := by
    rw [← List.drop_drop, Segment.render, List.append_assoc, List.drop_left, List.append_assoc,
      ← hlength, List.drop_left, List.append_assoc]
  have hfind : find segment.kind.closing.symbols
      (toAsciiLowercase (segment.content ++ (segment.closing ++ rest))) =
      some segment.content.length := by
    simp only [toAsciiLowercase_append, segment.closing_eq]
    rw [find_append (segment.kind.closing.cleanCut_symbols_append _) segment.content_closed,
      find_append_self, length_toAsciiLowercase]
    rfl
  rw [stripPrivateFrom, hnext]
  simp only [hdrop, hfind, htake]
  rw [← hclosing, ← List.drop_drop, List.drop_left, List.drop_left]

theorem stripPrivateFrom_renderSegments (segments : List Segment) {tail : Text}
    (htail : IsPublic tail) {fuel : Nat} (hfuel : (renderSegments segments tail).length ≤ fuel) :
    stripPrivateFrom fuel (renderSegments segments tail) = redactSegments segments tail := by
  induction segments generalizing fuel with
  | nil =>
    cases fuel with
    | zero => rfl
    | succ fuel =>
      simp only [renderSegments, List.flatMap_nil, List.nil_append, redactSegments]
      rw [stripPrivateFrom, nextPrivateOpenTag_of_public htail]
  | cons segment rest ih =>
    have hrender : renderSegments (segment :: rest) tail =
        segment.render ++ renderSegments rest tail := by
      simp [renderSegments]
    have hpos : 0 < segment.render.length := by
      have hopening : segment.opening.length = segment.kind.opening.symbols.length := by
        rw [← segment.opening_eq, length_toAsciiLowercase]
      have hsymbols := List.length_pos_of_ne_nil segment.kind.opening.symbols_ne_nil
      simp only [Segment.render, List.length_append]
      omega
    rw [hrender] at hfuel ⊢
    rw [List.length_append] at hfuel
    cases fuel with
    | zero => omega
    | succ fuel =>
      rw [stripPrivateFrom_segment, ih (by omega)]
      simp [redactSegments]

theorem DifferInside.strip_eq {first second : Text} (hinside : DifferInside first second) :
    stripPrivateTaggedRegions first = stripPrivateTaggedRegions second := by
  rcases hinside with rfl | ⟨segments, others, tail, htail, hframe, rfl, rfl⟩
  · rfl
  · rw [stripPrivateTaggedRegions, stripPrivateTaggedRegions,
      stripPrivateFrom_renderSegments segments htail le_rfl,
      stripPrivateFrom_renderSegments others htail le_rfl, redactSegments_eq hframe]

theorem trim_render_ne_nil (segment : Segment) (rest : Text) :
    trim (segment.render ++ rest) ≠ [] := by
  have hmem : '<' ∈ toAsciiLowercase segment.opening := by
    rw [segment.opening_eq]
    exact .head _
  obtain ⟨c, hc, hlower⟩ := List.mem_map.mp hmem
  obtain rfl := (toLower_eq_iff (by decide)).mp hlower
  have hrender : '<' ∈ segment.render ++ rest := by simp [Segment.render, hc]
  exact trim_ne_nil_of_mem hrender (by decide)

theorem AlikeTexts.trim_eq_nil_iff {first second : Text} (halike : AlikeTexts first second) :
    trim first = [] ↔ trim second = [] := by
  rcases halike with ⟨rfl | ⟨segments, others, tail, _, hframe, rfl, rfl⟩, _⟩
  · rfl
  · cases hframe with
    | nil => rfl
    | @cons segment other rest otherRest _ _ =>
      have hfirst : trim (renderSegments (segment :: rest) tail) ≠ [] := by
        simpa [renderSegments] using trim_render_ne_nil segment (renderSegments rest tail)
      have hsecond : trim (renderSegments (other :: otherRest) tail) ≠ [] := by
        simpa [renderSegments] using trim_render_ne_nil other (renderSegments otherRest tail)
      exact iff_of_false hfirst hsecond

abbrev AlikeOptions : Option Text → Option Text → Prop := Option.Rel AlikeTexts

namespace AlikeOptions

variable {first second third fourth : Option Text}

section

variable (halike : AlikeOptions first second)
include halike

theorem nonBlank :
    AlikeOptions (Hook.nonBlank first) (Hook.nonBlank second) := by
  cases halike with
  | none => exact .none
  | @some a b htexts =>
    rw [Hook.nonBlank, Hook.nonBlank, Option.filter_some, Option.filter_some]
    simp only [ne_eq, htexts.trim_eq_nil_iff]
    split
    next => exact .some htexts
    next => exact .none

theorem or (hother : AlikeOptions third fourth) :
    AlikeOptions (first.or third) (second.or fourth) := by
  cases halike with
  | none => exact hother
  | some htexts => exact .some htexts

theorem map_strip_eq :
    first.map stripPrivateTaggedRegions = second.map stripPrivateTaggedRegions := by
  cases halike with
  | none => rfl
  | some htexts => exact congrArg some htexts.1.strip_eq

theorem isNone_eq : first = none ↔ second = none := by
  cases halike with
  | none => rfl
  | some htexts => simp

end

end AlikeOptions

structure AlikeEvents (first second : PostToolUse) : Prop where
  toolName : first.toolName = second.toolName
  filePath : first.filePath = second.filePath
  targetFiles : first.targetFiles = second.targetFiles
  sessionId : first.sessionId = second.sessionId
  diff : AlikeOptions first.diff second.diff
  newText : AlikeOptions first.newText second.newText
  oldText : AlikeOptions first.oldText second.oldText

/-! ## What the routes read of the raw texts -/

def AgreeUpTo (width : Nat) (first second : Option Text) : Prop :=
  first.map (·.take width) = second.map (·.take width)

def intentText (event : PostToolUse) : Option Text :=
  (nonBlank event.diff).or (nonBlank event.newText)

/-- A bug marker stands in the old text more often than in the new one. -/
def removesMarker (event : PostToolUse) : Bool :=
  event.oldText.any fun old => removesBugMarker old (event.newText.getD [])

/-- Read off the diff if it has changes, and off the two texts otherwise. -/
def changesOnlySpaces (event : PostToolUse) : Bool :=
  match event.diff.filter diffHasChangeLines, event.oldText, event.newText with
  | some diff, _, _ => diffIsWhitespaceOnly diff
  | none, some old, some new => stripWs old = stripWs new && old ≠ new
  | none, _, _ => false

/-- The classifier's tests come out alike, as far as they are made. -/
def SameTests (first second : PostToolUse) : Prop :=
  (first.toolName = "Write" ∧ first.oldText = none) ∨
    (removesMarker first = removesMarker second ∧
      (removesMarker first ∨ changesOnlySpaces first = changesOnlySpaces second))

def Reported (event : PostToolUse) (file : Text) : Prop :=
  isPrivacyDenied file = false ∧ ¬ (event.diff = none ∧ event.newText = none)

def Retrieval.isServed : Retrieval → Bool
  | .served .. => true
  | .shortCircuit | .failed => false

/-- An edit can be told in `observation_events`. -/
def Env.reachesEvents (env : Env) : Bool :=
  env.captureEnabled && env.observationsAvailable && env.reachesRetrieval

section

variable (platform : Platform) (env : Env) (stores : Stores)

/-- What is written of the two edits is cut from texts that agree there. -/
structure RoutesAgree (first second : PostToolUse) (file : Text) : Prop where
  observation : env.keepsObservation → Reported first file → SameTests first second
  cited : env.reachesEvents →
    (strongestRecentRuleId platform env (first.sessionId.getD []) file stores).isSome →
      AgreeUpTo excerptMaxChars (first.diff.or first.newText) (second.diff.or second.newText)
  retrieval : env.reachesEvents → env.retrieval.isServed →
    AgreeUpTo intentMaxChars (intentText first) (intentText second)

structure WritesNothing (event : PostToolUse) (file : Text) : Prop where
  replay : env.dbAvailable → (stores.replay env.insertOutbox).payloads = stores.payloads
  observation : env.keepsObservation → ¬ Reported event file
  cited : env.reachesEvents →
    strongestRecentRuleId platform env (event.sessionId.getD []) file stores = none
  retrieval : env.reachesEvents → env.retrieval.isServed = false

/-- Where the cache entry of the file skips one of the two edits, the other must not write. -/
def EditsAgree (first second : PostToolUse) (file : Text) : Prop :=
  match skipsRecent platform env stores first file,
    skipsRecent platform env stores second file with
  | true, true => True
  | false, false => RoutesAgree platform env stores first second file
  | _, _ => WritesNothing platform env stores first file

variable (sessionId : Text)

/-- The rules of the session's latest rule fire that the message cites. -/
def citedIds (message : Option Text) : List Text :=
  match (nonBlank message).filter citesAnything,
    latestRuleFireForSession platform sessionId stores with
  | some text, some (candidates, _) => citedRuleIds platform env candidates text
  | _, _ => []

def unrecorded (ruleIds : List Text) (stores : Stores) : List Text :=
  ruleIds.filter fun ruleId => !hasRuleActualCitation sessionId ruleId stores

def citedAnew (message : Option Text) : List Text :=
  unrecorded sessionId (citedIds platform env stores sessionId message) stores

/-- The messages cite the same new rules, and agree in the excerpt of a citation. Where the queue
is full, a record of an old rule may have to make room for a new one. -/
def MessagesAgree (first second : Option Text) : Prop :=
  citedAnew platform env stores sessionId first = citedAnew platform env stores sessionId second ∧
    (citedAnew platform env stores sessionId first ≠ [] →
      AgreeUpTo excerptMaxChars first second ∧
        (citedIds platform env stores sessionId first =
            citedIds platform env stores sessionId second ∨
          stores.observations.rows.length +
              (citedAnew platform env stores sessionId first).length ≤
            maxQueueRows))

end

theorem truncate_eq_take (text : Text) (width : Nat) :
    Cloud.truncate text width = text.take width := by
  rw [Cloud.truncate]
  split
  next hshort => exact (List.take_of_length_le hshort).symm
  next => rfl

section

variable {platform : Platform} {env : Env} {first second event : PostToolUse} {file : Text}
  {stores : Stores}

theorem AgreeUpTo.truncate_eq {width : Nat} {left right : Option Text}
    (hagree : AgreeUpTo width left right) :
    Cloud.truncate (left.getD []) width = Cloud.truncate (right.getD []) width := by
  rw [truncate_eq_take, truncate_eq_take]
  cases left <;> cases right <;> simp_all [AgreeUpTo]

theorem AlikeOptions.agreeUpTo {width : Nat} {left right : Option Text}
    (halike : AlikeOptions left right)
    (hcut : Cloud.truncate (left.getD []) width = Cloud.truncate (right.getD []) width) :
    AgreeUpTo width left right := by
  rw [truncate_eq_take, truncate_eq_take] at hcut
  cases halike with
  | none => rfl
  | some => exact congrArg some hcut

/-! ## The observation -/

theorem diffIsWhitespaceOnly_of_unchanged {diff : Text} (hnone : diffHasChangeLines diff = false) :
    diffIsWhitespaceOnly diff = false := by
  have hempty : (Text.lines diff).filterMap changeLine = [] := by
    rw [List.filterMap_eq_nil_iff]
    intro line hline
    simpa using List.any_eq_false.mp hnone line hline
  simp [diffIsWhitespaceOnly, hempty]

theorem editType_eq (event : PostToolUse) :
    (event.diff.bind typeOfDiff).getD (typeOfTexts event.oldText event.newText) =
      if changesOnlySpaces event then .refactor else .change := by
  have htexts : event.diff.filter diffHasChangeLines = none →
      typeOfTexts event.oldText event.newText =
        if changesOnlySpaces event then .refactor else .change := by
    intro hnone
    rw [changesOnlySpaces, hnone]
    cases event.oldText <;> cases event.newText <;> simp [typeOfTexts]
  cases hdiff : event.diff with
  | none => exact htexts (by rw [hdiff]; rfl)
  | some diff =>
    rw [Option.bind_some, typeOfDiff]
    cases hchanges : diffHasChangeLines diff with
    | true =>
      have hspaces : changesOnlySpaces event = diffIsWhitespaceOnly diff := by
        rw [changesOnlySpaces, hdiff, Option.filter_some, if_pos hchanges]
      rw [hspaces]
      cases diffIsWhitespaceOnly diff <;> rfl
    | false =>
      rw [diffIsWhitespaceOnly_of_unchanged hchanges]
      exact htexts (by rw [hdiff, Option.filter_some, hchanges]; rfl)

theorem obsType_eq (env : Env) (event : PostToolUse) (file : Text) :
    determineObsType (classifyInput env event file) =
      if event.toolName = "Write" ∧ event.oldText = none then .feature
      else if removesMarker event then .bugfix
      else if changesOnlySpaces event then .refactor
      else .change := by
  rw [← editType_eq]
  rfl

theorem obsType_eq_iff (halike : AlikeEvents first second) :
    determineObsType (classifyInput env first file) =
        determineObsType (classifyInput env second file) ↔ SameTests first second := by
  have hwrite : second.toolName = "Write" ∧ second.oldText = none ↔
      first.toolName = "Write" ∧ first.oldText = none := by
    rw [halike.toolName, halike.oldText.isNone_eq]
  rw [obsType_eq, obsType_eq, SameTests]
  by_cases hfirst : first.toolName = "Write" ∧ first.oldText = none
  · rw [if_pos hfirst, if_pos (hwrite.mpr hfirst)]
    exact iff_of_true rfl (.inl hfirst)
  · rw [if_neg hfirst, if_neg (mt hwrite.mp hfirst), or_iff_right hfirst]
    cases removesMarker first <;> cases removesMarker second <;>
      cases changesOnlySpaces first <;> cases changesOnlySpaces second <;> simp

theorem observationOf_eq {sha256 : Text → Text} {left right : ClassifyInput}
    (htool : left.tool = right.tool) (hsession : left.sessionId = right.sessionId)
    (hts : left.tsMs = right.tsMs)
    (hdiff : left.diff.map stripPrivateTaggedRegions = right.diff.map stripPrivateTaggedRegions)
    (filePath : Text) (obsType : ObsType) :
    observationOf sha256 left filePath obsType = observationOf sha256 right filePath obsType := by
  have hnarrative : buildNarrative left = buildNarrative right := by
    have hbind := congrArg (Option.bind · narrativeOf) hdiff
    simp only [Option.bind_map] at hbind
    exact hbind
  have hexcerpt : (left.diff.map fun diff =>
        truncateDiffExcerpt (stripPrivateTaggedRegions diff)) =
      right.diff.map fun diff => truncateDiffExcerpt (stripPrivateTaggedRegions diff) := by
    have hmap := congrArg (Option.map truncateDiffExcerpt) hdiff
    simp only [Option.map_map] at hmap
    exact hmap
  simp only [observationOf, hnarrative, hexcerpt, htool, hsession, hts]

theorem observationPayload_of_unreported (hnot : ¬ Reported event file) :
    observationPayload platform env event file = none := by
  have hdenied : isPrivacyDenied file = true ∨ (event.diff = none ∧ event.newText = none) := by
    by_contra hneither
    obtain ⟨hfile, htexts⟩ := not_or.mp hneither
    exact hnot ⟨by simpa using hfile, htexts⟩
  rw [observationPayload]
  rcases hdenied with hdenied | htexts
  · rw [classify_of_denied rfl hdenied]
    rfl
  · simp only [classify, classifyInput, Option.bind_some, htexts, and_self, if_true, ite_self]
    rfl

theorem observationPayload_of_reported (hedit : isEditTool event.toolName)
    (hreported : Reported event file) :
    observationPayload platform env event file = some (platform.encodeObservation
      (observationOf platform.sha256 (classifyInput env event file) file
        (determineObsType (classifyInput env event file)))) := by
  have htexts : ¬ ((classifyInput env event file).diff = none ∧
      (classifyInput env event file).newText = none) := hreported.2
  have htool : ¬ ¬ isEditTool (classifyInput env event file).tool := not_not.mpr hedit
  have hfile : (classifyInput env event file).filePath = some file := rfl
  rw [observationPayload, classify, if_neg htool, hfile, Option.bind_some,
    if_neg (by simp [hreported.1]), if_neg htexts, Option.map_some]

theorem AlikeEvents.reported_iff (halike : AlikeEvents first second) :
    Reported first file ↔ Reported second file := by
  rw [Reported, Reported, halike.diff.isNone_eq, halike.newText.isNone_eq]

theorem observationPayload_eq (halike : AlikeEvents first second)
    (hedit : isEditTool first.toolName) (htests : Reported first file → SameTests first second) :
    observationPayload platform env first file = observationPayload platform env second file := by
  by_cases hreported : Reported first file
  · rw [observationPayload_of_reported hedit hreported,
      observationPayload_of_reported (halike.toolName ▸ hedit) (halike.reported_iff.mp hreported),
      (obsType_eq_iff halike).mpr (htests hreported)]
    have hobservation := @observationOf_eq platform.sha256 (classifyInput env first file)
      (classifyInput env second file) halike.toolName halike.sessionId rfl
      halike.diff.map_strip_eq file
    rw [hobservation]
  · rw [observationPayload_of_unreported hreported,
      observationPayload_of_unreported (mt halike.reported_iff.mpr hreported)]

theorem sameTests_of_observationPayload_eq (env : Env) (halike : AlikeEvents first second)
    (hedit : isEditTool first.toolName) (hencode : Function.Injective platform.encodeObservation)
    (hreported : Reported first file) (hpayload : observationPayload platform env first file =
      observationPayload platform env second file) : SameTests first second := by
  rw [observationPayload_of_reported hedit hreported,
    observationPayload_of_reported (halike.toolName ▸ hedit) (halike.reported_iff.mp hreported)]
    at hpayload
  exact (obsType_eq_iff halike).mp
    (congrArg Observation.obsType (hencode (Option.some.inj hpayload)))

end

/-! ## What an edit writes -/

def Stores.copies (stores : Stores) : List (Text × Text) × List SpillContent :=
  (stores.outbox.rows.map fun row => (row.kind, row.payloadJson), stores.spill.map (·.content))

theorem payloads_eq_iff {left right : Stores} : left.payloads = right.payloads ↔
    left.copies = right.copies ∧ left.observations.rows.map (·.payloadJson) =
      right.observations.rows.map (·.payloadJson) := by
  simp only [Stores.payloads, Stores.copies, Prod.mk.injEq]
  tauto

def toldEvents (platform : Platform) (env : Env) (stores : Stores) (event : PostToolUse)
    (file : Text) : List ObservationEvent :=
  if env.reachesEvents then editEvents platform env event file stores else []

abbrev Tells (platform : Platform) (stores after : Stores) (events : List ObservationEvent) :
    Prop :=
  after.observations.rows.map (·.payloadJson) =
    stores.observations.rows.map (·.payloadJson) ++ events.map platform.serde.encode

theorem Tells.trans {platform : Platform} {stores middle after : Stores}
    {first second : List ObservationEvent} (htold : Tells platform stores middle first)
    (hmore : Tells platform middle after second) :
    Tells platform stores after (first ++ second) := by
  rw [Tells, hmore, htold, List.append_assoc, List.map_append]

theorem Tells.length_rows {platform : Platform} {stores after : Stores}
    {events : List ObservationEvent} (htold : Tells platform stores after events) :
    after.observations.rows.length = stores.observations.rows.length + events.length := by
  simpa using congrArg List.length htold

section

variable {platform : Platform} {env : Env} {first second event : PostToolUse} {file : Text}
  {stores : Stores} {payload other : Text}

theorem copies_tell (events : List ObservationEvent) (stores : Stores) :
    (stores.tell platform env events).copies = stores.copies := by
  induction events generalizing stores with
  | nil => rfl
  | cons event rest ih =>
    refine (ih _).trans ?_
    simp only [Env.emit]
    split <;> rfl

theorem payloads_recordEdit (hruns : skipsRecent platform env stores event file = false) :
    (recordEdit platform env event file stores).payloads =
      ((storeObservation env (observationPayload platform env event file) stores).tell platform env
        (toldEvents platform env stores event file)).payloads := by
  rw [recordEdit_of_runs hruns, toldEvents, Env.reachesEvents]
  cases hopen : env.captureEnabled && env.observationsAvailable with
  | false =>
    simp only [tell_of_silent hopen]
    split
    next => exact payloads_cacheServed _ _
    next => rfl
  | true =>
    cases env.reachesRetrieval with
    | false => rfl
    | true => exact payloads_cacheServed _ _

theorem copies_storeObservation (hkeeps : env.keepsObservation = true) (stores : Stores) :
    (∀ payload, (storeObservation env (some payload) stores).copies =
        ((storeObservation env none stores).copies.1 ++ [(observationKind, payload)],
          (storeObservation env none stores).copies.2)) ∨
      ((env.dbAvailable = true → env.insertOutbox = none) ∧ ∃ error,
        ∀ payload, (storeObservation env (some payload) stores).copies =
          ((storeObservation env none stores).copies.1,
            (storeObservation env none stores).copies.2 ++
              [.record observationKind payload error])) := by
  rw [Env.keepsObservation, Bool.and_eq_true] at hkeeps
  obtain ⟨hcapture, hplace⟩ := hkeeps
  cases hdb : env.dbAvailable with
  | false =>
    have hspill : env.spillName.isSome = true := by simpa [hdb] using hplace
    obtain ⟨name, hname⟩ := Option.isSome_iff_exists.mp hspill
    refine .inr ⟨fun havailable => absurd havailable Bool.false_ne_true,
      some (Cloud.truncate initDbFailed 2048), fun payload => ?_⟩
    simp [storeObservation, hdb, spillWithoutDb, hcapture, spillObservationPayload, hname,
      Stores.addSpill, Stores.copies]
  | true =>
    cases herror : env.outboxError with
    | none =>
      refine .inl fun payload => ?_
      simp [storeObservation, hdb, enqueueObservationAndReplayOutbox, enqueueObservation,
        hcapture, herror, Stores.copies, Stores.enqueue, AutoTable.insert, Cloud.Outbox.newRow]
    | some error =>
      have hspill : env.spillName.isSome = true := by simpa [hdb, herror] using hplace
      obtain ⟨name, hname⟩ := Option.isSome_iff_exists.mp hspill
      refine .inr ⟨fun _ => by simp [Env.insertOutbox, herror],
        some (Cloud.truncate error 2048), fun payload => ?_⟩
      simp [storeObservation, hdb, enqueueObservationAndReplayOutbox, enqueueObservation,
        hcapture, herror, spillObservationPayload, hname, Stores.addSpill, Stores.copies]

theorem copies_storeObservation_inj (hkeeps : env.keepsObservation = true)
    (hcopies : (storeObservation env (some payload) stores).copies =
      (storeObservation env (some other) stores).copies) : payload = other := by
  rcases copies_storeObservation hkeeps stores with hstored | ⟨-, error, hstored⟩
  · rw [hstored, hstored, Prod.mk.injEq, List.append_cancel_left_eq] at hcopies
    simpa using hcopies.1
  · rw [hstored, hstored, Prod.mk.injEq, List.append_cancel_left_eq] at hcopies
    simpa using hcopies.2

theorem copies_replaySpillFiles (files : List SpillFile) (stores : Stores) :
    stores.copies.1.length ≤ (replaySpillFiles env.insertOutbox files stores).copies.1.length := by
  induction files generalizing stores with
  | nil => rfl
  | cons file rest ih =>
    unfold replaySpillFiles
    split
    next => exact ih stores
    next => exact ih (stores.quarantineBadSpill file.name)
    next kind payloadJson _ _ =>
      split
      next => exact ih (stores.quarantineBadSpill file.name)
      next =>
        split
        next => rfl
        next insertRow hinsert =>
          refine le_trans ?_ (ih _)
          rw [Env.insertOutbox] at hinsert
          split at hinsert
          next =>
            rw [← Option.some.inj hinsert]
            simp [Stores.copies, Stores.removeSpill, Stores.enqueue, AutoTable.insert]
          next => cases hinsert

theorem copies_storeObservation_ne (hkeeps : env.keepsObservation = true) :
    (storeObservation env (some payload) stores).copies ≠ stores.copies := by
  intro hcopies
  rcases copies_storeObservation hkeeps stores with hstored | ⟨hinsert, error, hstored⟩
  · have hlength := congrArg (·.1.length) ((hstored payload).symm.trans hcopies)
    have hgrown : stores.copies.1.length ≤ (storeObservation env none stores).copies.1.length := by
      rw [storeObservation]
      split
      next => exact copies_replaySpillFiles _ _
      next => rfl
    simp only [List.length_append, List.length_singleton] at hlength
    omega
  · have hlength := congrArg (·.2.length) ((hstored payload).symm.trans hcopies)
    have hidle : (storeObservation env none stores).copies = stores.copies := by
      rw [storeObservation]
      split
      next hdb =>
        rw [enqueueObservationAndReplayOutbox, hinsert hdb]
        exact (payloads_eq_iff.mp (payloads_replay_none stores)).1
      next => rfl
    rw [hidle] at hlength
    simp at hlength

section

variable (hopen : (env.captureEnabled && env.observationsAvailable) = true)
include hopen

theorem rows_emit
    {event : ObservationEvent} (hroom : stores.observations.rows.length + 1 ≤ maxQueueRows) :
    (env.emit platform event stores).observations.rows = stores.observations.rows ++
      [newRow platform.serde event env.nowMs stores.observations.nextKey] := by
  have hunder : ∀ table : Cloud.Observations.Table, table.rows.length ≤ maxQueueRows →
      capQueue table = table := by
    intro table htable
    have hnone : ¬ 0 < Cloud.Observations.queueOverflow table := by
      rw [Cloud.Observations.queueOverflow]
      omega
    simp only [capQueue, trimOverflow, if_neg hnone]
  rw [Env.emit, if_pos hopen, Stores.emit, hunder]
  · rfl
  · exact (List.length_append ..).trans_le hroom

theorem tells_emit (hroom : stores.observations.rows.length + 1 ≤ maxQueueRows) {before : Stores}
    (hbefore : before.observations = stores.observations) (event : ObservationEvent) :
    Tells platform stores (env.emit platform event before) [event] := by
  rw [Tells, rows_emit hopen (hbefore ▸ hroom), hbefore]
  simp [newRow]

theorem tells_tell {events : List ObservationEvent}
    (hroom : stores.observations.rows.length + events.length ≤ maxQueueRows) :
    Tells platform stores (stores.tell platform env events) events := by
  induction events generalizing stores with
  | nil => exact (List.append_nil _).symm
  | cons event rest ih =>
    rw [List.length_cons] at hroom
    have hfirst : Tells platform stores (env.emit platform event stores) [event] :=
      tells_emit hopen (by omega) rfl event
    exact hfirst.trans (ih (by rw [hfirst.length_rows, List.length_singleton]; omega))

end

end

/-! ## Two edits -/

/-- The encoders, and the digest on the two recall queries, tell apart what is written. -/
structure TellsApart (platform : Platform) (env : Env) (intent other : Text) : Prop where
  events : Function.Injective platform.serde.encode
  observations : Function.Injective platform.encodeObservation
  queries : platform.sha256 (recallQuery platform env.recallFile intent) =
    platform.sha256 (recallQuery platform env.recallFile other) → intent = other

section

variable {platform : Platform} {env : Env} {first second event : PostToolUse} {file : Text}
  {stores : Stores}

theorem AgreeUpTo.intent_eq
    (hagree : AgreeUpTo intentMaxChars (intentText first) (intentText second)) :
    postEditRetrievalIntent first.diff first.newText =
      postEditRetrievalIntent second.diff second.newText := by
  rw [AgreeUpTo, intentText, intentText] at hagree
  unfold postEditRetrievalIntent
  cases hleft : (nonBlank first.diff).or (nonBlank first.newText) <;>
    cases hright : (nonBlank second.diff).or (nonBlank second.newText) <;>
      simp_all [truncate_eq_take]

theorem AlikeEvents.agreeUpTo_intent (halike : AlikeEvents first second)
    (hintent : postEditRetrievalIntent first.diff first.newText =
      postEditRetrievalIntent second.diff second.newText) :
    AgreeUpTo intentMaxChars (intentText first) (intentText second) := by
  have hsignal : AlikeOptions (intentText first) (intentText second) :=
    halike.diff.nonBlank.or halike.newText.nonBlank
  unfold postEditRetrievalIntent at hintent
  unfold intentText at hsignal ⊢
  generalize (nonBlank first.diff).or (nonBlank first.newText) = left at hintent hsignal ⊢
  generalize (nonBlank second.diff).or (nonBlank second.newText) = right at hintent hsignal ⊢
  cases hsignal with
  | none => rfl
  | some =>
    have hcut := List.append_cancel_left hintent
    rw [truncate_eq_take, truncate_eq_take] at hcut
    exact congrArg some hcut

theorem recordEdit_of_skips (hskips : skipsRecent platform env stores event file = true) :
    recordEdit platform env event file stores = stores := by
  rw [skipsRecent] at hskips
  rw [recordEdit, recordSignals, if_pos hskips]

theorem toldEvents_eq_nil_iff : toldEvents platform env stores event file = [] ↔
    (env.reachesEvents → strongestRecentRuleId platform env (event.sessionId.getD []) file stores =
        none) ∧ (env.reachesEvents → env.retrieval.isServed = false) := by
  rw [toldEvents]
  cases env.reachesEvents with
  | false => simp
  | true =>
    rw [if_pos rfl, editEvents, List.append_eq_nil_iff, citedEvents, servedEvents]
    cases env.retrieval <;> simp [Retrieval.isServed]

theorem length_toldEvents (platform : Platform) (env : Env) (stores : Stores)
    (event : PostToolUse) (file : Text) :
    (toldEvents platform env stores event file).length ≤ 3 := by
  have hcited : ∀ excerpt,
      (citedEvents platform env (event.sessionId.getD []) file excerpt stores).length ≤ 1 := by
    intro excerpt
    rw [citedEvents]
    cases strongestRecentRuleId platform env (event.sessionId.getD []) file stores <;> simp
  have hserved : ∀ intent, (servedEvents platform env event.sessionId intent).length ≤ 2 := by
    intro intent
    rw [servedEvents]
    split
    next => split <;> simp
    next => exact Nat.zero_le _
  rw [toldEvents]
  split
  next =>
    rw [editEvents, List.length_append]
    exact Nat.add_le_add (hcited _) (hserved _)
  next => exact Nat.zero_le _

theorem RoutesAgree.toldEvents_eq (halike : AlikeEvents first second)
    (hagree : RoutesAgree platform env stores first second file) :
    toldEvents platform env stores first file = toldEvents platform env stores second file := by
  rw [toldEvents, toldEvents]
  split
  next hreaches =>
    rw [editEvents, editEvents, ← halike.sessionId]
    congr 1
    · rw [citedEvents, citedEvents]
      cases hrule : strongestRecentRuleId platform env (first.sessionId.getD []) file stores with
      | none => rfl
      | some ruleId =>
        have hexcerpt := hagree.cited hreaches (by rw [hrule]; rfl)
        rw [Option.map_some, Option.map_some, hexcerpt.truncate_eq]
    · rw [servedEvents, servedEvents]
      cases hretrieval : env.retrieval with
      | served => rw [(hagree.retrieval hreaches (by rw [hretrieval]; rfl)).intent_eq]
      | _ => rfl
  next => rfl

theorem RoutesAgree.of_toldEvents_eq (halike : AlikeEvents first second)
    (happart : TellsApart platform env (postEditRetrievalIntent first.diff first.newText)
      (postEditRetrievalIntent second.diff second.newText))
    (hevents : toldEvents platform env stores first file =
      toldEvents platform env stores second file)
    (hobservation : env.keepsObservation → Reported first file → SameTests first second) :
    RoutesAgree platform env stores first second file := by
  have hparts (hreaches : env.reachesEvents) := by
    rw [toldEvents, toldEvents, if_pos hreaches, if_pos hreaches, editEvents, editEvents,
      ← halike.sessionId] at hevents
    refine List.append_inj hevents ?_
    rw [citedEvents, citedEvents]
    cases strongestRecentRuleId platform env (first.sessionId.getD []) file stores <;> rfl
  refine ⟨hobservation, fun hreaches hrule => ?_, fun hreaches hserved => ?_⟩
  · obtain ⟨ruleId, hrule⟩ := Option.isSome_iff_exists.mp hrule
    have hcited := (hparts hreaches).1
    rw [citedEvents, citedEvents, hrule] at hcited
    simp only [Option.map_some, Option.toList_some, List.cons.injEq, and_true,
      ObservationEvent.ruleCitedInEdit.injEq, true_and] at hcited
    exact (halike.diff.or halike.newText).agreeUpTo hcited
  · have hsame := (hparts hreaches).2
    rw [servedEvents, servedEvents] at hsame
    cases hretrieval : env.retrieval with
    | served =>
      rw [hretrieval] at hsame
      have hquery := (List.cons.inj hsame).1
      simp only [servedEvent, ObservationEvent.mcpRuleServed.injEq, and_true, true_and] at hquery
      exact halike.agreeUpTo_intent (happart.queries hquery)
    | _ =>
      rw [hretrieval] at hserved
      cases hserved

theorem WritesNothing.congr (hidle : WritesNothing platform env stores first file)
    (hsession : first.sessionId = second.sessionId)
    (hreported : Reported second file → Reported first file) :
    WritesNothing platform env stores second file where
  replay := hidle.replay
  observation := fun hkeeps => mt hreported (hidle.observation hkeeps)
  cited := hsession ▸ hidle.cited
  retrieval := hidle.retrieval

theorem WritesNothing.payloads_recordEdit (hidle : WritesNothing platform env stores event file)
    (hruns : skipsRecent platform env stores event file = false) :
    (recordEdit platform env event file stores).payloads = stores.payloads := by
  rw [Hook.payloads_recordEdit hruns, toldEvents_eq_nil_iff.mpr ⟨hidle.cited, hidle.retrieval⟩,
    storeObservation_of_lost fun hkeeps =>
      observationPayload_of_unreported (hidle.observation hkeeps)]
  simp only [Stores.tell, List.foldl_nil, storeObservation]
  split
  next hdb => exact hidle.replay hdb
  next => rfl

theorem tells_toldEvents (hroom : stores.observations.rows.length + 3 ≤ maxQueueRows)
    (payload : Option Text) :
    Tells platform stores ((storeObservation env payload stores).tell platform env
      (toldEvents platform env stores event file)) (toldEvents platform env stores event file) := by
  have hlength := length_toldEvents platform env stores event file
  have hstored := @observations_storeObservation env payload stores
  rw [← hstored] at hroom
  rw [Tells, ← hstored]
  cases hopen : env.captureEnabled && env.observationsAvailable with
  | true => exact tells_tell hopen (by omega)
  | false =>
    rw [toldEvents, Env.reachesEvents, hopen, Bool.false_and, if_neg Bool.false_ne_true]
    exact (List.append_nil _).symm

theorem WritesNothing.of_payloads_eq (hedit : isEditTool event.toolName)
    (hroom : stores.observations.rows.length + 3 ≤ maxQueueRows)
    (hruns : skipsRecent platform env stores event file = false)
    (hpayloads : (recordEdit platform env event file stores).payloads = stores.payloads) :
    WritesNothing platform env stores event file := by
  rw [Hook.payloads_recordEdit hruns, payloads_eq_iff, copies_tell, tells_toldEvents hroom,
    List.append_right_eq_self, List.map_eq_nil_iff, toldEvents_eq_nil_iff] at hpayloads
  obtain ⟨hcopies, hcited, hserved⟩ := hpayloads
  have hlost : env.keepsObservation = true → ¬ Reported event file := by
    intro hkeeps hreported
    rw [observationPayload_of_reported hedit hreported] at hcopies
    exact copies_storeObservation_ne hkeeps hcopies
  rw [storeObservation_of_lost fun hkeeps =>
    observationPayload_of_unreported (hlost hkeeps)] at hcopies
  refine ⟨fun hdb => ?_, hlost, hcited, hserved⟩
  rw [storeObservation, if_pos hdb] at hcopies
  exact payloads_eq_iff.mpr ⟨hcopies, by rw [Stores.replay, observations_replaySpillFiles]⟩

theorem payloads_recordEdit_eq (halike : AlikeEvents first second)
    (hedit : isEditTool first.toolName)
    (hagree : EditsAgree platform env stores first second file) :
    (recordEdit platform env first file stores).payloads =
      (recordEdit platform env second file stores).payloads := by
  unfold EditsAgree at hagree
  cases hfirst : skipsRecent platform env stores first file <;>
    cases hsecond : skipsRecent platform env stores second file <;> rw [hfirst, hsecond] at hagree
  · have hstored : storeObservation env (observationPayload platform env first file) stores =
        storeObservation env (observationPayload platform env second file) stores := by
      cases hkeeps : env.keepsObservation with
      | true => rw [observationPayload_eq halike hedit (hagree.observation hkeeps)]
      | false =>
        have hlost (payload : Option Text) : env.keepsObservation = true → payload = none :=
          fun hkept => absurd (hkeeps ▸ hkept) Bool.false_ne_true
        have hone := storeObservation_of_lost (hlost (observationPayload platform env first file))
        have htwo := storeObservation_of_lost
          (hlost (observationPayload platform env second file))
        rw [hone, htwo]
    rw [payloads_recordEdit hfirst, payloads_recordEdit hsecond, hagree.toldEvents_eq halike,
      hstored]
  · rw [recordEdit_of_skips hsecond]
    exact hagree.payloads_recordEdit hfirst
  · rw [recordEdit_of_skips hfirst]
    exact ((hagree.congr halike.sessionId halike.reported_iff.mpr).payloads_recordEdit hsecond).symm
  · rw [recordEdit_of_skips hfirst, recordEdit_of_skips hsecond]

theorem editsAgree_of_payloads_eq (halike : AlikeEvents first second)
    (hedit : isEditTool first.toolName)
    (happart : TellsApart platform env (postEditRetrievalIntent first.diff first.newText)
      (postEditRetrievalIntent second.diff second.newText))
    (hroom : stores.observations.rows.length + 3 ≤ maxQueueRows)
    (hpayloads : (recordEdit platform env first file stores).payloads =
      (recordEdit platform env second file stores).payloads) :
    EditsAgree platform env stores first second file := by
  unfold EditsAgree
  cases hfirst : skipsRecent platform env stores first file <;>
    cases hsecond : skipsRecent platform env stores second file
  · rw [payloads_recordEdit hfirst, payloads_recordEdit hsecond, payloads_eq_iff, copies_tell,
      copies_tell, tells_toldEvents hroom, tells_toldEvents hroom, List.append_cancel_left_eq]
      at hpayloads
    obtain ⟨hcopies, hrows⟩ := hpayloads
    refine .of_toldEvents_eq halike happart (List.map_injective_iff.mpr happart.events hrows) ?_
    intro hkeeps hreported
    apply sameTests_of_observationPayload_eq env halike hedit happart.observations hreported
    rw [observationPayload_of_reported hedit hreported, observationPayload_of_reported
      (halike.toolName ▸ hedit) (halike.reported_iff.mp hreported)] at hcopies ⊢
    exact congrArg some (copies_storeObservation_inj hkeeps hcopies)
  · rw [recordEdit_of_skips hsecond] at hpayloads
    exact .of_payloads_eq hedit hroom hfirst hpayloads
  · rw [recordEdit_of_skips hfirst] at hpayloads
    exact (WritesNothing.of_payloads_eq (halike.toolName ▸ hedit) hroom hsecond
      hpayloads.symm).congr halike.sessionId.symm halike.reported_iff.mp
  · trivial

end

/-! ## Two closing messages -/

/-- While the queue is not over its cap, an upload leaves the payloads alone. -/
def KeepsPayloads (flush : Cloud.Observations.Table → Cloud.Observations.Table) : Prop :=
  ∀ table, table.rows.length ≤ maxQueueRows →
    (flush table).rows.map (·.payloadJson) = table.rows.map (·.payloadJson)

def citationEvents (env : Env) (sessionId : Text) (filePath : Option Text) (excerpt : Text)
    (ruleIds : List Text) : List ObservationEvent :=
  ruleIds.map fun ruleId => .ruleActuallyCited ruleId sessionId filePath excerpt env.nowMs

def stopCitations (platform : Platform) (env : Env) (stores : Stores) (sessionId : Text)
    (message : Option Text) : List ObservationEvent :=
  citationEvents env sessionId ((latestRuleFireForSession platform sessionId stores).bind Prod.snd)
    (Cloud.truncate (message.getD []) excerptMaxChars)
    (citedAnew platform env stores sessionId message)

def isCitation : ObservationEvent → Bool
  | .ruleActuallyCited .. => true
  | _ => false

section

variable {platform : Platform} {env : Env} {sessionId excerpt : Text} {filePath : Option Text}
  {message other : Option Text} {ruleIds : List Text} {stores : Stores}

theorem maybeEmitRuleActualCitations_of_ids (sessionId : Text) (message : Option Text)
    (stores : Stores) :
    maybeEmitRuleActualCitations platform env sessionId message stores =
      if env.observationsAvailable then
        emitCitations platform env sessionId
          ((latestRuleFireForSession platform sessionId stores).bind Prod.snd)
          (Cloud.truncate (message.getD []) excerptMaxChars)
          (citedIds platform env stores sessionId message) stores
      else stores := by
  unfold maybeEmitRuleActualCitations citedIds
  cases htext : (nonBlank message).filter citesAnything with
  | none => simp [emitCitations]
  | some text =>
    have hmessage : message = some text :=
      (Option.filter_eq_some_iff.mp (Option.filter_eq_some_iff.mp htext).1).1
    cases env.observationsAvailable with
    | false => rfl
    | true =>
      cases latestRuleFireForSession platform sessionId stores with
      | none => simp [emitCitations]
      | some fire => simp [hmessage]

theorem nodup_citedIds : (citedIds platform env stores sessionId message).Nodup := by
  unfold citedIds
  split
  next => exact (List.perm_insertionSort _ _).nodup_iff.mpr (List.nodup_dedup _)
  next => exact .nil

theorem eq_of_citationEvents_eq {quoted : Text} {cited : List Text}
    (hsame : citationEvents env sessionId filePath excerpt ruleIds =
      citationEvents env sessionId filePath quoted cited) :
    ruleIds = cited ∧ (ruleIds ≠ [] → excerpt = quoted) := by
  have hids : ruleIds.map some = cited.map some := by
    have hmap := congrArg (List.map ObservationEvent.ruleId) hsame
    rwa [citationEvents, citationEvents, List.map_map, List.map_map] at hmap
  obtain rfl := List.map_injective_iff.mpr (Option.some_injective _) hids
  refine ⟨rfl, fun hne => ?_⟩
  obtain ⟨ruleId, rest, rfl⟩ := List.exists_cons_of_ne_nil hne
  exact (ObservationEvent.ruleActuallyCited.inj (List.cons.inj hsame).1).2.2.2.1

theorem length_citationEvents :
    (citationEvents env sessionId filePath excerpt ruleIds).length = ruleIds.length :=
  List.length_map _

theorem citeRule_new {ruleId : Text}
    (hnew : hasRuleActualCitation sessionId ruleId stores = false) (found : Bool) :
    citeRule platform env sessionId filePath excerpt (stores, found) ruleId =
      (env.emit platform (.ruleActuallyCited ruleId sessionId filePath excerpt env.nowMs) stores,
        true) := by
  rw [citeRule, hnew, if_neg Bool.false_ne_true]

section

variable (hopen : (env.captureEnabled && env.observationsAvailable) = true)
include hopen

theorem hasRuleActualCitation_emit
    (hroom : stores.observations.rows.length + 1 ≤ maxQueueRows) {ruleId cited : Text}
    (hne : cited ≠ ruleId) :
    hasRuleActualCitation sessionId cited (env.emit platform
        (.ruleActuallyCited ruleId sessionId filePath excerpt env.nowMs) stores) =
      hasRuleActualCitation sessionId cited stores := by
  rw [hasRuleActualCitation, hasRuleActualCitation, hasRowFor, hasRowFor, rows_emit hopen hroom,
    List.any_append]
  simp [newRow, ObservationEvent.ruleId, Ne.symm hne]

theorem foldl_citeRule (hnodup : ruleIds.Nodup)
    (hroom : stores.observations.rows.length + (unrecorded sessionId ruleIds stores).length ≤
      maxQueueRows) (found : Bool) :
    ruleIds.foldl (citeRule platform env sessionId filePath excerpt) (stores, found) =
      (stores.tell platform env
        (citationEvents env sessionId filePath excerpt (unrecorded sessionId ruleIds stores)),
        found || !(unrecorded sessionId ruleIds stores).isEmpty) := by
  induction ruleIds generalizing stores found with
  | nil => simp [citationEvents, Stores.tell, unrecorded]
  | cons ruleId rest ih =>
    obtain ⟨hnew, hrest⟩ := List.nodup_cons.mp hnodup
    rw [List.foldl_cons]
    cases hrecorded : hasRuleActualCitation sessionId ruleId stores with
    | true =>
      rw [unrecorded, List.filter_cons_of_neg (by simp [hrecorded]), ← unrecorded] at hroom ⊢
      rw [citeRule, hrecorded, if_pos rfl]
      exact ih hrest hroom found
    | false =>
      rw [unrecorded, List.filter_cons_of_pos (by simp [hrecorded]), ← unrecorded] at hroom ⊢
      rw [List.length_cons] at hroom
      have hsame : unrecorded sessionId rest (env.emit platform
          (.ruleActuallyCited ruleId sessionId filePath excerpt env.nowMs) stores) =
            unrecorded sessionId rest stores := by
        refine List.filter_congr fun cited hcited => ?_
        have hne : cited ≠ ruleId := by
          rintro rfl
          exact hnew hcited
        exact congrArg (!·) (hasRuleActualCitation_emit hopen (by omega) hne)
      rw [citeRule_new hrecorded, ih hrest, hsame]
      · simp [Stores.tell, citationEvents]
      · rw [hsame, rows_emit hopen (by omega), List.length_append, List.length_singleton]
        omega

theorem emitCitations_of_room (hnodup : ruleIds.Nodup)
    (hroom : stores.observations.rows.length + (unrecorded sessionId ruleIds stores).length ≤
      maxQueueRows) :
    emitCitations platform env sessionId filePath excerpt ruleIds stores =
      if unrecorded sessionId ruleIds stores = [] then stores
      else
        let told := stores.tell platform env
          (citationEvents env sessionId filePath excerpt (unrecorded sessionId ruleIds stores))
        { told with observations := env.flush told.observations } := by
  rw [emitCitations, foldl_citeRule hopen hnodup hroom]
  cases unrecorded sessionId ruleIds stores <;> rfl

end

theorem emitCitations_of_cited (hcited : unrecorded sessionId ruleIds stores = []) :
    emitCitations platform env sessionId filePath excerpt ruleIds stores = stores := by
  have hfold : ruleIds.foldl (citeRule platform env sessionId filePath excerpt) (stores, false) =
      (stores, false) := by
    induction ruleIds with
    | nil => rfl
    | cons ruleId rest ih =>
      have hall := List.filter_eq_nil_iff.mp hcited
      have hrecorded : hasRuleActualCitation sessionId ruleId stores = true := by
        simpa using hall ruleId (.head _)
      rw [List.foldl_cons, citeRule, if_pos hrecorded]
      exact ih (List.filter_eq_nil_iff.mpr fun other hother => hall other (.tail _ hother))
  rw [emitCitations, hfold, if_neg Bool.false_ne_true]

theorem maybeEmitRuleActualCitations_eq_of_agree (hcapture : env.captureEnabled = true)
    (hagree : env.observationsAvailable →
      MessagesAgree platform env stores sessionId message other) :
    maybeEmitRuleActualCitations platform env sessionId message stores =
      maybeEmitRuleActualCitations platform env sessionId other stores := by
  rw [maybeEmitRuleActualCitations_of_ids, maybeEmitRuleActualCitations_of_ids]
  split
  next havailable =>
    have hopen : (env.captureEnabled && env.observationsAvailable) = true := by
      rw [hcapture, havailable]
      rfl
    obtain ⟨hnew, htold⟩ := hagree havailable
    simp only [citedAnew] at hnew htold
    by_cases hnone :
        unrecorded sessionId (citedIds platform env stores sessionId message) stores = []
    · rw [emitCitations_of_cited hnone, emitCitations_of_cited (hnew ▸ hnone)]
    · obtain ⟨hexcerpt, hids | hroom⟩ := htold hnone
      · rw [hids, hexcerpt.truncate_eq]
      · rw [emitCitations_of_room hopen nodup_citedIds hroom,
          emitCitations_of_room hopen nodup_citedIds (hnew ▸ hroom), hnew, hexcerpt.truncate_eq]
  next => rfl

theorem exists_tells_fixOutcomeStep (platform : Platform)
    (hopen : (env.captureEnabled && env.observationsAvailable) = true) (sessionId : Text)
    (stores : Stores) (rules : List (Text × List Text))
    (hroom : stores.observations.rows.length + rules.length ≤ maxQueueRows) :
    ∃ events : List ObservationEvent, events.length ≤ rules.length ∧
      (∀ event ∈ events, isCitation event = false) ∧
        Tells platform stores (rules.foldl (fixOutcomeStep platform env sessionId) stores)
          events := by
  induction rules generalizing stores with
  | nil => exact ⟨[], le_refl _, nofun, (List.append_nil _).symm⟩
  | cons rule rest ih =>
    rw [List.length_cons] at hroom
    obtain ⟨one, hone, honly, hfirst⟩ : ∃ events : List ObservationEvent, events.length ≤ 1 ∧
        (∀ event ∈ events, isCitation event = false) ∧
          Tells platform stores (fixOutcomeStep platform env sessionId stores rule) events := by
      rw [fixOutcomeStep]
      split
      next => exact ⟨[], Nat.zero_le _, nofun, (List.append_nil _).symm⟩
      next =>
        have hproved (accepted : Bool) (filePath : Option Text) : (if accepted then
            maybeEnqueueAgentAcceptedEditProof platform env rule.1 filePath stores
            else stores).observations = stores.observations := by
          rw [maybeEnqueueAgentAcceptedEditProof]
          split
          next =>
            split
            next => rfl
            next => split <;> rfl
          next => rfl
        exact ⟨_, le_refl 1, fun event hevent => by rw [List.mem_singleton.mp hevent]; rfl,
          tells_emit hopen (by omega) (hproved _ _) _⟩
    obtain ⟨events, hlength, hothers, hrest⟩ :=
      ih _ (by rw [hfirst.length_rows]; omega)
    refine ⟨one ++ events, ?_, fun event hevent => ?_, hfirst.trans hrest⟩
    · rw [List.length_append, List.length_cons]
      omega
    · exact (List.mem_append.mp hevent).elim (honly event) (hothers event)

theorem exists_tells_maybeEmitFixOutcomes
    (hopen : (env.captureEnabled && env.observationsAvailable) = true)
    (hkeeps : KeepsPayloads env.flush) (sessionId : Text) (stores : Stores)
    (hroom : 2 * stores.observations.rows.length ≤ maxQueueRows) :
    ∃ events : List ObservationEvent, (∀ event ∈ events, isCitation event = false) ∧
      Tells platform stores (maybeEmitFixOutcomes platform env sessionId stores) events := by
  rw [maybeEmitFixOutcomes]
  split
  next => exact ⟨[], nofun, (List.append_nil _).symm⟩
  next =>
    split
    next => exact ⟨[], nofun, (List.append_nil _).symm⟩
    next =>
      have hedits : (citedEditsForSession sessionId stores).length ≤
          stores.observations.rows.length :=
        (List.subperm_of_subset (nodup_distinct _) fun _ => mem_distinct.mp).length_le.trans
          (List.length_filterMap_le _ _)
      have hrules : (citedRules sessionId stores).length ≤
          (citedEditsForSession sessionId stores).length :=
        (length_foldl_insertGroup_le _ []).trans (Nat.zero_add _).le
      obtain ⟨events, hlength, hothers, htold⟩ :=
        exists_tells_fixOutcomeStep platform hopen sessionId stores
          (citedRules sessionId stores) (by omega)
      have hcount := htold.length_rows
      exact ⟨events, hothers, (hkeeps _ (by omega)).trans htold⟩

theorem exists_tells_stop (hopen : (env.captureEnabled && env.observationsAvailable) = true)
    (hkeeps : KeepsPayloads env.flush) (hroom : 2 * (stores.observations.rows.length +
      (citedAnew platform env stores sessionId message).length) ≤ maxQueueRows) :
    ∃ events : List ObservationEvent, (∀ event ∈ events, isCitation event = false) ∧
      Tells platform stores (maybeEmitFixOutcomes platform env sessionId
        (maybeEmitRuleActualCitations platform env sessionId message stores))
        (stopCitations platform env stores sessionId message ++ events) := by
  have hcited : Tells platform stores
      (maybeEmitRuleActualCitations platform env sessionId message stores)
      (stopCitations platform env stores sessionId message) := by
    have havailable : env.observationsAvailable = true := (Bool.and_eq_true_iff.mp hopen).2
    rw [maybeEmitRuleActualCitations_of_ids, if_pos havailable,
      emitCitations_of_room hopen nodup_citedIds (by rw [← citedAnew]; omega), ← citedAnew,
      ← stopCitations]
    split
    next hnone =>
      rw [stopCitations, hnone]
      exact (List.append_nil _).symm
    next =>
      have hlength : (stopCitations platform env stores sessionId message).length =
          (citedAnew platform env stores sessionId message).length := length_citationEvents
      have htold : Tells platform stores (stores.tell platform env
          (stopCitations platform env stores sessionId message))
            (stopCitations platform env stores sessionId message) := tells_tell hopen (by omega)
      have hcount := htold.length_rows
      exact (hkeeps _ (by omega)).trans htold
  have hcount := hcited.length_rows
  rw [stopCitations, length_citationEvents] at hcount
  obtain ⟨events, hothers, hrows⟩ := exists_tells_maybeEmitFixOutcomes hopen hkeeps sessionId
    (maybeEmitRuleActualCitations platform env sessionId message stores) (by omega)
  exact ⟨events, hothers, hcited.trans hrows⟩

theorem filter_stopCitations {events : List ObservationEvent}
    (hothers : ∀ event ∈ events, isCitation event = false) :
    (stopCitations platform env stores sessionId message ++ events).filter isCitation =
      stopCitations platform env stores sessionId message := by
  have hnone : events.filter isCitation = [] :=
    List.filter_eq_nil_iff.mpr fun event hevent => by simp [hothers event hevent]
  rw [List.filter_append, hnone, List.append_nil, List.filter_eq_self]
  intro event hevent
  obtain ⟨ruleId, _, rfl⟩ := List.mem_map.mp hevent
  rfl

theorem messagesAgree_of_payloads_eq (hencode : Function.Injective platform.serde.encode)
    (hopen : (env.captureEnabled && env.observationsAvailable) = true)
    (hkeeps : KeepsPayloads env.flush) (halike : AlikeOptions message other)
    (hfirst : 2 * (stores.observations.rows.length +
      (citedAnew platform env stores sessionId message).length) ≤ maxQueueRows)
    (hsecond : 2 * (stores.observations.rows.length +
      (citedAnew platform env stores sessionId other).length) ≤ maxQueueRows) (hpayloads :
      (maybeEmitFixOutcomes platform env sessionId (maybeEmitRuleActualCitations platform env
        sessionId message stores)).payloads =
      (maybeEmitFixOutcomes platform env sessionId (maybeEmitRuleActualCitations platform env
        sessionId other stores)).payloads) :
    MessagesAgree platform env stores sessionId message other := by
  obtain ⟨events, hevents, hrows⟩ := exists_tells_stop hopen hkeeps hfirst
  obtain ⟨others, hothers, hlast⟩ := exists_tells_stop hopen hkeeps hsecond
  have hsame := (payloads_eq_iff.mp hpayloads).2
  rw [hrows, hlast, List.append_cancel_left_eq] at hsame
  have hlists := List.map_injective_iff.mpr hencode hsame
  have hcitations := congrArg (List.filter isCitation) hlists
  rw [filter_stopCitations hevents, filter_stopCitations hothers] at hcitations
  obtain ⟨hids, hexcerpt⟩ := eq_of_citationEvents_eq hcitations
  exact ⟨hids, fun hne => ⟨halike.agreeUpTo (hexcerpt hne), .inr (by omega)⟩⟩

end

inductive TurnEvent where
  | postEdit (event : PostToolUse)
  | stop (sessionId message : Option Text)

def TurnEvent.Alike : TurnEvent → TurnEvent → Prop
  | .postEdit first, .postEdit second => AlikeEvents first second
  | .stop sessionId message, .stop otherSessionId otherMessage =>
    sessionId = otherSessionId ∧ AlikeOptions message otherMessage
  | _, _ => False

def turnStep (platform : Platform) (env : Env) (stores : Stores) : TurnEvent → Stores
  | .postEdit event => handlePostToolUse platform env event stores
  | .stop sessionId message => handleStop platform env sessionId message stores

def TurnEvent.intent : TurnEvent → Text
  | .postEdit event => postEditRetrievalIntent event.diff event.newText
  | .stop .. => []

def HasRoom (platform : Platform) (env : Env) (stores : Stores) : TurnEvent → Prop
  | .postEdit _ => stores.observations.rows.length + 3 ≤ maxQueueRows
  | .stop sessionId message =>
    2 * (stores.observations.rows.length +
      (citedAnew platform env stores (sessionId.getD []) message).length) ≤
        maxQueueRows

def TurnsAgree (platform : Platform) (env : Env) (stores : Stores) : TurnEvent → TurnEvent → Prop
  | .postEdit first, .postEdit second =>
    isEditTool first.toolName →
      ∀ file ∈ (orderedTargetFiles first.filePath first.targetFiles).head?,
        EditsAgree platform env stores first second file
  | .stop sessionId first, .stop _ second =>
    env.captureEnabled → env.observationsAvailable →
      MessagesAgree platform env stores (sessionId.getD []) first second
  | _, _ => True

/-- What regions hold reaches no queue exactly where the texts agree as far as they are used. -/
theorem payloads_turnStep_eq (platform : Platform) (env : Env) (stores : Stores)
    {first second : TurnEvent} (halike : first.Alike second) :
    (TurnsAgree platform env stores first second →
      (turnStep platform env stores first).payloads =
        (turnStep platform env stores second).payloads) ∧
    (TellsApart platform env first.intent second.intent → KeepsPayloads env.flush →
      HasRoom platform env stores first → HasRoom platform env stores second →
      (turnStep platform env stores first).payloads =
        (turnStep platform env stores second).payloads →
      TurnsAgree platform env stores first second) := by
  cases first with
  | postEdit event =>
    cases second with
    | stop => cases halike
    | postEdit other =>
      have hevents : AlikeEvents event other := halike
      simp only [turnStep, handlePostToolUse, TurnsAgree]
      rw [← hevents.toolName, ← hevents.filePath, ← hevents.targetFiles]
      by_cases hedit : isEditTool event.toolName
      · rw [if_neg (not_not.mpr hedit), if_neg (not_not.mpr hedit)]
        cases hfile : (orderedTargetFiles event.filePath event.targetFiles).head? with
        | none =>
          exact ⟨fun _ => rfl, fun _ _ _ _ _ _ file hfile => absurd hfile (Option.not_mem_none file)⟩
        | some file =>
          simp only [Option.mem_some_iff, forall_eq', hedit, forall_const]
          refine ⟨payloads_recordEdit_eq hevents hedit, fun happart _ hroom _ => ?_⟩
          exact editsAgree_of_payloads_eq hevents hedit happart hroom
      · rw [if_pos hedit, if_pos hedit]
        exact ⟨fun _ => rfl, fun _ _ _ _ _ hother => absurd hother hedit⟩
  | stop sessionId message =>
    cases second with
    | postEdit => cases halike
    | stop otherSessionId other =>
      obtain ⟨rfl, hmessage⟩ := halike
      simp only [turnStep, handleStop, TurnsAgree]
      cases hcapture : env.captureEnabled with
      | false => exact ⟨fun _ => rfl, fun _ _ _ _ _ htrue => absurd htrue Bool.false_ne_true⟩
      | true =>
        simp only [if_true, forall_const]
        refine ⟨fun hagree => ?_, fun happart hkeeps hfirst hsecond hpayloads havailable => ?_⟩
        · rw [maybeEmitRuleActualCitations_eq_of_agree hcapture hagree]
        · exact messagesAgree_of_payloads_eq happart.events (by simp [hcapture, havailable]) hkeeps
            hmessage hfirst hsecond hpayloads

def shortRegion (before : Text) (hbefore : '<' ∉ toAsciiLowercase before) (content : Text)
    (hcontent : '<' ∉ toAsciiLowercase content) : Segment where
  before := before
  kind := .priv
  opening := "<private>"
  content := content
  closing := "</private>"
  before_public := free_of_left_not_mem hbefore
  opening_eq := by decide
  closing_eq := by decide
  content_closed := fun hclosing => hcontent (hclosing.subset (.head _))

theorem alikeTexts_shortRegion {before tail content other : Text}
    (hbefore : '<' ∉ toAsciiLowercase before) (htail : '<' ∉ toAsciiLowercase tail)
    (hcontent : '<' ∉ toAsciiLowercase content) (hother : '<' ∉ toAsciiLowercase other) (hlines :
      (Text.lines (renderSegments [shortRegion before hbefore content hcontent] tail)).length =
      (Text.lines (renderSegments [shortRegion before hbefore other hother] tail)).length) :
    AlikeTexts (renderSegments [shortRegion before hbefore content hcontent] tail)
      (renderSegments [shortRegion before hbefore other hother] tail) :=
  ⟨.inr ⟨[shortRegion before hbefore content hcontent], [shortRegion before hbefore other hother],
    tail, free_of_left_not_mem htail, .cons ⟨rfl, rfl, rfl, rfl⟩ .nil, rfl, rfl⟩, hlines⟩

theorem alikeTexts_ab : AlikeTexts "<private>a</private>" "<private>b</private>" :=
  @alikeTexts_shortRegion [] [] ['a'] ['b'] (by decide) (by decide) (by decide) (by decide)
    (by decide)

def regionEdit (content : Text) : TurnEvent :=
  .postEdit (envEdit [] ("<private>" ++ (content ++ "</private>"))).event

theorem alike_regionEdit : (regionEdit "a").Alike (regionEdit "b") where
  toolName := rfl
  filePath := rfl
  targetFiles := rfl
  sessionId := rfl
  diff := .some (@alikeTexts_shortRegion ['+'] ['\n'] ['a'] ['b'] (by decide) (by decide)
    (by decide) (by decide) (by decide))
  newText := .some alikeTexts_ab
  oldText := .some ⟨.inl rfl, rfl⟩

/-- The cited-edit event quotes the region. -/
theorem region_is_quoted : ¬ ∀ (platform : Platform) (env : Env) (stores : Stores)
    (first second : TurnEvent), first.Alike second →
      (turnStep platform env stores first).payloads =
        (turnStep platform env stores second).payloads := by
  intro hclaim
  exact absurd (hclaim citedPlatform quietEnv citedStores _ _ alike_regionEdit)
    (by decide)

/-- A rule was served, and the diff, which is quoted, has no region. -/
def plainDiffEdit (newText : Text) : TurnEvent :=
  .postEdit ⟨"Write", some "a.rs".toList, [], some "+x".toList, some "s".toList, some newText, none⟩

theorem alike_plainDiffEdit :
    (plainDiffEdit "<private>a</private>").Alike (plainDiffEdit "<private>b</private>") where
  toolName := rfl
  filePath := rfl
  targetFiles := rfl
  sessionId := rfl
  diff := .some ⟨.inl rfl, rfl⟩
  newText := .some alikeTexts_ab
  oldText := .none

theorem skipsRecent_citedStores (event : PostToolUse) (file : Text) :
    skipsRecent citedPlatform quietEnv citedStores event file = false := by
  rw [skipsRecent]
  exact shouldSkipRecent_of_liveEntry rfl _

theorem turnsAgree_plainDiffEdit : TurnsAgree citedPlatform quietEnv citedStores
    (plainDiffEdit "<private>a</private>") (plainDiffEdit "<private>b</private>") := by
  intro _ file _
  rw [EditsAgree, skipsRecent_citedStores, skipsRecent_citedStores]
  exact ⟨fun _ _ => .inl ⟨rfl, rfl⟩, fun _ _ => by simp only [AgreeUpTo, Option.some_or],
    fun _ => nofun⟩

theorem payloads_turnStep_eq_plainDiffEdit :
    (turnStep citedPlatform quietEnv citedStores (plainDiffEdit "<private>a</private>")).payloads =
      (turnStep citedPlatform quietEnv citedStores
        (plainDiffEdit "<private>b</private>")).payloads :=
  (payloads_turnStep_eq citedPlatform quietEnv citedStores alike_plainDiffEdit).1
    turnsAgree_plainDiffEdit

end Difflore.Hook

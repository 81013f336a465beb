import Difflore.Ingest.SourceKind
import Difflore.Skills.Rejections
import Mathlib.Tactic.NormNum

/-! # Drafting rules from imported reviews

A stored comment becomes a candidate if it reads like a rule: the candidate gets a confidence
from what the thread says about it, a route, and the label of the comment. The reading of the
text itself is a parameter.
-/

namespace Difflore.Ingest

open Foundation Text Infra Skills

structure ReviewReading where
  isPlatformReviewWrapper : Text → Bool
  candidateScopePaths : ReviewItem → ReviewComment → List Text
  isHighSignal : Text → List Text → Bool
  bestDirectiveScore : Text → List Text → Option Nat
  reviewDirective : Text → Text
  ruleStatement : Text → Text
  evidenceExcerpt : Text → Text → Text
  candidateTitle : Text → Text → Text
  candidateFilePatterns : List Text → Bool → Option (List Text)
  cleanReviewComment : Text → Text
  redactSecrets : Text → Text

structure ReviewItemWithComments where
  item : ReviewItem
  comments : List ReviewComment
  deriving DecidableEq

/-- The items of a source with their comments, in whatever order the queries return them. -/
structure ListedBySource (store : ReviewStore) (source : Text)
    (listed : List ReviewItemWithComments) : Prop where
  items : (listed.map (·.item)).Perm (store.items.rows.filter (·.source = source))
  comments : ∀ entry ∈ listed,
    entry.comments.Perm (store.comments.filter (·.reviewItemId = entry.item.id))

def listBySource (store : ReviewStore) (source : Text) : List ReviewItemWithComments :=
  (store.items.rows.filter (·.source = source)).map fun item =>
    ⟨item, store.comments.filter (·.reviewItemId = item.id)⟩

theorem listedBySource_listBySource (store : ReviewStore) (source : Text) :
    ListedBySource store source (listBySource store source) := by
  constructor
  · unfold listBySource
    rw [List.map_map]
    exact List.Perm.of_eq (List.map_id _)
  · intro entry hentry
    obtain ⟨item, _, rfl⟩ := List.mem_map.mp hentry
    exact List.Perm.refl _

inductive CaptureRoute
  | active
  | candidate
  | drop
  deriving DecidableEq

/-- The first power of two from here on that makes a 24-bit integer of the value. -/
def f32Scale (value : Rat) : Nat → Nat → Nat
  | 0, scale => scale
  | fuel + 1, scale =>
    if 2 ^ 23 ≤ value * scale ∨ value * scale ≤ -2 ^ 23 then scale
    else f32Scale value fuel (2 * scale)

/-- The `f32` next to a value below two, the even one of two. -/
def f32 (value : Rat) : Rat :=
  let scale := f32Scale value 126 (2 ^ 23)
  let down := (value * scale).floor
  let rest := value * scale - down
  if rest < 1 / 2 ∨ (rest = 1 / 2 ∧ down % 2 = 0) then down / scale else (down + 1) / scale

def captureConfidenceHigh : Rat := f32 (62 / 100)

def captureConfidenceLow : Rat := f32 (40 / 100)

def retractionMarkers : List Text := ["actually no", "actually, no", "nvm", "never mind",
    "nevermind", "disregard", "ignore that", "ignore this",
    "revert", "that's wrong", "thats wrong", "this is wrong",
    "scratch that"]

def repliesContradict (laterReplies : List Text) : Bool :=
  laterReplies.any fun reply => retractionMarkers.any fun marker =>
    marker <:+: toAsciiLowercase reply

/-- What the reactions add; they count only if there are any, and by a strict majority. -/
def addReactions (signal : CommentDurabilitySignal) (score : Rat) : Rat :=
  if 0 < signal.reactionsTotal then
    if signal.thumbsDown < signal.thumbsUp && 0 < signal.thumbsUp then f32 (score + f32 (10 / 100))
    else if signal.thumbsUp < signal.thumbsDown then f32 (score - f32 (15 / 100))
    else score
  else score

def captureConfidence (directiveScore : Nat) (isBot : Bool) (signal : CommentDurabilitySignal) :
    Rat :=
  let score := f32 (50 / 100)
  let score := if 6 ≤ directiveScore then f32 (score + f32 (5 / 100)) else score
  let score := if signal.resolved then f32 (score + f32 (20 / 100)) else score
  let score := addReactions signal score
  let score :=
    if repliesContradict signal.laterReplies then f32 (score - f32 (30 / 100)) else score
  let score := if isBot then f32 (score - f32 (8 / 100)) else score
  min (max score 0) 1

/-- A retraction of a resolved comment ends just below the threshold. -/
example : f32 (f32 (f32 (50 / 100) + f32 (20 / 100)) - f32 (30 / 100)) < captureConfidenceLow := by
  decide +kernel

def routeForConfidence (confidence : Rat) : CaptureRoute :=
  if captureConfidenceHigh ≤ confidence then .active
  else if captureConfidenceLow ≤ confidence then .candidate
  else .drop

/-- Candidates of comments are never activated by their confidence alone. -/
def routeForCommentConfidence (confidence : Rat) : CaptureRoute :=
  match routeForConfidence confidence with
  | .active => .candidate
  | route => route

structure LocalCandidate where
  input : RememberRuleInput
  confidence : Rat
  route : CaptureRoute
  sourceKind : ReviewSourceKind
  comment : ReviewComment

def fallbackReviewDirective : Text :=
  "capture the repeatable review judgement before accepting this candidate"

def isPrAuthorResponse (item : ReviewItem) (comment : ReviewComment) : Bool :=
  (nonBlank item.author).any fun prAuthor =>
    (nonBlank comment.author).any fun author => eqIgnoreAsciiCase prAuthor author

def truncateChars (max : Nat) (input : Text) : Text :=
  if input.length ≤ max then input else input.take (max - 3) ++ "..."

def canonicalScope (value : Text) : Option RepoScope :=
  (normalizeCanonicalRepoScope value).map (⟨·⟩)

def candidateRepoScopeForComparison (repo sourceRepo : Text) : Option RepoScope :=
  ((splitOnce '/' sourceRepo).bind fun (host, _) =>
    if '.' ∈ host then RepoScope.gitlab host repo else none).or (canonicalScope repo)

def sourceEvidenceMarker : Text := "\n\nSource evidence:"

def line (label value : Text) : Text := label ++ (value ++ ['\n'])

def relatedFilesBodyLimit : Nat := 12

def relatedFilesBodyLine (scopePaths : List Text) : Option Text :=
  let related := scopePaths.drop 1
  if related = [] then none
  else
    let shown := ", ".toList.intercalate (related.take relatedFilesBodyLimit)
    let remaining := related.length - relatedFilesBodyLimit
    if remaining = 0 then some (line "Related files: " shown)
    else
      some (line "Related files: "
        (shown ++ (", and " ++ (Nat.toDigits 10 remaining ++ " more"))))

variable (reading : ReviewReading)

def candidateBody (item : ReviewItem) (comment : ReviewComment) (sourceRepo directive path : Text)
    (scopePaths : List Text) : Text :=
  let repo := if trim sourceRepo = [] then item.repoFullName else sourceRepo
  "Rule:\n" ++ (reading.ruleStatement directive ++ (sourceEvidenceMarker ++ ('\n' ::
    (line "Source: " (repo ++ '#' :: item.prNumber.elim ['?'] decimal) ++
    ((comment.commentUrl.filter fun url => trim url ≠ []).elim []
        (line "Comment: ") ++
    ((if trim path = [] then [] else line "File: " path) ++
    ((relatedFilesBodyLine scopePaths).getD [] ++
    ("\nReviewer said:\n" ++
      truncateChars 1200 (reading.evidenceExcerpt comment.content directive)))))))))

def reviewImportClient : Text := "import-reviews"

def candidateInput (item : ReviewItem) (comment : ReviewComment) (sourceRepo : Text)
    (scopePaths : List Text) : RememberRuleInput :=
  let directive := reading.reviewDirective comment.content
  let path := scopePaths.head?.getD item.filePath
  let widenForUpstream := (candidateRepoScopeForComparison item.repoFullName sourceRepo).any
    (·.value ≠ sourceRepo)
  { title := reading.redactSecrets (reading.candidateTitle comment.content path)
    body := reading.redactSecrets
      (candidateBody reading item comment sourceRepo directive path scopePaths)
    filePatterns := reading.candidateFilePatterns scopePaths widenForUpstream
    badCode := none
    goodCode := none
    kind := none
    category := none
    origin := some Context.prReviewOrigin
    capturedByClient := some reviewImportClient }

def localCandidateInput (item : ReviewItem) (sourceRepo : RepoScope) (comment : ReviewComment) :
    Option LocalCandidate :=
  let scopePaths := reading.candidateScopePaths item comment
  if isPrAuthorResponse item comment || reading.isPlatformReviewWrapper comment.content ||
      scopePaths = [] || !reading.isHighSignal comment.content scopePaths then none
  else
    (reading.bestDirectiveScore comment.content scopePaths).bind fun directiveScore =>
      let confidence := captureConfidence directiveScore comment.label.requiresHumanValidation
        comment.metadata.signal
      let route := routeForCommentConfidence confidence
      if reading.reviewDirective comment.content = fallbackReviewDirective ||
          route = .drop then none
      else
        some
          { input := candidateInput reading item comment sourceRepo.value scopePaths
            confidence
            route
            sourceKind := comment.label
            comment }

structure DraftCommand where
  source : Text
  repo : Text
  sourceRepo : RepoScope
  maxCandidates : Nat
  prNumbers : List Int
  excludePrs : List Int

def DraftCommand.selectsNumber (command : DraftCommand) (number : Option Int) : Bool :=
  number.all (· ∉ command.excludePrs) &&
    (command.prNumbers = [] || number.any (· ∈ command.prNumbers))

def DraftCommand.selects (command : DraftCommand) (item : ReviewItem) : Bool :=
  item.repoFullName = command.repo && command.selectsNumber item.prNumber

def draftedCandidates (command : DraftCommand) (items : List ReviewItemWithComments) :
    List LocalCandidate :=
  (items.filter fun entry => command.selects entry.item).flatMap fun entry =>
    entry.comments.filterMap (localCandidateInput reading entry.item command.sourceRepo)

def LocalCandidate.stored (candidate : LocalCandidate) : Skills.LocalCandidate where
  input := candidate.input
  confidence := candidate.confidence
  sourceKind := candidate.sourceKind.wireLabel

/-- `run_local_candidates`, on what the query of the items returned. -/
def runLocalCandidates (library : Context.RememberLibrary) (command : DraftCommand)
    (items : List ReviewItemWithComments) (clock : Nat → CallClock) (store : RuleStore) :
    RuleStore :=
  importReviews library command.sourceRepo command.maxCandidates
    ((draftedCandidates reading command items).map LocalCandidate.stored) clock store

variable {reading}

theorem localCandidateInput_eq_some {item : ReviewItem} {sourceRepo : RepoScope}
    {comment : ReviewComment} {candidate : LocalCandidate}
    (hdraft : localCandidateInput reading item sourceRepo comment = some candidate) :
    candidate.comment = comment ∧ candidate.sourceKind = comment.label := by
  unfold localCandidateInput at hdraft
  dsimp only at hdraft
  split at hdraft
  next => contradiction
  next =>
    obtain ⟨score, _, hsome⟩ := Option.bind_eq_some_iff.mp hdraft
    split at hsome
    next => contradiction
    next =>
      obtain rfl := Option.some.inj hsome
      exact ⟨rfl, rfl⟩

theorem localCandidateInput_of_neutral {item : ReviewItem} {sourceRepo : RepoScope}
    {comment : ReviewComment} {score : Nat} (hresponse : isPrAuthorResponse item comment = false)
    (hwrapper : reading.isPlatformReviewWrapper comment.content = false)
    (hpaths : reading.candidateScopePaths item comment ≠ [])
    (hsignal : reading.isHighSignal comment.content
      (reading.candidateScopePaths item comment) = true)
    (hscore : reading.bestDirectiveScore comment.content
      (reading.candidateScopePaths item comment) = some score) (hplain : score < 6)
    (hdirective : reading.reviewDirective comment.content ≠ fallbackReviewDirective)
    (hlabel : comment.label = .human) (hresolved : comment.metadata.signal.resolved = false)
    (hreactions : comment.metadata.signal.reactionsTotal = 0)
    (hreplies : repliesContradict comment.metadata.signal.laterReplies = false) :
    localCandidateInput reading item sourceRepo comment = some
      { input := candidateInput reading item comment sourceRepo.value
          (reading.candidateScopePaths item comment)
        confidence := 1 / 2
        route := .candidate
        sourceKind := .human
        comment } := by
  have hconfidence : captureConfidence score comment.label.requiresHumanValidation
      comment.metadata.signal = 1 / 2 := by
    have hhalf : f32 (50 / 100) = 1 / 2 := by decide +kernel
    have hhuman : ReviewSourceKind.human.requiresHumanValidation = false := rfl
    unfold captureConfidence addReactions
    dsimp only
    rw [hlabel, hresolved, hreplies, hreactions, hhuman, if_neg (Nat.not_le.mpr hplain), hhalf]
    norm_num
  have hroute : routeForCommentConfidence (captureConfidence score
      comment.label.requiresHumanValidation comment.metadata.signal) = .candidate := by
    rw [hconfidence]
    decide +kernel
  unfold localCandidateInput
  dsimp only
  rw [if_neg (by simp [hresponse, hwrapper, hpaths, hsignal]), hscore, Option.bind_some,
    if_neg (by simp [hdirective, hroute]), hroute, hconfidence, hlabel]

theorem mem_draftedCandidates {command : DraftCommand} {items : List ReviewItemWithComments}
    {candidate : LocalCandidate}
    (hcandidate : candidate ∈ draftedCandidates reading command items) :
    ∃ entry ∈ items, command.selects entry.item = true ∧ ∃ comment ∈ entry.comments,
      localCandidateInput reading entry.item command.sourceRepo comment = some candidate := by
  obtain ⟨entry, hentry, hmem⟩ := List.mem_flatMap.mp hcandidate
  obtain ⟨hlisted, hselects⟩ := List.mem_filter.mp hentry
  obtain ⟨comment, hcomment, hdraft⟩ := List.mem_filterMap.mp hmem
  exact ⟨entry, hlisted, hselects, comment, hcomment, hdraft⟩

end Difflore.Ingest

import Difflore.Hook.Classifier
import Difflore.Infra.RepoScope
import Difflore.Memory.Candidates
import Difflore.Skills.SemanticDedup
import Mathlib.Tactic.NormNum

/-! # Session-mined candidates

The worker builds a candidate from the answer of its gate. Two candidates of one repository are
taken for the same lesson by their titles, their bodies and the families of their paths. Scores
are exact rationals.
-/

namespace Difflore.SessionMine

open Foundation Text Infra Memory Skills

def titleMaxChars : Nat := 120

def bodyMaxChars : Nat := 2000

def maxFilePatterns : Nat := 3

def originName : Text := "session_mined"

structure Lesson where
  sessionId : Text
  tsMs : Int
  sourceRepo : Text
  title : Text
  body : Text
  filePatterns : List Text
  gateModel : Text
  gateVerdict : Text
  origin : Text
  requiresHumanApproval : Bool
  deriving DecidableEq

/-- A whole candidate: the lesson, its hash, and the local triage and evidence. -/
structure Candidate extends Lesson, SessionMinedCandidate
  deriving DecidableEq

inductive CandidateError
  | missingSourceRepo
  | missingSessionId
  | invalidTitle
  | invalidBody
  | invalidFilePatterns
  | missingGateModel
  | invalidGateVerdict
  | notDraft
  | wrongOrigin
  | missingLocalTriageReason
  | missingLocalTriageRef
  | selfReferentialLocalTriageRef
  deriving DecidableEq

def CandidateError.message : CandidateError → Text
  | .missingSourceRepo => "session-mined candidate is missing source_repo — drop"
  | .missingSessionId => "session-mined candidate is missing session_id — drop"
  | .invalidTitle => "session-mined candidate title invalid (empty or > 120 chars)"
  | .invalidBody => "session-mined candidate body invalid (empty or > 2000 chars)"
  | .invalidFilePatterns => "session-mined candidate must carry 1-3 file patterns"
  | .missingGateModel => "session-mined candidate is missing gate_model"
  | .invalidGateVerdict =>
    "session-mined candidate gate_verdict must be 'KEEP' or 'MERGE:<id>'"
  | .notDraft => "session-mined candidates must keep requires_human_approval = true"
  | .wrongOrigin => "session-mined candidate has wrong origin (expected session_mined)"
  | .missingLocalTriageReason => "session-mined candidate local triage reason is missing"
  | .missingLocalTriageRef => "session-mined candidate local triage ref is missing"
  | .selfReferentialLocalTriageRef =>
    "session-mined candidate local triage ref points at itself"

def isValidVerdict (verdict : Text) : Bool := verdict = "KEEP" ||
    (stripPrefix "MERGE:" verdict).any (trim · ≠ [])

def truncateChars (s : Text) (maxChars : Nat) : Text :=
  if s.length ≤ maxChars then s else s.take (maxChars - 1) ++ ['…']

abbrev Digest := Fin 32 → UInt8

variable (sha256 : Text → Digest)

def computeContentHash (sourceRepo title body : Text) : Text :=
  let digest := sha256 (sourceRepo ++ '|' :: (title ++ '|' :: body))
  ((List.finRange 32).take 8).flatMap fun i => hexByte (digest i)

theorem computeContentHash_ne_nil (sourceRepo title body : Text) :
    computeContentHash sha256 sourceRepo title body ≠ [] := by
  simp [computeContentHash, hexByte, List.finRange_succ]

theorem trim_computeContentHash (sourceRepo title body : Text) :
    trim (computeContentHash sha256 sourceRepo title body) =
      computeContentHash sha256 sourceRepo title body := by
  have hall : ∀ c ∈ computeContentHash sha256 sourceRepo title body, isWhitespace c = false := by
    intro c hc
    obtain ⟨i, _, hc⟩ := List.mem_flatMap.mp hc
    rcases List.mem_cons.mp hc with rfl | hc
    · exact hexDigit_not_isWhitespace _
    · obtain rfl := List.mem_singleton.mp hc
      exact hexDigit_not_isWhitespace _
  apply trim_of_ends
  · intro c hc
    exact hall c (List.mem_of_mem_head? hc)
  · intro c hc
    exact hall c (List.mem_of_mem_getLast? hc)

/-! ## Building and checking a candidate -/

structure SessionMinedCandidateArgs where
  sessionId : Text
  tsMs : Int
  sourceRepo : RepoScope
  title : Text
  body : Text
  filePatterns : List Text
  gateModel : Text
  gateVerdict : Text

namespace Candidate

def tryNew (args : SessionMinedCandidateArgs) : Except CandidateError Candidate :=
  let sessionId := trim args.sessionId
  let sourceRepo := args.sourceRepo.value
  let title := truncateChars (trim args.title) titleMaxChars
  let body := truncateChars (trim args.body) bodyMaxChars
  let filePatterns := ((args.filePatterns.map trim).filter (· ≠ [])).take maxFilePatterns
  let gateModel := trim args.gateModel
  let gateVerdict := trim args.gateVerdict
  if sessionId = [] then .error .missingSessionId
  else if trim sourceRepo = [] then .error .missingSourceRepo
  else if title = [] then .error .invalidTitle
  else if body = [] then .error .invalidBody
  else if filePatterns = [] then .error .invalidFilePatterns
  else if gateModel = [] then .error .missingGateModel
  else if !isValidVerdict gateVerdict then .error .invalidGateVerdict
  else
    .ok
      { sessionId, tsMs := args.tsMs, sourceRepo, title, body, filePatterns, gateModel
        gateVerdict, contentHash := computeContentHash sha256 sourceRepo title body
        origin := originName, requiresHumanApproval := true
        localTriage := none, localEvidence := none }

def validateTriage (contentHash : Text) (triage : SessionMinedLocalTriage) :
    Except CandidateError Unit :=
  if triage.status = .unknown then .ok ()
  else if trim triage.reason = [] then .error .missingLocalTriageReason
  else if triage.status = .droppedLowSignal then .ok ()
  else if triage.reference.all (trim · = []) then .error .missingLocalTriageRef
  else if triage.reference.any (trim · = contentHash) then
    .error .selfReferentialLocalTriageRef
  else .ok ()

def validate (candidate : Candidate) : Except CandidateError Unit :=
  if trim candidate.sessionId = [] then .error .missingSessionId
  else if trim candidate.sourceRepo = [] then .error .missingSourceRepo
  else if candidate.title = [] || titleMaxChars < candidate.title.length then
    .error .invalidTitle
  else if candidate.body = [] || bodyMaxChars < candidate.body.length then .error .invalidBody
  else if candidate.filePatterns = [] || maxFilePatterns < candidate.filePatterns.length then
    .error .invalidFilePatterns
  else if trim candidate.gateModel = [] then .error .missingGateModel
  else if !isValidVerdict candidate.gateVerdict then .error .invalidGateVerdict
  else if candidate.origin ≠ originName then .error .wrongOrigin
  else if !candidate.requiresHumanApproval then .error .notDraft
  else candidate.localTriage.elim (.ok ()) (validateTriage candidate.contentHash)

end Candidate

theorem length_truncateChars (s : Text) {maxChars : Nat} (hpos : 0 < maxChars) :
    (truncateChars s maxChars).length ≤ maxChars := by
  unfold truncateChars
  split
  next hshort => exact hshort
  next hlong =>
    rw [List.length_append, List.length_take]
    simp only [List.length_singleton]
    omega

structure Fresh (candidate : Candidate) : Prop where
  hash : candidate.contentHash =
    computeContentHash sha256 candidate.sourceRepo candidate.title candidate.body
  untriaged : candidate.localTriage = none
  uncounted : candidate.localEvidence = none
  valid : candidate.validate = .ok ()

theorem fresh_of_tryNew {args : SessionMinedCandidateArgs} {candidate : Candidate}
    (hnew : Candidate.tryNew sha256 args = .ok candidate) : Fresh sha256 candidate := by
  unfold Candidate.tryNew at hnew
  dsimp only at hnew
  split at hnew
  next => contradiction
  next hsession =>
  split at hnew
  next => contradiction
  next hrepo =>
  split at hnew
  next => contradiction
  next htitle =>
  split at hnew
  next => contradiction
  next hbody =>
  split at hnew
  next => contradiction
  next hpatterns =>
  split at hnew
  next => contradiction
  next hmodel =>
  split at hnew
  next => contradiction
  next hverdict =>
  obtain rfl := Except.ok.inj hnew
  have htitleLength := length_truncateChars (trim args.title)
    (show 0 < titleMaxChars by decide)
  have hbodyLength := length_truncateChars (trim args.body) (show 0 < bodyMaxChars by decide)
  refine ⟨rfl, rfl, rfl, ?_⟩
  simp only [Candidate.validate, trim_trim, hsession, hrepo, htitle, hbody, hpatterns,
    hmodel, hverdict, Nat.not_lt.mpr htitleLength, Nat.not_lt.mpr hbodyLength,
    Nat.not_lt.mpr (List.length_take_le _ _)]
  simp

/-- Letters, digits, hyphens, underscores and slashes, in lower case. -/
def normalizeToken (text : Text) : Text :=
  toAsciiLowercase (text.filter fun c => c.isAlphanum || c = '-' || c = '_' || c = '/')

def pathSeparators : List Char := ['/', '*', '\x7b', '\x7d', '.', '_', '-']

def commonParts : List Text :=
  ["app", "apps", "component", "components", "crate", "crates", "css", "json", "jsx", "less",
    "lib", "libs", "module", "modules", "package", "scss", "src", "test", "tests", "tsx"].map
      String.toList

def pathFamilies (patterns : List Text) : List Text := patterns.flatMap fun pattern =>
    ((((pattern.splitOnP (· ∈ pathSeparators)).map trim).filter fun part =>
      3 ≤ Hook.byteLength part && part ∉ commonParts).map normalizeToken).filter (· ≠ [])

structure CandidateClusterKey where
  titleTokens : List Text
  contentTokens : List Text
  pathFamilies : List Text

def CandidateClusterKey.fromParts (title body : Text) (filePatterns : List Text) :
    CandidateClusterKey where
  titleTokens := tokenizeSemanticTitle title
  contentTokens := tokenizeKnowledgeText body
  pathFamilies := SessionMine.pathFamilies filePatterns

def pathFamilyOverlap (left right : List Text) : Bool := left.any (· ∈ right)

def CandidateClusterKey.matches (key other : CandidateClusterKey) : Bool :=
  let titleScore := jaccard key.titleTokens other.titleTokens
  let contentScore := jaccard key.contentTokens other.contentTokens
  let overlap := pathFamilyOverlap key.pathFamilies other.pathFamilies
  let boost : Rat := if overlap then 8 / 100 else 0
  45 / 100 ≤ contentScore + boost ||
    (70 / 100 ≤ titleScore && 30 / 100 ≤ contentScore) ||
    (50 / 100 ≤ titleScore && 30 / 100 ≤ contentScore) ||
    (overlap && 25 / 100 ≤ titleScore && 23 / 100 ≤ contentScore)

def Lesson.clusterKey (lesson : Lesson) : CandidateClusterKey :=
  .fromParts lesson.title lesson.body lesson.filePatterns

def sessionMinedCandidatesSemanticallyMatch (left right : Lesson) : Bool :=
  normalizeToken left.sourceRepo = normalizeToken right.sourceRepo &&
    left.clusterKey.matches right.clusterKey

theorem matches_of_same_text {left right : Lesson}
    (hrepo : left.sourceRepo = right.sourceRepo) (hbody : left.body = right.body)
    (hwords : tokenizeKnowledgeText right.body ≠ []) :
    sessionMinedCandidatesSemanticallyMatch left right = true := by
  have hcontent : jaccard left.clusterKey.contentTokens right.clusterKey.contentTokens = 1 := by
    unfold Lesson.clusterKey CandidateClusterKey.fromParts
    rw [hbody]
    exact jaccard_self hwords
  have hscore : ∀ overlap : Bool, (45 / 100 : Rat) ≤ 1 + (if overlap then 8 / 100 else 0) := by
    intro overlap
    cases overlap <;> norm_num
  unfold sessionMinedCandidatesSemanticallyMatch CandidateClusterKey.matches
  dsimp only
  rw [hcontent, hrepo, decide_eq_true (hscore _)]
  simp

end Difflore.SessionMine

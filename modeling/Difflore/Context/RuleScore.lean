import Difflore.Context.Arbitration
import Difflore.Context.RuleIndex
import Difflore.Domain.GlobMatch
import Difflore.Infra.Hex

/-! # What the score of a rule is made of

A rule is admitted by the language and the repository that are asked for, and is in scope of the
target files by its patterns. Its score is weighted by its confidence, by how concrete its text is
and by a hit of its patterns. Scores are exact rationals.
-/

namespace Difflore.Context

open Foundation Text Domain Infra

/-! ## Filters -/

structure QueryFilter where
  language : Option Text := none
  repoScope : Option Text := none

/-- The condition in SQL: a rule without a language passes, one without a repository does not. -/
def QueryFilter.admits (filter : QueryFilter) (chunk : RuleChunk) : Bool :=
  (filter.language.all fun language => chunk.language.all (· = language)) &&
    filter.repoScope.all fun repo => chunk.repoScope = some repo

inductive TargetScope
  | file (path : Text)
  | changeset (paths : List Text)

def documentationTarget (targetFile : Text) : Bool :=
  let target := toAsciiLowercase ((targetFile.dropWhile (· = '/')).map toSlash)
  (".md" <:+ target || ".mdx" <:+ target) &&
    ("docs/" <+: target || "/docs/" <:+: target)

def scriptExtensions : List Text :=
  [".ts", ".tsx", ".mts", ".cts", ".js", ".jsx", ".mjs", ".cjs"].map String.toList

variable (library : GlobLibrary)

def readPatterns (filePatterns : Option Text) : Option (List Text) :=
  ((filePatterns.map trim).filter (· ≠ [])).bind library.jsonStrings

/-- Rules about scripts apply to the documents under `docs`. -/
def documentationCodePatternAllows (filePatterns : Option Text) (targetFile : Text) : Bool :=
  documentationTarget targetFile && (readPatterns library filePatterns).any fun patterns =>
    patterns.any fun pattern =>
      scriptExtensions.any fun extension => extension <:+: toAsciiLowercase pattern

def patternAllows (filePatterns : Option Text) (targetFile : Text) : Bool :=
  globMatch library filePatterns targetFile .overRecall ||
    documentationCodePatternAllows library filePatterns targetFile

def TargetScope.patternAllows (scope : TargetScope) (filePatterns : Option Text) : Bool :=
  match scope with
  | .file path => Context.patternAllows library filePatterns path
  | .changeset paths => globMatchChangeset library filePatterns paths .overRecall

theorem TargetScope.patternAllows_none (scope : TargetScope) :
    scope.patternAllows library none = true := by
  cases scope with
  | file path => simp [TargetScope.patternAllows, Context.patternAllows, globMatch, buildGlobset]
  | changeset paths => simp [TargetScope.patternAllows, globMatchChangeset, buildGlobset]

def hasExplicitFilePatterns (filePatterns : Option Text) : Bool :=
  match (filePatterns.map trim).filter (· ≠ []) with
  | none => false
  | some raw => (library.jsonStrings raw).all fun patterns =>
    patterns.any fun pattern => trim pattern ≠ []

def pathHintMatches (scope : Option TargetScope) (filePatterns : Option Text) : Bool :=
  scope.any fun scope =>
    hasExplicitFilePatterns library filePatterns && scope.patternAllows library filePatterns

inductive RuleKind
  | correction
  | convention
  | style
  | slogan
  | other

def correctionHints : List Text :=
  ["don't ", "do not ", "never ", "must not ", "regression", "fix:", "bug:", "broke ", "incorrect",
    "wrong"].map String.toList

def styleHints : List Text :=
  ["format", "indent", "spacing", "naming convention", "lint", "prettier", "rustfmt", "biome",
    "eslint"].map String.toList

def conventionHints : List Text :=
  ["we use ", "prefer ", "always use ", "convention", "project uses"].map String.toList

def sloganHints : List Text :=
  ["trust ", "review carefully", "be careful", "best practice", "good practice"].map String.toList

def inferRuleKind (content : Text) : RuleKind :=
  let lowercase := toAsciiLowercase content
  let hinted := fun hints : List Text => hints.any (· <:+: lowercase)
  if hinted correctionHints then .correction
  else if hinted styleHints then .style
  else if hinted conventionHints then .convention
  else if hinted sloganHints then .slogan
  else .other

def halfLifeDays : RuleKind → Rat
  | .correction => 365
  | .convention => 120
  | .style | .slogan => 30
  | .other => 90

def clamp (low high value : Rat) : Rat := max low (min high value)

/-- `halved` is one half to the power of its argument. -/
def effectiveConfidence (halved : Rat → Rat) (rawConfidence : Rat) (kind : RuleKind)
    (ageDays : Rat) : Rat :=
  clamp 0 1 rawConfidence * halved (max ageDays 0 / halfLifeDays kind)

def backtick : Char := Char.ofNat 96

/-- A word with a slash whose last part has a dot and more than three bytes. -/
def pathLike (word : Text) : Bool :=
  (afterLast '/' word).any fun tail => tail.contains '.' && 3 < byteLength tail

/-- `v1` and the like, or two numbers between dots. -/
def versionLike (word : Text) : Bool :=
  let trimmed := trimMatches (fun c => !c.isAlphanum && c ≠ '.') word
  (trimmed.head? = some 'v' && 2 < byteLength trimmed && trimmed.tail.head?.any Char.isDigit) ||
    2 ≤ ((trimmed.splitOn '.').filter fun part => (parseU32 part).isSome).length

def concretenessScore (content : Text) : Nat :=
  let words := splitWhitespace content
  min (content.count backtick / 2) 3 + min (words.countP pathLike) 3 +
    min (words.countP versionLike) 2

def verbosityPenalty (wordCount : Nat) : Rat :=
  if wordCount ≤ 80 then 1
  else if wordCount ≤ 160 then 96 / 100
  else if wordCount ≤ 280 then 90 / 100
  else if wordCount ≤ 420 then 82 / 100
  else 74 / 100

def ruleQualityWeight (content : Text) : Rat :=
  let concrete := min (concretenessScore content) 6
  let body := trim ((afterFirst "\n\n" content).getD content)
  clamp (70 / 100) (148 / 100)
    ((8 / 100 * concrete + 1) * verbosityPenalty (splitWhitespace body).length)

def confidenceWeight (effective : Rat) : Rat := 3 / 10 * clamp 0 1 effective + 75 / 100

def pathHintScoreBoost : Rat := 108 / 100

def pathWeight (scope : Option TargetScope) (filePatterns : Option Text) : Rat :=
  if pathHintMatches library scope filePatterns then pathHintScoreBoost else 1

theorem le_clamp {low high value : Rat} : low ≤ clamp low high value := le_max_left ..

theorem le_ruleQualityWeight (content : Text) : 70 / 100 ≤ ruleQualityWeight content := le_clamp

theorem le_confidenceWeight (effective : Rat) : 75 / 100 ≤ confidenceWeight effective := by
  have hclamp : 0 ≤ clamp 0 1 effective := le_clamp
  unfold confidenceWeight
  linarith

theorem one_le_pathWeight (scope : Option TargetScope) (filePatterns : Option Text) :
    1 ≤ pathWeight library scope filePatterns := by
  unfold pathWeight pathHintScoreBoost
  split
  · norm_num
  · exact le_refl 1

end Difflore.Context

import Difflore.Foundation.Marker
import Difflore.Foundation.Text
import Mathlib.Algebra.Order.Ring.Unbundled.Rat
import Mathlib.Data.List.Sort
import Mathlib.Data.List.Destutter

/-! # Near duplicates of review rules

Two rules match by the words of their titles and contents and by the overlap of their file
patterns. Scores are exact rationals.
-/

namespace Difflore.Skills

open Foundation Text

structure SemanticRuleKey where
  title : Text
  content : Text
  filePatterns : List Text

def sourceEvidence : Text := "\n\nSource evidence:"

def semanticRuleContent (content : Text) : Text := (beforeFirst sourceEvidence content).getD content

def SemanticRuleKey.new (title content : Text) (filePatterns : List Text) : SemanticRuleKey where
  title
  content := semanticRuleContent content
  filePatterns

def stopwords : List Text :=
  ["a", "an", "the", "to", "of", "in", "on", "for", "and", "or", "with", "is", "are", "be", "by",
    "from", "as", "at", "into", "onto", "this", "that", "these", "those", "it", "its", "use",
    "using", "review", "rule", "source", "evidence", "reviewer", "said", "touching"].map
      String.toList

def isLowInformationIdToken (token : Text) : Bool := 7 ≤ token.length && token.all isHexDigit

def trimDoubledSuffix (value : Text) : Text :=
  match value.reverse with
  | last :: previous :: rest => if previous = last then (previous :: rest).reverse else value
  | _ => value

def stem (t : Text) : Text :=
  if 5 < t.length && ['i', 'e', 's'] <:+ t then t.take (t.length - 3) ++ ['y']
  else if 6 < t.length && ['i', 'n', 'g'] <:+ t then trimDoubledSuffix (t.take (t.length - 3))
  else if 5 < t.length && ['e', 'd'] <:+ t then trimDoubledSuffix (t.take (t.length - 2))
  else if 5 < t.length && ['e', 's'] <:+ t then t.take (t.length - 2)
  else if 4 < t.length && ['s'] <:+ t then t.take (t.length - 1)
  else t

def normalizeLexicalToken (token : Text) : Option Text :=
  let t := trimMatches (· ∈ ['.', '_', ':', '/', '-']) token
  if t.all Char.isDigit || isLowInformationIdToken t then none
  else
    let t := stem t
    if 3 ≤ t.length && t ∉ stopwords then some t else none

def tokenizeWithAllowedChars (allowed : Char → Bool) (value : Text) : List Text :=
  ((splitWhitespace ((toAsciiLowercase value).map fun c =>
    if allowed c then c else ' ')).filterMap normalizeLexicalToken).dedup

theorem nodup_tokenizeWithAllowedChars (allowed : Char → Bool) (value : Text) :
    (tokenizeWithAllowedChars allowed value).Nodup :=
  List.nodup_dedup _

def tokenizeSemanticTitle (title : Text) : List Text :=
  tokenizeWithAllowedChars (fun c => c.isAlphanum || c ∈ ['.', '_']) title

def tokenizeKnowledgeText (text : Text) : List Text :=
  tokenizeWithAllowedChars (fun c => c.isAlphanum || c ∈ ['.', '_', '/', ':', '-']) text

def normalizedTitleKey (title : Text) : Text :=
  [' '].intercalate ((tokenizeSemanticTitle title).insertionSort (· ≤ ·))

def jaccard (left right : List Text) : Rat :=
  let shared := (left.filter (· ∈ right)).length
  let union := left.length + right.length - shared
  if union = 0 then 0 else shared / union

theorem jaccard_comm {left right : List Text} (hleft : left.Nodup) (hright : right.Nodup) :
    jaccard left right = jaccard right left := by
  have hshared : (left.filter (· ∈ right)).length = (right.filter (· ∈ left)).length := by
    apply List.Perm.length_eq
    rw [List.perm_ext_iff_of_nodup (hleft.filter _) (hright.filter _)]
    intro word
    simp [and_comm]
  simp only [jaccard, hshared, Nat.add_comm left.length]

theorem jaccard_self {words : List Text} (hne : words ≠ []) : jaccard words words = 1 := by
  have hall : words.filter (· ∈ words) = words := by simp
  have hlength : (words.length : Rat) ≠ 0 := by simpa using hne
  simp only [jaccard, hall, Nat.add_sub_cancel]
  rw [if_neg (by simpa using hne), Rat.div_def, Rat.mul_inv_cancel _ hlength]

/-! ## File patterns -/

def collapseSlashes : Text → Text
  | '/' :: '/' :: rest => collapseSlashes ('/' :: rest)
  | c :: rest => c :: collapseSlashes rest
  | [] => []

def stripCurrentDirs : Text → Text
  | '.' :: '/' :: rest => stripCurrentDirs rest
  | s => s

def normalizePatternString (pattern : Text) : Text :=
  (stripCurrentDirs (collapseSlashes ((trim pattern).map fun c =>
    if c = '\\' then '/' else c))).rdropWhile (· = '/')

def normalizePatterns (patterns : List Text) : List Text :=
  (((patterns.map normalizePatternString).filter (· ≠ [])).insertionSort (· ≤ ·)).destutter (· ≠ ·)

def projectWidePatterns : List Text := ["**", "**/*", "**/**"]

def isProjectWidePattern (pattern : Text) : Bool := pattern ∈ projectWidePatterns

def starDot : Text := "*."

/-- The extensions behind each `*.`. -/
def plainExtensions (pattern : Text) : List Text :=
  (((split starDot pattern).drop 1).map fun part =>
    toAsciiLowercase (part.takeWhile Char.isAlphanum)).filter (· ≠ [])

def braceParts (inner : Text) : List Text := ((inner.splitOn ',').map fun part =>
    toAsciiLowercase ((trim part).dropWhile (· = '.'))).filter fun ext =>
      ext ≠ [] && ext.all Char.isAlphanum

/-- The extensions in each brace list that follows `*.` and is closed; `inner` is what was
read of an open one. -/
def braceExtensions : Option Text → Text → List Text
  | none, '*' :: '.' :: '\x7b' :: rest => braceExtensions (some []) rest
  | none, _ :: rest => braceExtensions none rest
  | some inner, '\x7d' :: rest => braceParts inner ++ braceExtensions none rest
  | some inner, c :: rest => braceExtensions (some (inner ++ [c])) rest
  | _, [] => []

def extensionsForPattern (pattern : Text) : List Text :=
  plainExtensions pattern ++ braceExtensions none pattern

def cFamily : List Text := ["c", "cc", "cpp", "cxx", "h", "hpp", "hxx"].map String.toList

def jsFamily : List Text := ["js", "jsx", "mjs", "cjs", "ts", "tsx"].map String.toList

def languageFamily (extension : Text) : Text :=
  if extension ∈ cFamily then "c-family"
  else if extension ∈ jsFamily then "js-family"
  else extension

def languageFamiliesForPattern (pattern : Text) : List Text :=
  (extensionsForPattern pattern).map languageFamily

def hasCompatibleLanguageScope (left right : Text) : Bool :=
  let leftFamilies := languageFamiliesForPattern left
  let rightFamilies := languageFamiliesForPattern right
  leftFamilies = [] || rightFamilies = [] || leftFamilies.any (· ∈ rightFamilies)

def isGlobChar (c : Char) : Bool := c ∈ ['*', '?', '\x7b', '[']

/-- The directory in front of the first glob character, or of the file name. -/
def globPrefix (pattern : Text) : Text :=
  if isProjectWidePattern pattern then []
  else if pattern.any isGlobChar then
    (pattern.takeWhile fun c => !isGlobChar c).rdropWhile (· = '/')
  else if '/' ∈ pattern then (pattern.rdropWhile (· ≠ '/')).dropLast
  else []

def prefixSubsumes (left right : Text) : Bool :=
  left = [] || right = [] || left = right || (right ++ ['/']).isPrefixOf left ||
    (left ++ ['/']).isPrefixOf right

def filePatternPairOverlapScore (left right : Text) : Rat :=
  if left = right then 1
  else if !hasCompatibleLanguageScope left right then 0
  else if isProjectWidePattern left || isProjectWidePattern right then 1
  else
    let leftPrefix := globPrefix left
    let rightPrefix := globPrefix right
    if leftPrefix = rightPrefix then 1
    else if prefixSubsumes leftPrefix rightPrefix then 9 / 10
    else if leftPrefix = [] || rightPrefix = [] then 86 / 100
    else 0

def filePatternOverlapScore (incoming existing : List Text) : Rat :=
  (normalizePatterns incoming).foldl (fun best left =>
    (normalizePatterns existing).foldl (fun best right =>
      max best (filePatternPairOverlapScore left right)) best) 0

def filePatternLanguagesCompatible (incoming existing : List Text) : Bool :=
  (normalizePatterns incoming).any fun left =>
    (normalizePatterns existing).any (hasCompatibleLanguageScope left)

def semanticDedupScoreThreshold : Rat := 58 / 100

def titleDedupJaccardThreshold : Rat := 7 / 10

def contentDedupJaccardThreshold : Rat := 56 / 100

def normalizedTitleContentFloor : Rat := 35 / 100

structure SemanticDedupScore where
  score : Rat
  titleJaccard : Rat
  contentJaccard : Rat
  filePatternOverlap : Rat

def semanticDedupScore (incoming candidate : SemanticRuleKey) : SemanticDedupScore :=
  let titleJaccard :=
    jaccard (tokenizeSemanticTitle incoming.title) (tokenizeSemanticTitle candidate.title)
  let contentJaccard :=
    jaccard (tokenizeKnowledgeText incoming.content) (tokenizeKnowledgeText candidate.content)
  let filePatternOverlap := filePatternOverlapScore incoming.filePatterns candidate.filePatterns
  let weighted :=
    2 / 10 * filePatternOverlap + (42 / 100 * contentJaccard + 38 / 100 * titleJaccard)
  { score := min (max (weighted - 5 / 100) 0) 1, titleJaccard, contentJaccard, filePatternOverlap }

def semanticRulesMatch (incoming candidate : SemanticRuleKey) : Bool :=
  let titleKey := normalizedTitleKey incoming.title
  let scored := semanticDedupScore incoming candidate
  if titleKey ≠ [] && titleKey = normalizedTitleKey candidate.title then
    0 < scored.filePatternOverlap ||
      (filePatternLanguagesCompatible incoming.filePatterns candidate.filePatterns &&
        normalizedTitleContentFloor ≤ scored.contentJaccard)
  else if 0 < scored.filePatternOverlap &&
      contentDedupJaccardThreshold ≤ scored.contentJaccard then true
  else
    let score := if titleDedupJaccardThreshold ≤ scored.titleJaccard then
      max scored.score scored.titleJaccard else scored.score
    0 < scored.filePatternOverlap && semanticDedupScoreThreshold ≤ score

end Difflore.Skills

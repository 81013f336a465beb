import Difflore.Memory.Cluster

/-! # What the planner reads in rules

Words that make a rule broad, conflicting or obvious, and the active rule of the same repository
that gives the opposite directive.
-/

namespace Difflore.Memory

open Foundation Text SessionMine

structure PlanCandidate extends ClusterCandidate where
  rawDescription : Option Text
  contentHash : Option Text
  origin : Text
  sourceKind : Text
  verdict : Option Text
  autopilotDisabled : Bool

structure ActiveRule extends ActiveMemory where
  itemId : Text
  title : Text
  body : Text
  contentHash : Option Text
  origin : Text
  sourceKind : Text

def containsAny (text : Text) (needles : List String) : Bool :=
  needles.any fun needle => needle.toList <:+: text

def broadPatterns : List Text :=
  ["**/*", "src/**/*", "**/*.ts", "**/*.tsx", "src/**/*.ts", "src/**/*.tsx"].map String.toList

def filePatternsAreBroad (patterns : List Text) : Bool :=
  patterns.isEmpty || patterns.any (trim · ∈ broadPatterns)

def toAsciiUppercase (s : Text) : Text := s.map Char.toUpper

def hasMergeVerdict (candidates : List PlanCandidate) : Bool := candidates.any fun candidate =>
    "MERGE:" <+: toAsciiUppercase (candidate.verdict.getD [])

def containsAsciiWord (text needle : Text) : Bool := needle ∈ text.splitOnP (!Char.isAlphanum ·)

def groupText (candidates : List PlanCandidate) : Text :=
  toAsciiLowercase (['\n'].intercalate (candidates.map fun candidate =>
    candidate.title ++ (' ' :: candidate.body)))

def hasConflictingLanguage (candidates : List PlanCandidate) : Bool :=
  let text := groupText candidates
  ("inline" <:+: text && "central" <:+: text && "route" <:+: text) ||
    (containsAsciiWord text "allow" && containsAsciiWord text "disallow") ||
    (containsAsciiWord text "always" && containsAsciiWord text "never")

/-! ## Opposing directives -/

structure ActiveConflict where
  ruleId : Text
  title : Text
  basis : Text
  activeBody : Text
  activePatterns : List Text

def positiveDirectives : List String :=
  ["always", "must use", "should use", "prefer", "require", "enforce", "enable"]

def negativeDirectives : List String :=
  ["never", "avoid", "must not", "do not", "don't", "disallow", "forbid", "disable", "should not"]

def conflictStopWords : List Text :=
  ["always", "never", "avoid", "prefer", "require", "should", "must", "with", "this", "that",
    "from", "into", "when", "where", "rule", "rules", "code", "the", "and", "for", "use", "using",
    "not", "than", "then", "but", "create", "even", "generate", "home", "keep", "model", "name",
    "names", "reference", "repo", "string", "type", "typed"].map String.toList

def singleTokenWeakConflictSubjects : List Text :=
  ["event", "events", "flag", "flags", "handler", "handlers", "route", "routes", "request",
    "requests", "name", "names", "key", "keys"].map String.toList

def shortConflictSubjects : List Text := ["api", "css", "jwt", "sql", "ssr"].map String.toList

def directiveSubjectTokens (text : Text) : List Text :=
  ((text.splitOnP (!Char.isAlphanum ·)).filter fun token =>
    (4 ≤ token.length || token ∈ shortConflictSubjects) &&
      token ∉ conflictStopWords).eraseDups

def patternExtension (pattern : Text) : Option Text :=
  (some (toAsciiLowercase (((afterLast '.' pattern).getD pattern).rdropWhile
    (!Char.isAlphanum ·)))).filter fun ext => ext ≠ [] && Hook.byteLength ext ≤ 5

def patternsOverlap (patterns others : List Text) : Bool := patterns.isEmpty || others.isEmpty ||
    patterns.any fun pattern => others.any fun other =>
      toAsciiLowercase (trim pattern) = toAsciiLowercase (trim other) ||
        ((patternExtension pattern).isSome && patternExtension pattern = patternExtension other)

def opposed (candidateText activeText : Text) : Bool :=
  (containsAny candidateText positiveDirectives && containsAny activeText negativeDirectives) ||
    (containsAny candidateText negativeDirectives && containsAny activeText positiveDirectives)

def opposingDirectiveSubject (candidateText activeText : Text) (candidateTokens : List Text) :
    Option Text :=
  if !opposed candidateText activeText then none
  else
    let activeTokens := directiveSubjectTokens activeText
    let shared := candidateTokens.filter (· ∈ activeTokens)
    match shared.find? (· ∉ singleTokenWeakConflictSubjects) with
    | some subject => some subject
    | none => if 2 ≤ shared.length then some (" + ".toList.intercalate (shared.take 3)) else none

/-- The first active rule of the repository that contradicts the group. -/
def detectActiveConflict (candidates : List PlanCandidate) (sourceRepo : Option Text)
    (filePatterns : List Text) (activeRules : List ActiveRule) : Option ActiveConflict :=
  (sourceRepo.map trim).bind fun repo =>
    let candidateText := groupText candidates
    let candidateTokens := directiveSubjectTokens candidateText
    if repo = [] || candidateTokens = [] then none
    else activeRules.findSome? fun active =>
      if active.sourceRepo.any (fun activeRepo =>
            eqIgnoreAsciiCase (trim activeRepo) repo) &&
          patternsOverlap filePatterns active.filePatterns then
        (opposingDirectiveSubject candidateText
          (toAsciiLowercase (active.title ++ (' ' :: active.body))) candidateTokens).map
            fun basis =>
              { ruleId := active.ruleId
                title := active.title
                basis := basis
                activeBody := active.body
                activePatterns := active.filePatterns }
      else none

def obviousDefaultActions : List String :=
  ["add test", "write test", "include test", "cover test", "handle error", "handle exception",
    "handle edge case", "catch error", "surface error", "validate input", "validate parameter",
    "validate argument", "validate payload", "validate request", "input validation",
    "payload validation", "request validation", "improve readability", "improve clarity",
    "improve performance", "improve maintainability", "remove dead code", "remove unused code",
    "delete dead code", "delete unused code", "avoid duplication", "reduce duplication",
    "reduce complexity", "consistent casing", "consistent capitalization", "consistent naming",
    "matching casing", "group related test", "group similar test", "consolidate related test",
    "consolidate similar test"]

def hasObviousDefaultAction (lower : Text) : Bool := containsAny lower obviousDefaultActions

def hasCommonPlatformKnowledge (lower : Text) : Bool :=
  containsAny lower ["preventdefault", "page reload", "version suffix casing"] ||
    (containsAny lower ["blocking code"] && containsAny lower ["async"])

def projectContractSignals : List String :=
  ["shared", "generated", "schema", "contract", "boundary", "adapter", "router", "provider",
    "cache", "migration", "protocol", "compatibility", "serialization", "deserialization",
    "fixture", "in sync", "module's test file", "module test file", "different module",
    "module they exercise", "module boundary", "versioned schema", "versioned protocol",
    "versioned contract", "versioned compatibility", "version schema", "version protocol",
    "version contract", "version compatibility", "api version", "protocol version",
    "schema version"]

def hasProjectContractSignal (lower : Text) : Bool := containsAny lower projectContractSignals

/-- Code in backticks, a path, or an identifier in mixed case or with underscores. -/
def hasNamedCodeAnchor (text : Text) : Bool := text.any (fun c => c.toNat = 96 || c = '/') ||
    (text.splitOnP fun c => !(c.isAlphanum || c = '_')).any fun token =>
      5 ≤ token.length &&
        ((token.any Char.isLower && token.any Char.isUpper) || token.any (· = '_'))

def strongRationales : List String :=
  ["because", " so ", "otherwise", "break", "miss", "stale", "regression", "contract", "in sync"]

def ruleIsObviousLowValue (title rule : Text) : Bool :=
  let text := title ++ ('\n' :: rule)
  let lower := toAsciiLowercase text
  let commonPlatform := hasCommonPlatformKnowledge lower
  if !hasObviousDefaultAction lower && !commonPlatform then false
  else
    let projectContract := hasProjectContractSignal lower
    if commonPlatform && !projectContract then true
    else !(hasNamedCodeAnchor text && (projectContract || containsAny lower strongRationales))

def curatorRuleIsSafe (title rule : Text) : Bool :=
  let title := trim title
  let rule := trim rule
  let text := toAsciiLowercase (title ++ ('\n' :: rule))
  (8 ≤ title.length && title.length ≤ 140) && (40 ≤ rule.length && rule.length ≤ 1200) &&
    !containsAny text ["?", "could we", "do we really", "after all", "reviewer said",
      "source evidence"] &&
    !ruleIsObviousLowValue title rule &&
    containsAny text ["use ", "avoid ", "prefer ", "do not ", "don't ", "replace ", "call ",
      "extract ", "inline ", "centralize ", "preserve ", "keep "]

end Difflore.Memory

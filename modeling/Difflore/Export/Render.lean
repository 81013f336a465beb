import Difflore.Context.SkillWrites
import Difflore.Foundation.Lines

/-! # Rendering the exported rules

The text of one rule, the body of an export and the block with its header, as they are written
into agent context files.
-/

namespace Difflore.Export

open Foundation Text Infra Context

/-- `ExportRule`, with the fields a package reads. -/
structure CollectedRule where
  id : Text
  name : Text
  description : Text
  ruleType : Text
  source : Text
  origin : Text
  repoScope : Option Text
  checkPrompt : Option Text
  filePatterns : List Text

def repoScopeMatches (ruleRepoScope : Option Text) (repoScopes : List Text) : Bool :=
  ruleRepoScope.any fun scope => repoScopes.any (eqIgnoreAsciiCase scope)

def isExplicitLocalRule (source : Text) (sourceRepo : Option Text) : Bool :=
  source = localSource && sourceRepo.all fun repo => trim repo = []

def collectedRule (library : Library) (row : SkillRow) : CollectedRule where
  id := row.id
  name := row.name
  description := row.description
  ruleType := row.skillType
  source := row.source
  origin := row.origin
  repoScope := repoScopeFromSourceRepo row.sourceRepo
  checkPrompt := row.checkPrompt
  filePatterns := (row.filePatterns.bind library.jsonStrings).getD []

structure RuleExample where
  badCode : Text
  goodCode : Text
  description : Option Text

/-- One rule resolved for export; the fields no rendering reads are left out. -/
structure ExportRule where
  name : Text
  description : Text
  sourceKind : Text
  repoScope : Option Text
  checkPrompt : Option Text
  examples : List RuleExample

structure RuleExportRenderInput where
  name : Text
  sourceKind : Text
  repoScope : Option Text
  description : Text
  checkPrompt : Option Text
  examples : Option (List RuleExample)

/-! ## The drafted rule of a description -/

def splitOnce (needle s : Text) : Option (Text × Text) := (beforeFirst needle s).bind fun before =>
    (afterFirst needle s).map fun after => (before, after)

def legacyWhenTouchingRemainder (rest : Text) : Option Text :=
  match stripPrefix "`" rest with
  | some quoted =>
    (splitOnce "`" quoted).bind fun (scope, afterScope) =>
      if trim scope = [] then none
      else stripPrefix "," (trimStart afterScope)
  | none =>
    (splitOnce "," rest).bind fun (scope, afterScope) =>
      if trim scope = [] then none else some afterScope

def capitalizeFirstAscii : Text → Text
  | [] => []
  | first :: rest => (if first.isLower then first.toUpper else first) :: rest

/-- The remainder behind a legacy `When touching <path>,`, if it has one. -/
def legacyRemainder (statement : Text) : Option Text :=
  if "when touching " <+: toAsciiLowercase statement then
    (legacyWhenTouchingRemainder (statement.drop "When touching ".toList.length)).bind
      fun afterScope =>
        let stripped := trim afterScope
        if stripped = [] then none else some (capitalizeFirstAscii stripped)
  else none

def normalizeLegacyPathPrefixedRule (statement : Text) : Text :=
  (legacyRemainder (trim statement)).getD (trim statement)

def descriptionSectionAfter (description label : Text) : Option Text :=
  match stripPrefix label (trimStart description) with
  | some rest => some rest
  | none => (splitOnce ('\n' :: label) description).map fun (_, after) => trimStart after

def parseCandidateDraftedRule (description : Text) : Option Text :=
  (descriptionSectionAfter description "Rule:").bind fun after =>
    let drafted := trim ((beforeFirst "Source evidence:" after).getD after)
    if drafted = [] then none
    else some (normalizeLegacyPathPrefixedRule (" ".toList.intercalate (Text.lines drafted)))

def nonblank (s : Option Text) : Option Text := (s.map trim).filter (· ≠ [])

def ruleBody (description : Text) : Text := (nonblank (parseCandidateDraftedRule description)).getD
    (trim (normalizeLegacyPathPrefixedRule description))

def learnedFrom (repoScope : Option Text) : Text :=
  match nonblank repoScope with
  | some scope => " ← learned from " ++ scope
  | none => []

def bodySection (body : Text) : Text :=
  if body = [] then "_(no rule body)_\n" else body ++ "\n"

def checkSection (checkPrompt : Option Text) : Text :=
  match nonblank checkPrompt with
  | some check => "\n**Check prompt:** " ++ (check ++ "\n")
  | none => []

def exampleDescription (description : Option Text) : Text :=
  match nonblank description with
  | some desc => "\n" ++ (desc ++ "\n")
  | none => []

def exampleSection (ex : RuleExample) : Text :=
  "\n❌ Bad:\n```\n" ++ (ex.badCode ++ ("\n```\n\n✅ Good:\n```\n" ++
    (ex.goodCode ++ ("\n```\n" ++ exampleDescription ex.description))))

def examplesSection (examples : Option (List RuleExample)) : Text :=
  match examples.filter (¬ ·.isEmpty) with
  | some examples => "\n### Examples\n" ++ examples.flatMap exampleSection
  | none => []

def renderRuleExport (input : RuleExportRenderInput) : Text :=
  "## " ++ (input.name ++ (learnedFrom input.repoScope ++ ("\n\n" ++
    ("Review source: " ++ (input.sourceKind ++ ("\n\n" ++
      (bodySection (ruleBody input.description) ++
        (checkSection input.checkPrompt ++ examplesSection input.examples))))))))

def reviewSearchRulesInstruction : Text :=
  "When reviewing code, query difflore's `search_rules` MCP tool for each changed file - " ++
    "matched team rules are authoritative review criteria."

def preSubmitGateInstruction : Text :=
  "Before committing, pushing, or opening a PR, run `difflore review --diff all` " ++
    "and fix rule-backed findings first."

def instructions : Text :=
  reviewSearchRulesInstruction ++ ("\n" ++ (preSubmitGateInstruction ++ "\n\n"))

def renderExportRule (rule : ExportRule) : Text := renderRuleExport
    { name := rule.name
      sourceKind := rule.sourceKind
      repoScope := rule.repoScope
      description := rule.description
      checkPrompt := rule.checkPrompt
      examples := if rule.examples = [] then none else some rule.examples }

def noRulesText : Text := "_No DiffLore rules are in scope for this repo yet. " ++
    "Run `difflore import-reviews` to capture review rules._\n"

def renderExportBody (rules : List ExportRule) : Text :=
  if rules = [] then instructions ++ noRulesText
  else instructions ++ "\n---\n\n".toList.intercalate (rules.map renderExportRule)

structure ExportBlockMeta where
  toolVersion : Text
  generatedAtUtc : Text
  ruleCount : Nat
  repoScopes : List Text
  localOnly : Bool

def exportContentHash (sha1 : Text → List UInt8) (body : Text) : Text :=
  ((sha1 body).take 6).flatMap hexByte

def beginMarker : Text := "<!-- BEGIN DIFFLORE RULES -->"

def endMarker : Text := "<!-- END DIFFLORE RULES -->"

def scopeLabel (blockMeta : ExportBlockMeta) : Text :=
  if blockMeta.repoScopes = [] then "(no git remote detected)"
  else ", ".toList.intercalate blockMeta.repoScopes

def modeSegment (blockMeta : ExportBlockMeta) : Text :=
  if blockMeta.localOnly then " | mode: local-only" else []

def editNotice : Text := " - do not edit between the BEGIN/END DIFFLORE RULES markers; " ++
    "the next export overwrites this section. -->\n<!-- generated-at: "

def snapshotNotice : Text :=
  "\n<!-- Static snapshot: it goes stale as team rules evolve. Run " ++
    "`difflore agents install` for live diff-aware rule injection. -->\n\n# DiffLore team rules\n\n"

def blockHeader (sha1 : Text → List UInt8) (blockMeta : ExportBlockMeta) (body : Text) : Text :=
  "\n<!-- AUTO-GENERATED by difflore export v" ++ (blockMeta.toolVersion ++
  (editNotice ++
    (blockMeta.generatedAtUtc ++ (" | rules: " ++ (Nat.toDigits 10 blockMeta.ruleCount ++
  (" | content-hash: " ++ (exportContentHash sha1 body ++ (" | repo-scope: " ++
  (scopeLabel blockMeta ++ (modeSegment blockMeta ++ (" -->" ++
  snapshotNotice)))))))))))

def buildExportBlock (sha1 : Text → List UInt8) (blockMeta : ExportBlockMeta) (body : Text) :
    Text :=
  beginMarker ++ (blockHeader sha1 blockMeta body ++ (body ++ ("\n" ++ endMarker)))

end Difflore.Export

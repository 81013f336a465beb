import Difflore.Context.RememberHash
import Difflore.Export.Writeback

/-! # Rule packages

A package holds the exported rules with a manifest and the hashes of both. It is one JSON
file, or a directory with the manifest and a Markdown file for each rule, whose heading and
body can be edited. A file is named by its components below the directory.
-/

namespace Difflore.Package

open Foundation Text Infra Context Export

def packageSchemaVersion : Text := "difflore.rule-package.v1"

def ruleSchemaVersion : Text := "difflore.rule.v1"

def packageVersion : Nat := 1

def hashAlgorithm : Text := "sha1"

def manifestFile : Text := "manifest.json"

def rulesDir : Text := "rules"

def mdMetaStart : Text := "<!-- difflore-rule"

def mdMetaEnd : Text := "-->"

inductive PackageFormat
  | json
  | markdown
  deriving DecidableEq

structure PackageManifest where
  packageId : Text
  exportedAtUtc : Text
  diffloreVersion : Text
  format : PackageFormat
  repoScopes : List Text
  ruleCount : Nat
  totalRules : Nat
  truncated : Bool
  hashAlgorithm : Text
  deriving DecidableEq

structure PackageRule where
  schemaVersion : Text
  version : Nat
  id : Text
  name : Text
  description : Text
  ruleType : Text
  source : Text
  origin : Text
  sourceRepo : Option Text
  checkPrompt : Option Text
  filePatterns : List Text
  hash : Text
  path : Option Text
  deriving DecidableEq

structure MemoryPackage where
  schemaVersion : Text
  version : Nat
  hash : Text
  manifest : PackageManifest
  rules : List PackageRule
  deriving DecidableEq

structure MarkdownRuleMeta where
  schemaVersion : Text
  version : Nat
  id : Text
  ruleType : Text
  source : Text
  origin : Text
  sourceRepo : Option Text
  checkPrompt : Option Text
  filePatterns : List Text
  hash : Text

structure RuleHashMaterial where
  schemaVersion : Text
  version : Nat
  id : Text
  name : Text
  description : Text
  ruleType : Text
  source : Text
  origin : Text
  sourceRepo : Option Text
  checkPrompt : Option Text
  filePatterns : List Text
  path : Option Text

/-- The JSON printers and parsers of the records, beside those of lists of strings. -/
structure Formats extends RememberLibrary where
  printPackage : MemoryPackage → Text
  parsePackage : Text → Except Text MemoryPackage
  printMeta : MarkdownRuleMeta → Text
  parseMeta : Text → Except Text MarkdownRuleMeta
  printRuleMaterial : RuleHashMaterial → Text
  printPackageMaterial : PackageManifest → List RuleHashMaterial → Text

def normalizeFilePatterns (patterns : List Text) : List Text := sortedPatterns patterns

def RuleHashMaterial.fromRule (rule : PackageRule) : RuleHashMaterial where
  schemaVersion := rule.schemaVersion
  version := rule.version
  id := trim rule.id
  name := trim rule.name
  description := trim rule.description
  ruleType := trim rule.ruleType
  source := trim rule.source
  origin := trim rule.origin
  sourceRepo := rule.sourceRepo.map trim
  checkPrompt := rule.checkPrompt.map trim
  filePatterns := normalizeFilePatterns rule.filePatterns
  path := rule.path

variable (formats : Formats)

def hashJson (json : Text) : Text := "sha1:" ++ formats.sha1Hex json

def ruleHash (rule : PackageRule) : Text :=
  hashJson formats (formats.printRuleMaterial (.fromRule rule))

def packageHash (manifest : PackageManifest) (rules : List PackageRule) : Text :=
  hashJson formats (formats.printPackageMaterial manifest (rules.map .fromRule))

/-- The loop of `slugify`, which ends when 64 characters are there. -/
def slugifyFrom (out : Text) (lastDash : Bool) : Text → Text
  | [] => out
  | c :: rest =>
    let dash := !c.isAlphanum
    let out := if c.isAlphanum then out ++ [c.toLower]
      else if lastDash then out else out ++ ['-']
    if 64 ≤ out.length then out else slugifyFrom out dash rest

def slugify (value : Text) : Text := trimMatches (· = '-') (slugifyFrom [] false value)

def slugOrId (name id : Text) : Text :=
  let slug := slugify name
  if slug = [] then slugify id else slug

/-- `{:03}`. -/
def threeDigits (n : Nat) : Text :=
  let digits := Nat.toDigits 10 n
  List.replicate (3 - digits.length) '0' ++ digits

def ruleFileName (index : Nat) (rule : CollectedRule) : Text :=
  threeDigits (index + 1) ++ ('-' :: (slugOrId rule.name rule.id ++ ".md"))

def packageRuleFromExport (format : PackageFormat) (index : Nat) (rule : CollectedRule) :
    PackageRule where
  schemaVersion := ruleSchemaVersion
  version := packageVersion
  id := rule.id
  name := rule.name
  description := rule.description
  ruleType := rule.ruleType
  source := rule.source
  origin := rule.origin
  sourceRepo := rule.repoScope
  checkPrompt := rule.checkPrompt
  filePatterns := rule.filePatterns
  hash := []
  path := if format = .markdown then some (rulesDir ++ ('/' :: ruleFileName index rule)) else none

def PackageRule.withHash (rule : PackageRule) : PackageRule :=
  { rule with hash := ruleHash formats rule }

def packageRules (format : PackageFormat) (rules : List CollectedRule) : List PackageRule :=
  (rules.mapIdx fun index rule => packageRuleFromExport format index rule).map
    (PackageRule.withHash formats)

def buildPackage (diffloreVersion exportedAtUtc : Text) (rules : List CollectedRule)
    (repoScopes : List Text) (totalRules : Nat) (format : PackageFormat) : MemoryPackage :=
  let packageRules := packageRules formats format rules
  let manifest : PackageManifest :=
    { packageId := "difflore-rules-" ++ (formats.sha1Hex exportedAtUtc).take 12
      exportedAtUtc
      diffloreVersion
      format
      repoScopes
      ruleCount := packageRules.length
      totalRules
      truncated := packageRules.length < totalRules
      hashAlgorithm }
  { schemaVersion := packageSchemaVersion
    version := packageVersion
    hash := packageHash formats manifest packageRules
    manifest
    rules := packageRules }

abbrev Disk := List Text → Option Text

inductive Target
  | file (raw : Text)
  | directory (disk : Disk)

def MarkdownRuleMeta.fromRule (rule : PackageRule) : MarkdownRuleMeta where
  schemaVersion := ruleSchemaVersion
  version := packageVersion
  id := rule.id
  ruleType := rule.ruleType
  source := rule.source
  origin := rule.origin
  sourceRepo := rule.sourceRepo
  checkPrompt := rule.checkPrompt
  filePatterns := rule.filePatterns
  hash := rule.hash

def escapedMetaEnd : Text := "--\\u003e"

/-- `str::replace` of the end of a comment. -/
def markdownCommentSafeJson : Text → Text
  | '-' :: '-' :: '>' :: rest => escapedMetaEnd ++ markdownCommentSafeJson rest
  | c :: rest => c :: markdownCommentSafeJson rest
  | [] => []

def renderRuleMarkdown (rule : PackageRule) : Text :=
  mdMetaStart ++ ('\n' :: (markdownCommentSafeJson (formats.printMeta (.fromRule rule)) ++
    ('\n' :: (mdMetaEnd ++ ("\n\n# " ++ (trim rule.name ++
      ("\n\n" ++ (trim rule.description ++ ['\n']))))))))

/-- `Path::components`, for a path without a prefix. -/
inductive Component
  | rootDir
  | curDir
  | parentDir
  | normal (name : Text)

def dot : Text := ['.']

def dotDot : Text := ['.', '.']

def components (path : Text) : List Component :=
  let names := path.splitOn '/'
  let root := if path.head? = some '/' then [Component.rootDir] else []
  let first := if names.head? = some dot then [Component.curDir] else []
  root ++ (first ++ (names.filter fun name => name ≠ [] && name ≠ dot).map fun name =>
    if name = dotDot then .parentDir else .normal name)

def absolutePathError (relative : Text) : Text :=
  "package path " ++ (quoted relative ++ " must be relative")

def foreignPathError (relative : Text) : Text := "package path " ++ (quoted relative ++
    (" must stay under " ++ quoted (rulesDir ++ ['/'])))

def escapingPathError (relative : Text) : Text := "package path " ++ (quoted relative ++
    " must not contain parent, root, or prefix components")

def normalNames : List Component → Option (List Text)
  | [] => some []
  | .normal name :: rest => (normalNames rest).map (name :: ·)
  | _ :: _ => none

def packageRelativePath (relative : Text) : Except Text (List Text) :=
  if relative.head? = some '/' then .error (absolutePathError relative)
  else match components relative with
    | .normal first :: rest =>
      if first = rulesDir then
        match normalNames rest with
        | some names => .ok (first :: names)
        | none => .error (escapingPathError relative)
      else .error (foreignPathError relative)
    | _ => .error (foreignPathError relative)

def Disk.write (disk : Disk) (path : List Text) (body : Text) : Disk :=
  fun other => if other = path then some body else disk other

def missingMarkdownPath (rule : PackageRule) : Text :=
  "rule " ++ (quoted rule.id ++ " is missing markdown path")

def packageJson (package : MemoryPackage) : Text := formats.printPackage package ++ ['\n']

def writeRule (disk : Disk) (rule : PackageRule) : Except Text Disk :=
  match rule.path with
  | none => .error (missingMarkdownPath rule)
  | some relative => do
      let path ← packageRelativePath relative
      return disk.write path (renderRuleMarkdown formats rule)

def writeMarkdownDir (package : MemoryPackage) : Except Text Disk :=
  package.rules.foldlM (writeRule formats)
    (Disk.write (fun _ => none) [manifestFile] (packageJson formats package))

def writePackage (package : MemoryPackage) : PackageFormat → Except Text Target
  | .json => .ok (.file (packageJson formats package))
  | .markdown => (writeMarkdownDir formats package).map .directory

structure ParsedPackage where
  package : MemoryPackage
  currentHash : Text

def ParsedPackage.changedSinceExport (parsed : ParsedPackage) : Bool :=
  parsed.currentHash ≠ parsed.package.hash

def PackageRule.fillHash (rule : PackageRule) : PackageRule :=
  if trim rule.hash = [] then rule.withHash formats else rule

def readJsonPackage (raw : Text) : Except Text ParsedPackage := do
  let package ← formats.parsePackage raw
  let package := { package with rules := package.rules.map (PackageRule.fillHash formats) }
  return ⟨package, packageHash formats package.manifest package.rules⟩

def fileError (problem relativePath : Text) : Text :=
  "rule file " ++ (quoted relativePath ++ (' ' :: problem))

def validateRuleMeta (ruleMeta : MarkdownRuleMeta) (relativePath : Text) : Except Text Unit :=
  if ruleMeta.schemaVersion ≠ ruleSchemaVersion then
    .error (fileError ("has unsupported schemaVersion " ++ quoted ruleMeta.schemaVersion)
      relativePath)
  else if ruleMeta.version ≠ packageVersion then
    .error (fileError ("has unsupported version " ++
      quoted (Nat.toDigits 10 ruleMeta.version)) relativePath)
  else if trim ruleMeta.id = [] then
    .error (fileError "has an empty id" relativePath)
  else .ok ()

def titlePrefix : Text := ['#', ' ']

def parseMarkdownTitleAndBody (raw relativePath : Text) : Except Text (Text × Text) :=
  match (Text.lines raw).dropWhile (fun line => trim line = []) with
  | [] => .error (fileError "is missing a markdown title" relativePath)
  | titleLine :: rest =>
    match stripPrefix titlePrefix (trim titleLine) with
    | none => .error (fileError "must put the editable title in a `# ` heading"
        relativePath)
    | some heading =>
      let title := trim heading
      let description := trim (['\n'].intercalate rest)
      if title = [] then .error (fileError "has an empty title" relativePath)
      else if description = [] then .error (fileError "has an empty body" relativePath)
      else .ok (title, description)

def parseRuleMarkdown (raw relativePath : Text) : Except Text PackageRule := do
  let some afterStart := afterFirst mdMetaStart raw
    | throw (fileError "is missing difflore metadata comment" relativePath)
  let some metaRaw := beforeFirst mdMetaEnd afterStart
    | throw (fileError "has an unterminated metadata comment" relativePath)
  let ruleMeta ← (formats.parseMeta (trim metaRaw)).mapError fun err =>
    fileError ("has invalid metadata: " ++ err) relativePath
  validateRuleMeta ruleMeta relativePath
  let body := (afterStart.drop (metaRaw.length + mdMetaEnd.length)).dropWhile (· ∈ ['\r', '\n'])
  let (name, description) ← parseMarkdownTitleAndBody body relativePath
  let rule : PackageRule :=
    { schemaVersion := ruleMeta.schemaVersion
      version := ruleMeta.version
      id := ruleMeta.id
      name
      description
      ruleType := ruleMeta.ruleType
      source := ruleMeta.source
      origin := ruleMeta.origin
      sourceRepo := ruleMeta.sourceRepo
      checkPrompt := ruleMeta.checkPrompt
      filePatterns := ruleMeta.filePatterns
      hash := ruleMeta.hash
      path := some relativePath }
  return rule.withHash formats

def missingFile (path : List Text) : Text := "failed to read " ++ quoted (['/'].intercalate path)

def Disk.read (disk : Disk) (path : List Text) : Except Text Text :=
  match disk path with
  | some raw => .ok raw
  | none => .error (missingFile path)

def otherIdError (relative declared expected : Text) : Text :=
  fileError ("declares id " ++ (quoted declared ++ (" but manifest expects " ++
    quoted expected))) relative

def missingManifestPath (rule : PackageRule) : Text :=
  "manifest rule " ++ (quoted rule.id ++ " is missing path")

def readRule (disk : Disk) (manifestRule : PackageRule) : Except Text PackageRule :=
  match manifestRule.path with
  | none => .error (missingManifestPath manifestRule)
  | some relative => do
      let path ← packageRelativePath relative
      let raw ← disk.read path
      let parsed ← parseRuleMarkdown formats raw relative
      if parsed.id ≠ manifestRule.id then throw (otherIdError relative parsed.id manifestRule.id)
      return PackageRule.withHash formats { parsed with path := some relative }

def readMarkdownPackage (disk : Disk) : Except Text ParsedPackage := do
  let raw ← disk.read [manifestFile]
  let package ← formats.parsePackage raw
  let rules ← package.rules.mapM (readRule formats disk)
  let package := { package with rules }
  return ⟨package, packageHash formats package.manifest package.rules⟩

def readPackage : Target → Except Text ParsedPackage
  | .file raw => readJsonPackage formats raw
  | .directory disk => readMarkdownPackage formats disk

/-! ## Validation -/

def ruleError (rule : PackageRule) (problem : Text) : Text :=
  "rule " ++ (quoted rule.id ++ (' ' :: problem))

def validateRule (rule : PackageRule) : Except Text Unit :=
  if rule.schemaVersion ≠ ruleSchemaVersion then
    .error (ruleError rule ("has unsupported schemaVersion " ++ quoted rule.schemaVersion))
  else if rule.version ≠ packageVersion then
    .error (ruleError rule ("has unsupported version " ++ quoted (Nat.toDigits 10 rule.version)))
  else if trim rule.id = [] then .error "package contains a rule with an empty id"
  else if trim rule.name = [] then .error (ruleError rule "has an empty name")
  else if trim rule.description = [] then
    .error (ruleError rule "has an empty description")
  else .ok ()

def duplicateIdError (id : Text) : Text := "duplicate rule id " ++ (quoted id ++ " in package")

def validateRules (seen : List Text) : List PackageRule → Except Text Unit
  | [] => .ok ()
  | rule :: rest => do
      validateRule rule
      if rule.id ∈ seen then throw (duplicateIdError rule.id)
      validateRules (rule.id :: seen) rest

theorem validateRules_eq_ok {seen : List Text} {rules : List PackageRule} :
    validateRules seen rules = .ok () ↔ (rules.map PackageRule.id).Nodup ∧
      (∀ rule ∈ rules, rule.id ∉ seen) ∧ ∀ rule ∈ rules, validateRule rule = .ok () := by
  induction rules generalizing seen with
  | nil => simp [validateRules]
  | cons rule rest ih =>
    rw [validateRules, List.map_cons, List.nodup_cons, List.forall_mem_cons, List.forall_mem_cons]
    cases hrule : validateRule rule with
    | error err => simp [bind, Except.bind]
    | ok _ =>
      by_cases hseen : rule.id ∈ seen
      · simp [hseen, bind, Except.bind, throw, throwThe, MonadExceptOf.throw]
      · simp only [hseen, if_false, bind, Except.bind, ih, not_false_eq_true, true_and]
        constructor
        · rintro ⟨hnodup, hfresh, hvalid⟩
          refine ⟨⟨fun hmem => ?_, hnodup⟩, fun other hother hold => ?_, hvalid⟩
          · obtain ⟨other, hother, hid⟩ := List.mem_map.mp hmem
            exact hfresh other hother (hid ▸ (.head _))
          · exact hfresh other hother (.tail _ hold)
        · rintro ⟨⟨hfirst, hnodup⟩, hfresh, hvalid⟩
          refine ⟨hnodup, fun other hother hmem => ?_, hvalid⟩
          rcases List.mem_cons.mp hmem with hid | hold
          · exact hfirst (hid ▸ List.mem_map_of_mem hother)
          · exact hfresh other hother hold

theorem validateRule_eq_ok {rule : PackageRule} :
    validateRule rule = .ok () ↔ rule.schemaVersion = ruleSchemaVersion ∧
      rule.version = packageVersion ∧ trim rule.id ≠ [] ∧ trim rule.name ≠ [] ∧
      trim rule.description ≠ [] := by
  unfold validateRule
  repeat' split
  all_goals simp_all

def ruleCountError (package : MemoryPackage) : Text :=
  "manifest ruleCount " ++ (Nat.toDigits 10 package.manifest.ruleCount ++
    (" does not match " ++ (Nat.toDigits 10 package.rules.length ++ " rule entries")))

def validatePackage (package : MemoryPackage) : Except Text Unit :=
  if package.schemaVersion ≠ packageSchemaVersion then
    .error ("unsupported package schemaVersion " ++ quoted package.schemaVersion)
  else if package.version ≠ packageVersion then
    .error ("unsupported package version " ++ quoted (Nat.toDigits 10 package.version))
  else if package.manifest.hashAlgorithm ≠ hashAlgorithm then
    .error ("unsupported package hash algorithm " ++ quoted package.manifest.hashAlgorithm)
  else if package.manifest.ruleCount ≠ package.rules.length then
    .error (ruleCountError package)
  else validateRules [] package.rules

theorem validatePackage_eq_ok {package : MemoryPackage} :
    validatePackage package = .ok () ↔ package.schemaVersion = packageSchemaVersion ∧
      package.version = packageVersion ∧ package.manifest.hashAlgorithm = hashAlgorithm ∧
      package.manifest.ruleCount = package.rules.length ∧
      (package.rules.map PackageRule.id).Nodup ∧
      ∀ rule ∈ package.rules, validateRule rule = .ok () := by
  have hunseen : ∀ rule ∈ package.rules, rule.id ∉ [] := fun _ _ => List.not_mem_nil
  unfold validatePackage
  repeat' split
  all_goals simp_all [validateRules_eq_ok]

def normalizeOptional (value : Option Text) : Option Text := (value.map trim).filter (· ≠ [])

def parseFilePatterns (raw : Option Text) : List Text :=
  ((raw.bind formats.jsonStrings).map normalizeFilePatterns).getD []

inductive ChangedField
  | name
  | description
  | checkPrompt
  | filePatterns
  deriving DecidableEq

def changedFields (existing : SkillRow) (rule : PackageRule) : List ChangedField :=
  (if existing.name ≠ rule.name then [.name] else []) ++
    ((if existing.description ≠ rule.description then [.description] else []) ++
      ((if normalizeOptional existing.checkPrompt ≠ normalizeOptional rule.checkPrompt then
          [.checkPrompt] else []) ++
        if parseFilePatterns formats existing.filePatterns ≠
            normalizeFilePatterns rule.filePatterns then [.filePatterns] else []))

theorem flag_eq_nil {condition : Prop} [Decidable condition] {field : ChangedField} :
    (if ¬ condition then [field] else []) = [] ↔ condition := by
  split
  next hchanged => exact iff_of_false (List.cons_ne_nil _ _) hchanged
  next hsame => exact iff_of_true rfl (not_not.mp hsame)

theorem changedFields_eq_nil {existing : SkillRow} {rule : PackageRule} :
    changedFields formats existing rule = [] ↔
      existing.name = rule.name ∧ existing.description = rule.description ∧
        normalizeOptional existing.checkPrompt = normalizeOptional rule.checkPrompt ∧
        parseFilePatterns formats existing.filePatterns =
          normalizeFilePatterns rule.filePatterns := by
  rw [changedFields, List.append_eq_nil_iff, List.append_eq_nil_iff, List.append_eq_nil_iff]
  exact and_congr flag_eq_nil (and_congr flag_eq_nil (and_congr flag_eq_nil flag_eq_nil))

end Difflore.Package

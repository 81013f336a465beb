import Difflore.Foundation.KeyedTable
import Difflore.Infra.RepoScope
import Mathlib.Data.Char
import Mathlib.Data.List.Destutter
import Mathlib.Data.List.MinMax
import Mathlib.Data.List.Sort
import Mathlib.Algebra.Order.Ring.Unbundled.Rat

/-! # The rule source

Rules are the active rows of the `skills` table. A row becomes a document: its text
with its language and the repository it is bound to. The fingerprint of the corpus is
the number of its rows and the latest `updated_at` among them; the fingerprint of a
set of rules in scope is a digest of their ids.
-/

namespace Difflore.Context

open Foundation Text Infra

/-- The libraries the rule source calls: the parser and the printer of JSON lists of
strings, and the digest of a byte string in hexadecimal. -/
structure Library where
  jsonStrings : Text → Option (List Text)
  printStrings : List Text → Text
  sha1Hex : Text → Text

/-- A time as the table stores it, `YYYY-MM-DD HH:MM:SS`, compared as text. -/
def Stamp : Type := Text
  deriving DecidableEq

instance : LinearOrder Stamp := inferInstanceAs (LinearOrder (List Char))

inductive SkillStatus
  | active
  | pending
  | disabled
  deriving DecidableEq

structure EnabledEngines where
  codex : Bool
  claude : Bool
  gemini : Bool
  cursor : Bool
  deriving DecidableEq

def noEngines : EnabledEngines := ⟨false, false, false, false⟩

/-- A row of `skills`, with the defaults of its columns. The directory, the engines, the
repository and the README of an imported skill are left out. -/
structure SkillRow where
  id : Text
  name : Text
  source : Text
  version : Text
  description : Text := []
  skillType : Text := "skill"
  tags : Text := "[]"
  trigger : Option Text := none
  checkPrompt : Option Text := none
  sourceRepo : Option Text := none
  enabled : EnabledEngines := noEngines
  confidence : Rat := 7 / 10
  filePatterns : Option Text := none
  origin : Text := "manual"
  sourceKind : Text := "human"
  contentHash : Option Text := none
  hashCreatedAt : Option Nat := none
  cloudId : Option Text := none
  capturedByClient : Option Text := none
  status : SkillStatus := .active
  installedAt : Stamp
  updatedAt : Stamp
  deriving DecidableEq

abbrev SkillTable := KeyedTable SkillRow SkillRow.id

/-! ## Documents -/

structure RuleDocument where
  skillId : Text
  title : Text
  content : Text
  filePatterns : Option Text
  language : Option Text
  repoScope : Option Text
  deriving DecidableEq

def languageTags : List Text := ["rust", "typescript", "javascript", "python", "go",
    "java", "kotlin", "swift", "ruby", "php", "cpp",
    "c++", "csharp", "c#", "c"]

def cppTag : Text := "c++"

def csharpTag : Text := "c#"

def canonicalTag (lower : Text) : Text :=
  if lower = cppTag then "cpp"
  else if lower = csharpTag then "csharp"
  else lower

def languageFromTags (library : Library) (tagsJson : Text) : Option Text :=
  let trimmed := trim tagsJson
  if trimmed = [] then none
  else (library.jsonStrings trimmed).bind fun tags =>
    tags.findSome? fun tag =>
      let lower := toAsciiLowercase (trim tag)
      if lower ∈ languageTags then some (canonicalTag lower) else none

def extensions : List (Text × List Text) := [("rust", ["rs"]), ("typescript", ["ts", "tsx"]),
    ("javascript", ["js", "jsx", "mjs", "cjs"]),
    ("python", ["py", "pyi"]),
    ("go", ["go"]),
    ("java", ["java"]),
    ("kotlin", ["kt", "kts"]),
    ("swift", ["swift"]),
    ("ruby", ["rb"]),
    ("php", ["php"]),
    ("cpp", ["cpp", "cc", "cxx", "hpp", "hh"]),
    ("c", ["c", "h"]),
    ("csharp", ["cs"])]

def extensionToLanguage (ext : Text) : Option Text :=
  (extensions.find? fun entry => ext ∈ entry.2).map Prod.fst

def ambiguousExtensions : List Text := ["c", "h", "hh"]

def languageFromPattern (pattern : Text) : Option Text :=
  (afterLast '.' (toAsciiLowercase pattern)).bind fun ext =>
    if '/' ∈ ext || '*' ∈ ext then none
    else if ext ∈ ambiguousExtensions then none
    else extensionToLanguage ext

def agreedLanguage (detect : Text → Option Text) : Option Text → List Text → Option Text
  | seen, [] => seen
  | seen, item :: rest =>
    match detect item, seen with
    | none, _ => agreedLanguage detect seen rest
    | some language, none => agreedLanguage detect (some language) rest
    | some language, some existing =>
      if existing = language then agreedLanguage detect seen rest else none

def languageFromFilePatterns (library : Library) (filePatterns : Option Text) : Option Text :=
  filePatterns.bind fun json =>
    let raw := trim json
    if raw = [] then none
    else (library.jsonStrings raw).bind fun patterns =>
      agreedLanguage languageFromPattern none patterns

def repoScopeFromSourceRepo (sourceRepo : Option Text) : Option Text :=
  sourceRepo.bind normalizeCanonicalRepoScope

def contentHead (row : SkillRow) : Text :=
  "Rule ID: " ++ (row.id ++ ("\nRule Name: " ++ (row.name ++ ("\nType: " ++ row.skillType))))

def contentTail (row : SkillRow) : Text := "\nTags: " ++ (row.tags ++ ("\n\n" ++ row.description))

def ruleContent (row : SkillRow) : Option Text → Text
  | some scope => contentHead row ++ ("\nSource: " ++ (scope ++ contentTail row))
  | none => contentHead row ++ contentTail row

def ruleDocument (library : Library) (row : SkillRow) : RuleDocument :=
  let repoScope := repoScopeFromSourceRepo row.sourceRepo
  { skillId := row.id
    title := row.name
    content := ruleContent row repoScope
    filePatterns := row.filePatterns
    language := (languageFromTags library row.tags).or
      (languageFromFilePatterns library row.filePatterns)
    repoScope }

@[simp] theorem ruleDocument_skillId (library : Library) (row : SkillRow) :
    (ruleDocument library row).skillId = row.id := rfl

@[simp] theorem ruleDocument_repoScope (library : Library) (row : SkillRow) :
    (ruleDocument library row).repoScope = repoScopeFromSourceRepo row.sourceRepo := rfl

structure TagEvidence where
  clusterSize : Option Nat := none
  malformedClusterSize : Bool := false
  severity : Option Text := none

def clusterSizeTag : Text := "cluster-size:"

def severityTag : Text := "severity:"

def TagEvidence.read (evidence : TagEvidence) (tag : Text) : TagEvidence :=
  let lower := toAsciiLowercase (trim tag)
  match stripPrefix clusterSizeTag lower with
  | some rest =>
    match parseU32 rest with
    | some size => { evidence with clusterSize := some size }
    | none => { evidence with malformedClusterSize := true }
  | none =>
    match stripPrefix severityTag lower with
    | some rest => { evidence with severity := some rest }
    | none => evidence

def TagEvidence.baseScore (evidence : TagEvidence) : Rat :=
  match evidence.clusterSize with
  | some size =>
    if size ≤ 1 then 11 / 20 else if size = 2 then 7 / 10 else if size ≤ 4 then 4 / 5 else 9 / 10
  | none => if evidence.malformedClusterSize then 2 / 5 else 7 / 10

def errorSeverity : Text := "error"

def infoSeverity : Text := "info"

def TagEvidence.score (evidence : TagEvidence) : Rat :=
  match evidence.severity with
  | none => evidence.baseScore
  | some severity =>
    if severity = errorSeverity then min (evidence.baseScore + 1 / 20) (19 / 20)
    else if severity = infoSeverity then max (evidence.baseScore - 1 / 20) (2 / 5)
    else evidence.baseScore

/-- `confidence_from_tags`, in exact arithmetic. -/
def confidenceFromTags (library : Library) (tagsJson : Text) : Option Rat :=
  let trimmed := trim tagsJson
  if trimmed = [] then none
  else (library.jsonStrings trimmed).bind fun tags =>
    let evidence := tags.foldl TagEvidence.read {}
    if evidence.clusterSize.isNone && evidence.severity.isNone &&
        !evidence.malformedClusterSize then none
    else some evidence.score

def softPreference : Text := "soft_preference"

/-- `status = 'active' AND type != 'soft_preference'`. -/
def SkillRow.served (row : SkillRow) : Bool :=
  row.status = .active && row.skillType ≠ softPreference

def servedRows (skills : SkillTable) : List SkillRow := skills.rows.filter SkillRow.served

def loadRulesFromDb (library : Library) (skills : SkillTable) : List RuleDocument :=
  (servedRows skills).map (ruleDocument library)

/-- `MAX(updated_at)`; a table without active rules has none. -/
def maxUpdatedAt (skills : SkillTable) : WithBot Stamp :=
  ((servedRows skills).map SkillRow.updatedAt).maximum

theorem loadRulesFromDb_ids_nodup (library : Library) (skills : SkillTable) :
    ((loadRulesFromDb library skills).map RuleDocument.skillId).Nodup := by
  have hids : ((loadRulesFromDb library skills).map RuleDocument.skillId) =
      (servedRows skills).map SkillRow.id := by
    simp [loadRulesFromDb, Function.comp_def]
  rw [hids]
  exact skills.nodup.sublist (List.filter_sublist.map SkillRow.id)

theorem mem_loadRulesFromDb {library : Library} {skills : SkillTable} {rule : RuleDocument} :
    rule ∈ loadRulesFromDb library skills ↔
      ∃ row ∈ skills.rows, row.served = true ∧ ruleDocument library row = rule := by
  simp [loadRulesFromDb, servedRows, and_assoc]

theorem updatedAt_le_max {skills : SkillTable} {row : SkillRow} (hrow : row ∈ skills.rows)
    (hserved : row.served = true) : (row.updatedAt : WithBot Stamp) ≤ maxUpdatedAt skills := by
  have hmem : row.updatedAt ∈ (servedRows skills).map SkillRow.updatedAt :=
    List.mem_map_of_mem (List.mem_filter.mpr ⟨hrow, hserved⟩)
  exact List.le_maximum_of_mem' hmem

def signatureInput (skillIds : List Text) : Text :=
  ((skillIds.insertionSort (· ≤ ·)).destutter (· ≠ ·)).flatMap fun id => id ++ [Char.ofNat 0]

def scopeSignatureFromSkillIds (library : Library) (skillIds : List Text) : Option Text :=
  if skillIds = [] then none else some (library.sha1Hex (signatureInput skillIds))

theorem scopeSignature_perm (library : Library) {first second : List Text}
    (hperm : first.Perm second) :
    scopeSignatureFromSkillIds library first = scopeSignatureFromSkillIds library second := by
  have hsorted : first.insertionSort (· ≤ ·) = second.insertionSort (· ≤ ·) := by
    have hantisymm : ∀ a b, a ∈ first.insertionSort (· ≤ ·) →
        b ∈ second.insertionSort (· ≤ ·) → a ≤ b → b ≤ a → a = b :=
      fun a b _ _ hab hba => le_antisymm hab hba
    apply List.Perm.eq_of_pairwise hantisymm
    · exact List.pairwise_insertionSort (· ≤ ·) first
    · exact List.pairwise_insertionSort (· ≤ ·) second
    · exact ((List.perm_insertionSort _ _).trans hperm).trans (List.perm_insertionSort _ _).symm
  have hnil : first = [] ↔ second = [] := by
    rw [← List.length_eq_zero_iff, hperm.length_eq, List.length_eq_zero_iff]
  simp only [scopeSignatureFromSkillIds, signatureInput, hsorted, hnil]

theorem scopeSignature_eq_none {library : Library} {skillIds : List Text} :
    scopeSignatureFromSkillIds library skillIds = none ↔ skillIds = [] := by
  unfold scopeSignatureFromSkillIds
  split <;> simp_all

end Difflore.Context

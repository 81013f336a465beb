import Difflore.Foundation.Occurrence
import Mathlib.Data.List.Dedup
import Mathlib.Data.List.Sort

/-! # What an agent says it changed

The paths that a text names, against the changed files.
-/

namespace Difflore.Observability

open Foundation Text

def trimDotSlash : Text → Text
  | '.' :: '/' :: rest => trimDotSlash rest
  | s => s

def normalise (path : Text) : Text := trimDotSlash (path.map fun c => if c = '\\' then '/' else c)

def trimPunctuation (word : Text) : Text := word.rdropWhile (· ∈ [',', '.', ';', ':'])

def stripQuotes (word : Text) : Text := trimMatches (· ∈ [Char.ofNat 0x60, '*', '"', '\'']) word

def isExtension (ext : Text) : Bool := ext ≠ [] && ext.length ≤ 6 && ext.all Char.isAlphanum

def hasExtension (word : Text) : Bool :=
  (afterLast '.' (stripQuotes (trimPunctuation word))).any isExtension

def knownExtensions : List Text :=
  ["rs", "ts", "tsx", "js", "jsx", "mjs", "cjs", "py", "go", "java", "kt", "rb", "php", "c", "h",
    "cpp", "hpp", "cc", "hh", "cs", "swift", "scala", "sh", "bash", "zsh", "fish", "ps1", "sql",
    "lua", "vim", "nu", "exs", "ex", "erl", "json", "yaml", "yml", "toml", "xml", "csv", "tsv",
    "ini", "conf", "env", "lock", "mod", "sum", "properties", "md", "mdx", "txt", "rst", "adoc",
    "html", "htm", "css", "scss", "sass", "less", "vue", "svelte", "Makefile", "Dockerfile",
    "gradle", "bzl", "bazel", "png", "jpg", "jpeg", "svg", "gif", "webp", "ico"].map String.toList

def hasKnownFileExt (word : Text) : Bool :=
  (afterLast '.' (stripQuotes (trimPunctuation word))).any fun ext =>
    knownExtensions.any (eqIgnoreAsciiCase · ext)

def outsideStarts : List Text :=
  ["~/", "$HOME", "/home/", "/Users/", "/etc/", "/usr/", "/var/"].map String.toList

def isOutOfTree (claim : Text) : Bool := outsideStarts.any (· <+: claim) ||
    match claim with
    | '/' :: drive :: '/' :: _ :: _ => drive.isAlpha
    | drive :: ':' :: c :: _ => drive.isAlpha && (c = '/' || c = '\\')
    | _ => false

def artifactExtensions : List Text :=
  ["exe", "dll", "so", "dylib", "a", "o", "obj", "lib", "pdb", "wasm", "class", "jar", "pyc",
    "pyo"].map String.toList

def isBinaryArtifact (claim : Text) : Bool :=
  (afterLast '.' (trimPunctuation (stripQuotes claim))).any
    (toAsciiLowercase · ∈ artifactExtensions)

def looksLikeFilename (s : Text) : Bool :=
  (rsplitOnce ['.'] s).any fun (name, ext) => name ≠ [] && isExtension ext

def tokenise (text : Text) : List Text :=
  (text.splitOnP fun c => isWhitespace c || c ∈ ['(', ')', ',', ';']).filter (· ≠ [])

def assigned (word : Text) : Text :=
  match word.dropWhile (· ≠ '=') with
  | '=' :: c :: rest => if c = '\'' || c = '"' then c :: rest else word
  | _ => word

def explicitPaths (text : Text) : List Text := (tokenise text).filterMap fun word =>
    let body := assigned word
    if '/' ∈ body && hasExtension body then some (stripQuotes (trimPunctuation body)) else none

/-- The runs between two delimiters. An open run is what was read of it. -/
def delimitedRuns (delim : Char) : Option Text → Text → List Text
  | _, [] => []
  | none, c :: rest => delimitedRuns delim (if c = delim then some [] else none) rest
  | some run, c :: rest =>
    if c = delim then run :: delimitedRuns delim none rest
    else delimitedRuns delim (some (run ++ [c])) rest

def splitBold (current : Text) : Text → List Text
  | [] => [current]
  | '*' :: '*' :: rest => current :: splitBold [] rest
  | c :: rest => splitBold (current ++ [c]) rest

def iterQuotedRuns (text : Text) : List Text :=
  ([Char.ofNat 0x60, '"', '\''].flatMap (delimitedRuns · none text) ++
    ((splitBold [] text).zipIdx.filter (·.2 % 2 = 1)).map Prod.fst).filter (· ≠ [])

def quotedNames (text : Text) : List Text :=
  (iterQuotedRuns text).flatMap fun run => (splitWhitespace run).filterMap fun word =>
    if hasKnownFileExt word && '/' ∉ word then
      some (stripQuotes (trimPunctuation word)) |>.filter (· ≠ [])
    else none

def wellKnownNames : List Text :=
  ["go.mod", "go.sum", "package.json", "pnpm-lock.yaml", "Cargo.toml", "Cargo.lock",
    "tsconfig.json", "Makefile"].map String.toList

def extractClaimedPaths (text : Text) : List Text :=
  explicitPaths text ++ quotedNames text ++ wellKnownNames.filter (· <:+: text)

/-! ## The comparison -/

inductive Severity
  | hallucination
  | partialMismatch

structure Finding where
  severity : Severity
  claimed : List Text
  actual : List Text
  missingFromDiff : List Text

def orderedSet (texts : List Text) : List Text := texts.dedup.insertionSort (· ≤ ·)

variable (actual expected : List Text) (claim : Text)

def isExempt : Bool := isOutOfTree claim || isBinaryArtifact claim

def endsIn (path : Text) : Bool := path = claim || '/' :: claim <:+ path

def claimedPath : Option Text :=
  if isExempt claim then none
  else if claim ∈ actual || claim ∈ expected then some claim
  else ((actual ++ expected).find? (endsIn claim)).or
    (if '/' ∈ claim || looksLikeFilename claim then some claim else none)

def validate (claimText : Text) (actual expectedHint : List Text) : Option Finding :=
  let actual := orderedSet (actual.map normalise)
  let expected := orderedSet (expectedHint.map normalise)
  let claimed := orderedSet
    ((extractClaimedPaths claimText).filterMap (claimedPath actual expected))
  let missing := claimed.filter (· ∉ actual)
  if missing = [] then none
  else some
    { severity := if actual = [] then .hallucination else .partialMismatch
      claimed
      actual
      missingFromDiff := missing }

/-- Whether the claim is given up or found among the changed files. -/
def passes : Bool :=
  isExempt claim || claim ∈ actual || claim ∉ expected && (actual.any (endsIn claim) ||
    !expected.any (endsIn claim) && '/' ∉ claim && !looksLikeFilename claim)

variable {actual expected claim} {text : Text}

@[simp] theorem mem_orderedSet {texts : List Text} : claim ∈ orderedSet texts ↔ claim ∈ texts := by
  rw [orderedSet, List.mem_insertionSort, List.mem_dedup]

theorem claimedPath_mem_iff : (∀ path ∈ claimedPath actual expected claim, path ∈ actual) ↔
      passes actual expected claim = true := by
  rw [claimedPath, passes]
  cases hexempt : isExempt claim with
  | true => simp
  | false =>
    rw [if_neg Bool.false_ne_true, Bool.false_or]
    by_cases hactual : claim ∈ actual
    · simp [hactual]
    by_cases hexpected : claim ∈ expected
    · simp [hactual, hexpected]
    simp only [hactual, hexpected, decide_false, Bool.or_self, Bool.false_eq_true, if_false,
      Bool.false_or, decide_not, Bool.not_false, Bool.true_and, List.find?_append]
    cases hfound : actual.find? (endsIn claim) with
    | some path =>
      have hany : actual.any (endsIn claim) = true :=
        List.any_eq_true.mpr ⟨path, List.mem_of_find?_eq_some hfound, List.find?_some hfound⟩
      simp [hany, List.mem_of_find?_eq_some hfound]
    | none =>
      have hnone := List.find?_eq_none.mp hfound
      have hany : actual.any (endsIn claim) = false := by simpa using hnone
      rw [hany]
      cases hhint : expected.find? (endsIn claim) with
      | some path =>
        -- A path of the hint is named instead, and it is not among the changed ones.
        have hends := List.find?_some hhint
        have hexpected : expected.any (endsIn claim) = true :=
          List.any_eq_true.mpr ⟨path, List.mem_of_find?_eq_some hhint, hends⟩
        have hmissing : path ∉ actual := fun hmem => hnone path hmem hends
        simp [hexpected, hmissing]
      | none =>
        have hexpected : expected.any (endsIn claim) = false := by
          simpa using List.find?_eq_none.mp hhint
        by_cases hslash : '/' ∈ claim
        · simp [hslash, hactual]
        · cases hname : looksLikeFilename claim with
          | true => simp [hactual]
          | false => simp [hslash, hexpected]

theorem validate_eq_none_iff {hint : List Text} :
    validate text actual hint = none ↔ ∀ claim ∈ extractClaimedPaths text,
      passes (actual.map normalise) (hint.map normalise) claim = true := by
  have hpasses : ∀ claim, passes (orderedSet (actual.map normalise))
      (orderedSet (hint.map normalise)) claim =
        passes (actual.map normalise) (hint.map normalise) claim := by
    intro claim
    have hany : ∀ texts p, (orderedSet texts).any p = texts.any p := by
      intro texts p
      rw [Bool.eq_iff_iff, List.any_eq_true, List.any_eq_true]
      simp only [mem_orderedSet]
    simp only [passes, hany, mem_orderedSet]
  simp only [validate, ite_eq_left_iff, reduceCtorEq, imp_false, not_not, ← hpasses,
    ← claimedPath_mem_iff, List.filter_eq_nil_iff, mem_orderedSet, List.mem_filterMap]
  constructor
  · intro hnone claim hclaim path hpath
    have hmem := hnone path ⟨claim, hclaim, hpath⟩
    simpa using hmem
  · rintro hall path ⟨claim, hclaim, hpath⟩
    simpa using hall claim hclaim path hpath

structure Finding.Sound (finding : Finding) (actual : List Text) : Prop where
  claimed : ∀ path ∈ finding.missingFromDiff, path ∈ finding.claimed
  missing : ∀ path ∈ finding.missingFromDiff, path ∉ actual.map normalise
  severity : finding.severity = .hallucination ↔ actual = []

theorem sound_of_validate {hint : List Text} {finding : Finding}
    (hfinding : validate text actual hint = some finding) : finding.Sound actual := by
  simp only [validate, Option.ite_none_left_eq_some, Option.some.injEq] at hfinding
  obtain ⟨-, rfl⟩ := hfinding
  refine ⟨fun path hpath => (List.mem_filter.mp hpath).1, fun path hpath hmem => ?_, ?_⟩
  · exact of_decide_eq_true (List.mem_filter.mp hpath).2 (mem_orderedSet.mpr hmem)
  · have hempty : orderedSet (actual.map normalise) = [] ↔ actual = [] := by
      simp [List.eq_nil_iff_forall_not_mem]
    simp [hempty]

def isNameChar (c : Char) : Bool := c.isAlphanum || c = '_' || c = '-'

def standsAlone (name : Text) : Option Char → Text → Bool
  | _, [] => false
  | before, c :: rest =>
    (!before.any isNameChar && (stripPrefix name (c :: rest)).any fun after =>
      !after.head?.any isNameChar) || standsAlone name (some c) rest

theorem infix_of_standsAlone {name : Text} {before : Option Char}
    (halone : standsAlone name before text = true) : name <:+: text := by
  induction text generalizing before with
  | nil => contradiction
  | cons c rest ih =>
    rw [standsAlone, Bool.or_eq_true, Bool.and_eq_true, Option.any_eq_true] at halone
    rcases halone with ⟨-, after, hafter, -⟩ | hlater
    · exact (stripPrefix_eq_some hafter ▸ List.prefix_append name after).isInfix
    · exact (ih hlater).trans (List.suffix_cons c rest).isInfix

def namedPaths (text : Text) : List Text :=
  explicitPaths text ++ quotedNames text ++ wellKnownNames.filter (standsAlone · none text)

/-- The claim without a leading dot, and with slashes only, ends some changed path. -/
def Denotes (claim : Text) (actual : List Text) : Prop :=
  ∃ path ∈ actual.map normalise, endsIn (normalise claim) path = true

/-- Every named path is a changed file, or none of the tree's sources. -/
def AllChanged (text : Text) (actual : List Text) : Prop :=
  ∀ claim ∈ namedPaths text, isExempt claim = true ∨ Denotes claim actual

structure Unmistaken (text : Text) (actual expected : List Text) : Prop where
  unplain : ∀ claim ∈ namedPaths text, normalise claim ≠ claim → passes actual expected claim = true
  contained : ∀ name ∈ wellKnownNames, name <:+: text → name ∉ namedPaths text →
    passes actual expected name = true
  hinted : ∀ claim ∈ namedPaths text, isExempt claim = false → normalise claim = claim →
    claim ∈ expected → claim ∈ actual

theorem mem_extractClaimedPaths : claim ∈ extractClaimedPaths text ↔ claim ∈ namedPaths text ∨
    claim ∈ wellKnownNames ∧ claim <:+: text ∧ claim ∉ namedPaths text := by
  have halone : standsAlone claim none text = true → claim <:+: text := infix_of_standsAlone
  simp only [extractClaimedPaths, namedPaths, List.mem_append, List.mem_filter, decide_eq_true_eq]
  tauto

theorem passes_plain (hexempt : isExempt claim = false)
    (hends : ∃ path ∈ actual, endsIn claim path = true) :
    passes actual expected claim = true ↔ (claim ∈ expected → claim ∈ actual) := by
  have hany : actual.any (endsIn claim) = true := List.any_eq_true.mpr hends
  simp only [passes, hexempt, hany, Bool.false_or, Bool.true_or, Bool.and_true, Bool.or_eq_true,
    decide_eq_true_eq]
  tauto

/-- A text whose named paths are all changed is accepted exactly if none of them is held against
it. Findings are sound. -/
theorem no_false_warning_iff (text : Text) (actual hint : List Text) :
    (AllChanged text actual → (validate text actual hint = none ↔
      Unmistaken text (actual.map normalise) (hint.map normalise))) ∧
      ∀ finding, validate text actual hint = some finding → finding.Sound actual := by
  refine ⟨fun hchanged => validate_eq_none_iff.trans ⟨fun hall => ?_, fun hfair claim hclaim => ?_⟩,
    fun finding => sound_of_validate⟩
  · refine ⟨fun claim hnamed _ => hall _ (mem_extractClaimedPaths.mpr (.inl hnamed)),
      fun name hname hin hnot => hall _ (mem_extractClaimedPaths.mpr (.inr ⟨hname, hin, hnot⟩)),
      fun claim hnamed hexempt hplain => ?_⟩
    rcases hchanged claim hnamed with hskipped | hdenotes
    · exact absurd hskipped (Bool.eq_false_iff.mp hexempt)
    · rw [Denotes, hplain] at hdenotes
      exact (passes_plain hexempt hdenotes).mp (hall _ (mem_extractClaimedPaths.mpr (.inl hnamed)))
  · rcases mem_extractClaimedPaths.mp hclaim with hnamed | ⟨hname, hin, hnot⟩
    · by_cases hplain : normalise claim = claim
      · cases hexempt : isExempt claim with
        | true => simp [passes, hexempt]
        | false =>
          have hdenotes := (hchanged claim hnamed).resolve_left (Bool.eq_false_iff.mp hexempt)
          rw [Denotes, hplain] at hdenotes
          exact (passes_plain hexempt hdenotes).mpr (hfair.hinted claim hnamed hexempt hplain)
      · exact hfair.unplain claim hnamed hplain
    · exact hfair.contained claim hname hin hnot

theorem changed_path_accepted : validate "see src/a.rs" ["src/a.rs"] [] = none := by
  refine ((no_false_warning_iff _ _ _).1 ?_).mpr ⟨?_, ?_, ?_⟩
  · unfold AllChanged Denotes
    decide +kernel
  all_goals decide +kernel

/-- A leading dot. -/
theorem dotted_path_warned : AllChanged "see ./src/a.rs" ["src/a.rs"] ∧
      validate "see ./src/a.rs" ["src/a.rs"] [] ≠ none := by
  constructor
  · unfold AllChanged Denotes
    decide +kernel
  · decide +kernel

end Difflore.Observability

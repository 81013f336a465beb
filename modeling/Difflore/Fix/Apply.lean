import Difflore.Foundation.Grouping
import Difflore.Review.Perspectives

/-! # Applying accepted patches

Accepted issues are patched file by file, in path order. The first file that
fails ends the run: its issues are reported as failed, and the files patched
before it are reversed, latest first.
-/

namespace Difflore.Fix

open Foundation Text Review

structure OutcomeIssue where
  ruleId : Option Text
  ruleName : Text
  filePath : Option Text
  fileLoc : Text

structure AcceptedEditProof where
  filePath : Text
  beforeCode : Text
  afterCode : Text
  language : Option Text
  diffSignature : Text
  ruleIds : List Text

structure ApplyOutcome where
  applied : List OutcomeIssue
  failed : List (OutcomeIssue × Text)
  acceptedEdits : List AcceptedEditProof

structure PendingAppliedPatch where
  diff : Text
  issues : List OutcomeIssue
  acceptedEdit : Option AcceptedEditProof
  syncedIndex : Bool

def fileLoc (issue : ReviewIssueRecord) : Text :=
  match issue.file with
  | none => "<unknown>"
  | some file =>
    match issue.line with
    | some line => file ++ ":" ++ (toString line).toList
    | none => file

def OutcomeIssue.ofIssue (issue : ReviewIssueRecord) : OutcomeIssue where
  ruleId := issue.ruleId
  ruleName := issue.rule
  filePath := issue.file
  fileLoc := Fix.fileLoc issue

def uniqueRuleIds (issues : List ReviewIssueRecord) : List Text :=
  ((issues.filterMap fun issue => issue.ruleId.map trim).filter (· ≠ [])).reverse.dedup.reverse

def dominantEolIsCrlf (content : Text) : Bool :=
  let crlf := countCrlf content
  if crlf = 0 then false
  else
    let bareLf := content.count '\n' - crlf
    crlf ≥ bareLf

/-- Re-add `\r` to an LF diff, for a CRLF worktree. -/
def crlfNormalizeDiff (diff : Text) : Text :=
  (crlfToLf diff).flatMap fun c => if c = '\n' then ['\r', '\n'] else [c]

/-- What the apply step runs outside of itself: the file system, the model
provider and `git apply`. Git leaves the repository alone when it fails. -/
structure Environment (Repo AbsPath Bytes : Type) where
  repoRelativePath : Repo → Text → Except Text AbsPath
  read : Repo → AbsPath → Except Text Bytes
  fromUtf8 : Bytes → Option Text
  complete : Repo → Text → Text → List ReviewIssueRecord → Except Text Text
  extractUnifiedDiff : Text → Option Text
  validateDiffTargets : Text → Text → Except Text Unit
  tempfile : Repo → Text → Except Text Unit
  checkApply : Repo → Text → (cached : Bool) → Except Text Unit
  gitApply : Repo → Text → (cached : Bool) → Except Text Repo
  gitReverse : Repo → Text → (cached : Bool) → Except Text Repo
  diffSignature : Text → Text → Text
  detectLanguage : Text → Option Text

/-- Reversing an applied patch restores the repository, and a patch that could
be handed to git once can be handed to it again. -/
structure Environment.Invertible {Repo AbsPath Bytes : Type}
    (env : Environment Repo AbsPath Bytes) : Prop where
  gitReverse_gitApply : ∀ repo diff cached next,
    env.gitApply repo diff cached = .ok next → env.gitReverse next diff cached = .ok repo
  tempfile_again : ∀ repo later diff,
    env.tempfile repo diff = .ok () → env.tempfile later diff = .ok ()

structure Generated (AbsPath : Type) where
  absPath : AbsPath
  fileContent : Text
  usesCrlf : Bool
  diff : Text

section

variable {Repo AbsPath Bytes : Type} (env : Environment Repo AbsPath Bytes)

/-- Everything up to a diff for one file: path check, read, decode, prompt, extract. -/
def generate (repo : Repo) (filePath : Text) (issues : List ReviewIssueRecord) :
    Except Text (Generated AbsPath) := do
  let absPath ← env.repoRelativePath repo filePath
  let rawBytes ← (env.read repo absPath).mapError ("read failed: " ++ ·)
  match env.fromUtf8 rawBytes with
  | none => .error "file is not valid UTF-8 — skipped"
  | some onDisk =>
    let usesCrlf := dominantEolIsCrlf onDisk
    let fileContent := if usesCrlf then crlfToLf onDisk else onDisk
    let raw ← (env.complete repo filePath fileContent issues).mapError fun raw =>
      ((stripPrefix "Internal error: " raw).or
        (stripPrefix "Validation error: " raw)).getD raw
    match env.extractUnifiedDiff raw with
    | none => .error "LLM returned no usable diff"
    | some diff => .ok ⟨absPath, fileContent, usesCrlf, diff⟩

def acceptedEdit (repo : Repo) (generated : Generated AbsPath) (filePath : Text)
    (issues : List ReviewIssueRecord) : Option AcceptedEditProof :=
  match env.read repo generated.absPath with
  | .error _ => none
  | .ok bytes =>
    (env.fromUtf8 bytes).map fun after =>
      let afterContent := if generated.usesCrlf then crlfToLf after else after
      { filePath := filePath
        beforeCode := generated.fileContent
        afterCode := afterContent
        language := env.detectLanguage filePath
        diffSignature := env.diffSignature generated.fileContent afterContent
        ruleIds := uniqueRuleIds issues }

/-- Mirror an applied diff into the index; on failure take the worktree back. -/
def applyToIndex (worktree : Repo) (diff : Text) : Except Text Unit × Repo :=
  match env.gitApply worktree diff true with
  | .ok indexed => (.ok (), indexed)
  | .error e =>
    match env.gitReverse worktree diff false with
    | .error rollback =>
      (.error ("index apply: " ++ e ++ "; rollback failed: " ++ rollback), worktree)
    | .ok reversed =>
      (.error ("index apply: " ++ e ++ "; worktree rolled back"), reversed)

/-- Apply a diff to the worktree, and to the index where it fits there. Returns
whether the index was synced. -/
def applyDiff (repo : Repo) (syncStagedIndex : Bool) (diff : Text) : Except Text Bool × Repo :=
  match env.tempfile repo diff with
  | .error e => (.error ("tempfile: " ++ e), repo)
  | .ok _ =>
    match env.checkApply repo diff false with
    | .error e => (.error ("dry-run validation: " ++ e), repo)
    | .ok _ =>
      match env.gitApply repo diff false with
      | .error e => (.error ("apply: " ++ e), repo)
      | .ok worktree =>
        if syncStagedIndex && (env.checkApply worktree diff true).isOk then
          match applyToIndex env worktree diff with
          | (.ok _, indexed) => (.ok true, indexed)
          | (.error e, next) => (.error e, next)
        else (.ok false, worktree)

/-- Validate one generated diff, fit it to the file's line ends, and apply it. -/
def applyDiffTransactionally (repo : Repo) (syncStagedIndex : Bool)
    (generated : Generated AbsPath) (filePath : Text) (issues : List ReviewIssueRecord) :
    Except Text PendingAppliedPatch × Repo :=
  match env.validateDiffTargets generated.diff filePath with
  | .error reason => (.error reason, repo)
  | .ok _ =>
    let appliedDiff :=
      if generated.usesCrlf then crlfNormalizeDiff generated.diff else generated.diff
    match applyDiff env repo syncStagedIndex appliedDiff with
    | (.error reason, next) => (.error reason, next)
    | (.ok syncedIndex, next) =>
      (.ok ⟨appliedDiff, issues.map OutcomeIssue.ofIssue,
        acceptedEdit env next generated filePath issues, syncedIndex⟩, next)

def applyFile (repo : Repo) (syncStagedIndex : Bool) (filePath : Text)
    (issues : List ReviewIssueRecord) : Except Text PendingAppliedPatch × Repo :=
  match generate env repo filePath issues with
  | .error reason => (.error reason, repo)
  | .ok generated =>
    applyDiffTransactionally env repo syncStagedIndex generated filePath issues

def reverseApply (repo : Repo) (diff : Text) (cached : Bool) (label : Text) : List Text × Repo :=
  match env.gitReverse repo diff cached with
  | .error e => ([label ++ e], repo)
  | .ok reversed => ([], reversed)

/-- Reverse one patch: the index if it was synced, then the worktree. Errors are
collected, and do not stop the rollback. -/
def reversePatch (repo : Repo) (patch : PendingAppliedPatch) : List Text × Repo :=
  match env.tempfile repo patch.diff with
  | .error e => (["tempfile: " ++ e], repo)
  | .ok _ =>
    let index :=
      if patch.syncedIndex then reverseApply env repo patch.diff true
        "cached reverse apply failed: "
      else ([], repo)
    let worktree := reverseApply env index.2 patch.diff false
      "worktree reverse apply failed: "
    (index.1 ++ worktree.1, worktree.2)

def reversePatches (repo : Repo) : List PendingAppliedPatch → List Text × Repo
  | [] => ([], repo)
  | patch :: rest =>
    let first := reversePatch env repo patch
    let others := reversePatches first.2 rest
    (first.1 ++ others.1, others.2)

def rollbackReason (cause : Text) (rollbackErrors : List Text) : Text :=
  if rollbackErrors = [] then "rolled back because apply transaction failed: " ++ cause
  else
    "apply transaction failed: " ++ cause ++ "; rollback reported: " ++
      List.intercalate "; " rollbackErrors

/-- Roll back every pending patch, latest first, and report its issues as failed. -/
def rollbackPendingPatches (outcome : ApplyOutcome) (repo : Repo)
    (pending : List PendingAppliedPatch) (cause : Text) : ApplyOutcome × Repo :=
  if pending = [] then (outcome, repo)
  else
    let rollback := reversePatches env repo pending.reverse
    let reason := rollbackReason cause rollback.1
    ({ outcome with
        failed := outcome.failed ++ pending.flatMap fun patch =>
          patch.issues.map fun issue => (issue, reason) }, rollback.2)

def recordFailure (outcome : ApplyOutcome) (issues : List ReviewIssueRecord) (reason : Text) :
    ApplyOutcome :=
  { outcome with
    failed := outcome.failed ++ issues.map fun issue => (OutcomeIssue.ofIssue issue, reason) }

def recordFailureAndRollback (outcome : ApplyOutcome) (repo : Repo)
    (pending : List PendingAppliedPatch) (issues : List ReviewIssueRecord) (reason : Text) :
    ApplyOutcome × Repo :=
  rollbackPendingPatches env (recordFailure outcome issues reason) repo pending reason

def commit (outcome : ApplyOutcome) (pending : List PendingAppliedPatch) : ApplyOutcome :=
  { outcome with
    applied := outcome.applied ++ pending.flatMap PendingAppliedPatch.issues
    acceptedEdits := outcome.acceptedEdits ++ pending.filterMap PendingAppliedPatch.acceptedEdit }

def applyFiles (syncStagedIndex : Bool) : List (Text × List ReviewIssueRecord) → Repo →
    ApplyOutcome → List PendingAppliedPatch → ApplyOutcome × Repo
  | [], repo, outcome, pending => (commit outcome pending, repo)
  | (filePath, issues) :: rest, repo, outcome, pending =>
    match applyFile env repo syncStagedIndex filePath issues with
    | (.ok patch, repo) => applyFiles syncStagedIndex rest repo outcome (pending ++ [patch])
    | (.error reason, repo) => recordFailureAndRollback env outcome repo pending issues reason

def groupByFile (accepted : List ReviewIssueRecord) :
    List (Text × List ReviewIssueRecord) × List ReviewIssueRecord :=
  (accepted.foldl (fun byFile issue =>
      match issue.file with
      | some path => insertGroup path issue byFile
      | none => byFile) [],
    accepted.filter (·.file.isNone))

def applyAcceptedPatches (repo : Repo) (accepted : List ReviewIssueRecord)
    (syncStagedIndex : Bool) : ApplyOutcome × Repo :=
  let groups := groupByFile accepted
  let outcome : ApplyOutcome :=
    { applied := []
      failed := groups.2.map fun issue =>
        (OutcomeIssue.ofIssue issue, "issue has no file path")
      acceptedEdits := [] }
  applyFiles env syncStagedIndex groups.1 repo outcome []

end

end Difflore.Fix

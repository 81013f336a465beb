import Difflore.Fix.Apply

/-! # What an apply run reports and restores

A failing file takes the whole run back, wherever it stands. What is lost on
the way are the files behind it: they are not attempted, and not reported.
-/

namespace Difflore.Fix

open Foundation Review

variable {Repo AbsPath Bytes : Type} (env : Environment Repo AbsPath Bytes)

/-- No file but the last in path order fails in the state the files before it
leave behind. -/
def FailsOnlyLast (syncStagedIndex : Bool) : List (Text × List ReviewIssueRecord) → Repo → Prop
  | [], _ => True
  | (filePath, issues) :: rest, repo =>
    match applyFile env repo syncStagedIndex filePath issues with
    | (.ok _, next) => FailsOnlyLast syncStagedIndex rest next
    | (.error _, _) => rest = []

instance FailsOnlyLast.decidable (syncStagedIndex : Bool) :
    (files : List (Text × List ReviewIssueRecord)) → (repo : Repo) →
      Decidable (FailsOnlyLast env syncStagedIndex files repo)
  | [], _ => isTrue trivial
  | (filePath, issues) :: rest, repo =>
    match happly : applyFile env repo syncStagedIndex filePath issues with
    | (.ok _, next) =>
      have hrest := FailsOnlyLast.decidable syncStagedIndex rest next
      decidable_of_iff (FailsOnlyLast env syncStagedIndex rest next)
        (by rw [FailsOnlyLast, happly])
    | (.error _, _) => decidable_of_iff (rest.isEmpty = true) (by simp [FailsOnlyLast, happly])

def SomeFileFails (syncStagedIndex : Bool) : List (Text × List ReviewIssueRecord) → Repo → Prop
  | [], _ => False
  | (filePath, issues) :: rest, repo =>
    match applyFile env repo syncStagedIndex filePath issues with
    | (.ok _, next) => SomeFileFails syncStagedIndex rest next
    | (.error _, _) => True

def attempted (syncStagedIndex : Bool) : List (Text × List ReviewIssueRecord) → Repo →
    List ReviewIssueRecord
  | [], _ => []
  | (filePath, issues) :: rest, repo =>
    match applyFile env repo syncStagedIndex filePath issues with
    | (.ok _, next) => issues ++ attempted syncStagedIndex rest next
    | (.error _, _) => issues

def ApplyOutcome.reported (outcome : ApplyOutcome) : List OutcomeIssue :=
  outcome.applied ++ outcome.failed.map Prod.fst

section Grouping

variable (accepted : List ReviewIssueRecord)

theorem foldl_insertGroup_perm (byFile : List (Text × List ReviewIssueRecord)) :
    ((accepted.foldl (fun byFile issue =>
        match issue.file with
        | some path => insertGroup path issue byFile
        | none => byFile) byFile).flatMap Prod.snd ++ accepted.filter (·.file.isNone)).Perm
      (byFile.flatMap Prod.snd ++ accepted) := by
  induction accepted generalizing byFile with
  | nil => exact .refl _
  | cons issue rest ih =>
    rw [List.foldl_cons]
    cases hfile : issue.file with
    | none =>
      rw [List.filter_cons_of_pos (by simp [hfile])]
      refine (List.perm_middle.trans ?_).trans List.perm_middle.symm
      exact (ih byFile).cons issue
    | some path =>
      rw [List.filter_cons_of_neg (by simp [hfile])]
      refine (ih (insertGroup path issue byFile)).trans ?_
      refine ((insertGroup_perm path issue byFile).append_right rest).trans ?_
      exact List.perm_middle.symm

theorem groupByFile_perm :
    ((groupByFile accepted).1.flatMap Prod.snd ++ (groupByFile accepted).2).Perm accepted :=
  foldl_insertGroup_perm accepted []

theorem foldl_insertGroup_ne_nil {byFile : List (Text × List ReviewIssueRecord)}
    (hbyFile : ∀ group ∈ byFile, group.2 ≠ []) :
    ∀ group ∈ accepted.foldl (fun byFile issue =>
        match issue.file with
        | some path => insertGroup path issue byFile
        | none => byFile) byFile, group.2 ≠ [] := by
  induction accepted generalizing byFile with
  | nil => exact hbyFile
  | cons issue rest ih =>
    rw [List.foldl_cons]
    refine ih ?_
    cases issue.file with
    | some path => exact insertGroup_ne_nil hbyFile
    | none => exact hbyFile

theorem groupByFile_ne_nil : ∀ group ∈ (groupByFile accepted).1, group.2 ≠ [] :=
  foldl_insertGroup_ne_nil accepted (by simp)

end Grouping

section Attempts

variable {env} {syncStagedIndex : Bool} {files : List (Text × List ReviewIssueRecord)} {repo : Repo}

theorem attempted_length_eq_iff (hfiles : ∀ group ∈ files, group.2 ≠ []) :
    (attempted env syncStagedIndex files repo).length = (files.flatMap Prod.snd).length ↔
      FailsOnlyLast env syncStagedIndex files repo := by
  induction files generalizing repo with
  | nil => simp [attempted, FailsOnlyLast]
  | cons group rest ih =>
    obtain ⟨filePath, issues⟩ := group
    have hrest : ∀ group ∈ rest, group.2 ≠ [] :=
      fun group hgroup => hfiles group (.tail _ hgroup)
    unfold attempted FailsOnlyLast
    rw [List.flatMap_cons, List.length_append]
    split
    next =>
      rw [List.length_append, ← ih hrest]
      simp
    next =>
      constructor
      · intro hlength
        have hempty : rest.flatMap Prod.snd = [] := List.length_eq_zero_iff.mp (by simp_all)
        cases rest with
        | nil => rfl
        | cons next _ =>
          rw [List.flatMap_cons, List.append_eq_nil_iff] at hempty
          exact absurd hempty.1 (hrest next (.head _ ..))
      · rintro rfl
        simp

theorem attempted_eq_of_failsOnlyLast (honly : FailsOnlyLast env syncStagedIndex files repo) :
    attempted env syncStagedIndex files repo = files.flatMap Prod.snd := by
  induction files generalizing repo with
  | nil => rfl
  | cons group rest ih =>
    obtain ⟨filePath, issues⟩ := group
    unfold attempted
    unfold FailsOnlyLast at honly
    rw [List.flatMap_cons]
    split at honly
    next => rw [ih honly]
    next => simp [honly]

end Attempts

section Transaction

variable {env} {syncStagedIndex : Bool} {repo next : Repo} {filePath : Text}
  {issues : List ReviewIssueRecord} {patch : PendingAppliedPatch}

theorem applyToIndex_ok (hinv : env.Invertible) {diff : Text} {worktree : Repo}
    (happly : applyToIndex env worktree diff = (.ok (), next)) :
    env.gitReverse next diff true = .ok worktree := by
  unfold applyToIndex at happly
  split at happly
  next indexed hindexed =>
    obtain ⟨_, rfl⟩ := Prod.mk.inj happly
    exact hinv.gitReverse_gitApply _ _ _ _ hindexed
  next => split at happly <;> exact absurd (Prod.mk.inj happly).1 (by simp)

theorem applyToIndex_error {diff reason : Text} {worktree : Repo}
    (hreverse : env.gitReverse worktree diff false = .ok repo)
    (happly : applyToIndex env worktree diff = (.error reason, next)) : next = repo := by
  unfold applyToIndex at happly
  split at happly
  next => exact absurd (Prod.mk.inj happly).1 (by simp)
  next =>
    rw [hreverse] at happly
    exact (Prod.mk.inj happly).2.symm

section

variable (hinv : env.Invertible)
include hinv

theorem applyDiff_ok {diff : Text} {syncedIndex : Bool}
    (happly : applyDiff env repo syncStagedIndex diff = (.ok syncedIndex, next))
    (hdiff : patch.diff = diff) (hsynced : patch.syncedIndex = syncedIndex) :
    reversePatch env next patch = ([], repo) := by
  unfold applyDiff at happly
  split at happly
  next => exact absurd (Prod.mk.inj happly).1 (by simp)
  next htempfile =>
    have hagain := hinv.tempfile_again _ next _ htempfile
    split at happly
    next => exact absurd (Prod.mk.inj happly).1 (by simp)
    next =>
      split at happly
      next => exact absurd (Prod.mk.inj happly).1 (by simp)
      next worktree hworktree =>
        have hreverse := hinv.gitReverse_gitApply _ _ _ _ hworktree
        split at happly
        next =>
          split at happly
          next indexed hindexed =>
            obtain ⟨hflag, rfl⟩ := Prod.mk.inj happly
            obtain rfl := Except.ok.inj hflag
            have hreverseIndex := applyToIndex_ok hinv hindexed
            simp [reversePatch, reverseApply, hdiff, hsynced, hagain, hreverseIndex, hreverse]
          next => exact absurd (Prod.mk.inj happly).1 (by simp)
        next =>
          obtain ⟨hflag, rfl⟩ := Prod.mk.inj happly
          obtain rfl := Except.ok.inj hflag
          simp [reversePatch, reverseApply, hdiff, hsynced, hagain, hreverse]

theorem applyDiff_error {diff reason : Text}
    (happly : applyDiff env repo syncStagedIndex diff = (.error reason, next)) : next = repo := by
  unfold applyDiff at happly
  split at happly
  next => exact (Prod.mk.inj happly).2.symm
  next =>
    split at happly
    next => exact (Prod.mk.inj happly).2.symm
    next =>
      split at happly
      next => exact (Prod.mk.inj happly).2.symm
      next worktree hworktree =>
        have hreverse := hinv.gitReverse_gitApply _ _ _ _ hworktree
        split at happly
        next =>
          split at happly
          next => exact absurd (Prod.mk.inj happly).1 (by simp)
          next hfailed =>
            obtain ⟨_, rfl⟩ := Prod.mk.inj happly
            exact applyToIndex_error hreverse hfailed
        next => exact absurd (Prod.mk.inj happly).1 (by simp)

theorem applyDiffTransactionally_ok {generated : Generated AbsPath}
    (happly : applyDiffTransactionally env repo syncStagedIndex generated filePath issues =
      (.ok patch, next)) :
    patch.issues = issues.map OutcomeIssue.ofIssue ∧ reversePatch env next patch = ([], repo) := by
  unfold applyDiffTransactionally at happly
  split at happly
  next => exact absurd (Prod.mk.inj happly).1 (by simp)
  next =>
    dsimp only at happly
    generalize (if generated.usesCrlf then _ else generated.diff) = diff at happly
    split at happly
    next => exact absurd (Prod.mk.inj happly).1 (by simp)
    next hdiff =>
      obtain ⟨hpatch, rfl⟩ := Prod.mk.inj happly
      obtain rfl := Except.ok.inj hpatch
      exact ⟨rfl, applyDiff_ok hinv hdiff rfl rfl⟩

theorem applyDiffTransactionally_error {generated : Generated AbsPath} {reason : Text}
    (happly : applyDiffTransactionally env repo syncStagedIndex generated filePath issues =
      (.error reason, next)) : next = repo := by
  unfold applyDiffTransactionally at happly
  split at happly
  next => exact (Prod.mk.inj happly).2.symm
  next =>
    dsimp only at happly
    split at happly
    next hfailed =>
      obtain ⟨_, rfl⟩ := Prod.mk.inj happly
      exact applyDiff_error hinv hfailed
    next => exact absurd (Prod.mk.inj happly).1 (by simp)

theorem applyFile_ok
    (happly : applyFile env repo syncStagedIndex filePath issues = (.ok patch, next)) :
    patch.issues = issues.map OutcomeIssue.ofIssue ∧ reversePatch env next patch = ([], repo) := by
  unfold applyFile at happly
  split at happly
  next => simp at happly
  next => exact applyDiffTransactionally_ok hinv happly

theorem applyFile_error {reason : Text}
    (happly : applyFile env repo syncStagedIndex filePath issues = (.error reason, next)) :
    next = repo := by
  unfold applyFile at happly
  split at happly
  next => exact (Prod.mk.inj happly).2.symm
  next => exact applyDiffTransactionally_error hinv happly

end

end Transaction

section Loop

variable {env} {syncStagedIndex : Bool} {files : List (Text × List ReviewIssueRecord)}
  {start repo : Repo} {outcome : ApplyOutcome} {pending : List PendingAppliedPatch}

/-- The pending patches, reversed latest first, lead back to the start. -/
def LeadsBack (env : Environment Repo AbsPath Bytes) (start repo : Repo)
    (pending : List PendingAppliedPatch) : Prop :=
  reversePatches env repo pending.reverse = ([], start)

theorem LeadsBack.concat (hback : LeadsBack env start repo pending) {next : Repo}
    {patch : PendingAppliedPatch} (hreverse : reversePatch env next patch = ([], repo)) :
    LeadsBack env start next (pending ++ [patch]) := by
  unfold LeadsBack at hback ⊢
  rw [List.reverse_append, List.reverse_singleton, List.singleton_append]
  simp [reversePatches, hreverse, hback]

theorem rollbackPendingPatches_repo (hback : LeadsBack env start repo pending)
    (cause : Text) : (rollbackPendingPatches env outcome repo pending cause).2 = start := by
  unfold rollbackPendingPatches
  split
  next hempty =>
    subst hempty
    exact congrArg Prod.snd hback
  next =>
    unfold LeadsBack at hback
    simp [hback]

theorem rollbackPendingPatches_applied (cause : Text) :
    (rollbackPendingPatches env outcome repo pending cause).1.applied = outcome.applied := by
  unfold rollbackPendingPatches
  split <;> rfl

theorem rollbackPendingPatches_failed (cause : Text) :
    (rollbackPendingPatches env outcome repo pending cause).1.failed.map Prod.fst =
      outcome.failed.map Prod.fst ++ pending.flatMap PendingAppliedPatch.issues := by
  unfold rollbackPendingPatches
  split
  next hempty => simp [hempty]
  next =>
    rw [List.map_append, List.map_flatMap]
    congr 2
    funext patch
    rw [List.map_map]
    exact List.map_id _

theorem applyFiles_reported (hinv : env.Invertible) (happlied : outcome.applied = []) :
    (applyFiles env syncStagedIndex files repo outcome pending).1.reported.Perm
      (outcome.failed.map Prod.fst ++ pending.flatMap PendingAppliedPatch.issues ++
        (attempted env syncStagedIndex files repo).map OutcomeIssue.ofIssue) := by
  induction files generalizing repo pending with
  | nil =>
    simp only [applyFiles, commit, ApplyOutcome.reported, happlied, attempted, List.map_nil,
      List.append_nil, List.nil_append]
    exact List.perm_append_comm
  | cons group rest ih =>
    obtain ⟨filePath, issues⟩ := group
    unfold applyFiles attempted
    cases happly : applyFile env repo syncStagedIndex filePath issues with
    | mk result next =>
      cases result with
      | ok patch =>
        refine ih.trans ?_
        simp [(applyFile_ok hinv happly).1]
      | error reason =>
        dsimp only
        simp only [recordFailureAndRollback, ApplyOutcome.reported,
          rollbackPendingPatches_applied, rollbackPendingPatches_failed, recordFailure,
          happlied, List.nil_append, List.map_append, List.map_map, List.append_assoc]
        exact List.perm_append_comm.append_left _

theorem applyFiles_rolledBack (hinv : env.Invertible) (happlied : outcome.applied = [])
    (hback : LeadsBack env start repo pending)
    (hfails : SomeFileFails env syncStagedIndex files repo) :
    (applyFiles env syncStagedIndex files repo outcome pending).1.applied = [] ∧
      (applyFiles env syncStagedIndex files repo outcome pending).2 = start := by
  induction files generalizing repo pending with
  | nil => exact hfails.elim
  | cons group rest ih =>
    obtain ⟨filePath, issues⟩ := group
    unfold SomeFileFails at hfails
    unfold applyFiles
    split
    next patch next happly =>
      rw [happly] at hfails
      exact ih (hback.concat (applyFile_ok hinv happly).2) hfails
    next reason next happly =>
      obtain rfl := applyFile_error hinv happly
      exact ⟨(rollbackPendingPatches_applied reason).trans happlied,
        rollbackPendingPatches_repo hback reason⟩

end Loop

/-- Every accepted issue is reported exactly once; and if some file fails, the
repository is back where it was and nothing counts as applied. -/
def Settled (repo : Repo) (accepted : List ReviewIssueRecord) (syncStagedIndex : Bool) : Prop :=
  let result := applyAcceptedPatches env repo accepted syncStagedIndex
  result.1.reported.Perm (accepted.map OutcomeIssue.ofIssue) ∧
    (SomeFileFails env syncStagedIndex (groupByFile accepted).1 repo →
      result.1.applied = [] ∧ result.2 = repo)

theorem applyAcceptedPatches_reported (hinv : env.Invertible) (repo : Repo)
    (accepted : List ReviewIssueRecord) (syncStagedIndex : Bool) :
    (applyAcceptedPatches env repo accepted syncStagedIndex).1.reported.Perm
      (((groupByFile accepted).2 ++
        attempted env syncStagedIndex (groupByFile accepted).1 repo).map OutcomeIssue.ofIssue) := by
  refine (applyFiles_reported hinv rfl).trans ?_
  rw [List.flatMap_nil, List.append_nil, List.map_map, List.map_append]
  exact .refl _

/-- The run settles every issue if and only if no file but the last one fails. -/
theorem settled_iff_failsOnlyLast (hinv : env.Invertible) (repo : Repo)
    (accepted : List ReviewIssueRecord) (syncStagedIndex : Bool) :
    Settled env repo accepted syncStagedIndex ↔
      FailsOnlyLast env syncStagedIndex (groupByFile accepted).1 repo := by
  have hreported := applyAcceptedPatches_reported env hinv repo accepted syncStagedIndex
  have hgroups := groupByFile_perm accepted
  constructor
  · rintro ⟨hperm, _⟩
    have hlength := (hreported.symm.trans hperm).length_eq
    have htotal := hgroups.length_eq
    simp only [List.length_map, List.length_append] at hlength htotal
    exact (attempted_length_eq_iff (groupByFile_ne_nil accepted)).mp (by omega)
  · intro honly
    refine ⟨?_, fun hfails => applyFiles_rolledBack hinv rfl rfl hfails⟩
    rw [attempted_eq_of_failsOnlyLast honly] at hreported
    exact hreported.trans ((List.perm_append_comm.trans hgroups).map _)

section Example

/-- A repository as the stack of patches in it; one path cannot be read. -/
def stackEnvironment (unreadable : Text) : Environment (List (Text × Bool)) Text Text where
  repoRelativePath := fun _ path => .ok path
  read := fun _ path =>
    if path = unreadable then .error "permission denied" else .ok "fn main() {}\n"
  fromUtf8 := some
  complete := fun _ path _ _ => .ok path
  extractUnifiedDiff := some
  validateDiffTargets := fun _ _ => .ok ()
  tempfile := fun _ _ => .ok ()
  checkApply := fun _ _ _ => .ok ()
  gitApply := fun repo diff cached => .ok ((diff, cached) :: repo)
  gitReverse := fun repo diff cached =>
    match repo with
    | [] => .error "patch does not apply"
    | top :: rest =>
      if top = (diff, cached) then .ok rest else .error "patch does not apply"
  diffSignature := fun _ _ => []
  detectLanguage := fun _ => none

theorem stackEnvironment_invertible (unreadable : Text) :
    (stackEnvironment unreadable).Invertible where
  gitReverse_gitApply := by
    intro repo diff cached next happly
    obtain rfl := Except.ok.inj happly
    exact if_pos rfl
  tempfile_again := fun _ _ _ _ => rfl

def issueIn (path : Text) : ReviewIssueRecord where
  rule := "no-unwrap"
  ruleId := some "r1"
  message := "unwrap on user input"
  file := some path
  line := some 3
  suggestion := none

theorem settled_last_file_fails : Settled (stackEnvironment "b.rs") []
      [issueIn "b.rs", issueIn "a.rs"] true :=
  (settled_iff_failsOnlyLast _ (stackEnvironment_invertible _) _ _ _).mpr
    (by decide)

/-- The first of two files fails: the second one's issue is in neither list. -/
theorem first_failure_loses_issue : ¬ Settled (stackEnvironment "a.rs") []
        [issueIn "a.rs", issueIn "b.rs"] true := by
  intro hsettled
  have hlength := hsettled.1.length_eq
  revert hlength
  decide

end Example

end Difflore.Fix

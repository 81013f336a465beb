import Difflore.Context.RuleIndex
import Difflore.Infra.ScopeAgreement
import Difflore.Skills.LadderRows

/-! # Is a capture kept in its repository?

A capture for a repository inserts a row that is bound to it. The steps that compare with
conversations do not look at the repository, so the row they meet may be bound to another.
-/

namespace Difflore.Skills

open Foundation Text Infra Context

variable {library : RememberLibrary} {clock : CallClock} {input : RememberRuleInput}
  {repo : RepoScope} {store after : RuleStore} {outcome : RememberOutcome}

theorem plainCall_active (input : RememberRuleInput) : PlainCall input .active := by
  rintro ⟨_, hstatus⟩
  contradiction

theorem returned_mem
    (hcall : rememberForRepo library clock input repo store = .ok (after, outcome)) :
    outcome.skill ∈ after.skills.rows ∧ outcome.skill.status = .active := by
  rcases rememberInner_plain (plainCall_active input) hcall with
    ⟨row, _, hrow, hmeets, rfl, hskill, _⟩ | ⟨slug, _, _, hinsert⟩
  · rw [hskill]
    constructor
    · exact (KeyedTable.find_eq_some.mp (find_strengthenRule hrow clock.now)).1
    · exact ((hmeets row).mpr rfl).status_eq
  · obtain ⟨hfresh, hskills, _, hskill, _⟩ := insertFresh_eq_ok hinsert
    rw [hskill, hskills, rows_rememberRule hfresh]
    exact ⟨List.mem_append_right _ (List.mem_singleton_self _), rfl⟩

theorem trim_of_fixed {scope : Text} (hfixed : normalizeCanonicalRepoScope scope = some scope) :
    trim scope = scope ∧ scope ≠ [] := by
  constructor
  · apply (trim_isInfix scope).eq_of_length
    have hclean := congrArg List.length (cleanScope_of_fixed hfixed).1
    have hgits := (trimGits_isPrefix (trimSlashes (trim scope))).length_le
    have hslashes := (List.rdropWhile_prefix (· = '/') (trim scope)).length_le
    have htrim := (trim_isInfix scope).length_le
    rw [cleanScope] at hclean
    rw [trimSlashes] at hclean hgits
    omega
  · rintro rfl
    exact absurd hfixed (by decide)

theorem served_of_bound {skills : SkillTable} {row : SkillRow} (hrow : row ∈ skills.rows)
    (hbound : row.sourceRepo = some repo.value) (hserved : row.served = true)
    (hcanonical : normalizeCanonicalRepoScope repo.value = some repo.value) :
    ruleDocument library.toLibrary row ∈
      filterRulesForRepoScopes (loadRulesFromDb library.toLibrary skills) [repo.value] := by
  have hscope : (ruleDocument library.toLibrary row).repoScope = some repo.value := by
    rw [ruleDocument_repoScope, hbound, repoScopeFromSourceRepo, Option.bind_some, hcanonical]
  have hcompared : toAsciiLowercase repo.value ∈ comparedScopes [repo.value] := by
    obtain ⟨htrim, hne⟩ := trim_of_fixed hcanonical
    rw [comparedScopes, List.map_singleton, htrim, List.mem_filter]
    exact ⟨List.mem_singleton_self _, by simpa [toAsciiLowercase] using hne⟩
  rw [filterRulesForRepoScopes, if_neg (List.ne_nil_of_mem hcompared), List.mem_filter, hscope]
  exact ⟨mem_loadRulesFromDb.mpr ⟨row, hrow, hserved, rfl⟩, decide_eq_true hcompared⟩

/-- A capture for a repository returns a rule that is bound to it, and served there, if and only
if the row that it meets is. -/
theorem rememberForRepo_bound_iff
    (hcall : rememberForRepo library clock input repo store = .ok (after, outcome)) :
    (outcome.skill.sourceRepo = some repo.value ↔
      ∀ row, Meets library clock input .active (some repo.value) store.skills row →
        row.sourceRepo = some repo.value) ∧
    (outcome.skill.sourceRepo = some repo.value → outcome.skill.served = true →
      normalizeCanonicalRepoScope repo.value = some repo.value →
        ruleDocument library.toLibrary outcome.skill ∈
          filterRulesForRepoScopes (loadRulesFromDb library.toLibrary after.skills)
            [repo.value]) := by
  constructor
  · rcases rememberInner_plain (plainCall_active input) hcall with
      ⟨row, _, hrow, hmeets, rfl, hskill, _⟩ | ⟨slug, _, hnone, hinsert⟩
    · have hbound : outcome.skill.sourceRepo = row.sourceRepo := by
        rw [hskill, SkillRow.strengthened]
      rw [hbound]
      constructor
      · intro hrepo other hother
        rwa [(hmeets other).mp hother]
      · intro hall
        exact hall row ((hmeets row).mpr rfl)
    · obtain ⟨_, _, _, hskill, _⟩ := insertFresh_eq_ok hinsert
      refine iff_of_true ?_ fun row hmeets => absurd hmeets (hnone row)
      rw [hskill]
      rfl
  · intro hbound hserved hcanonical
    exact served_of_bound (returned_mem hcall).1 hbound hserved hcanonical

def conversationInput : RememberRuleInput := { reviewInput with origin := none }

def oneTag : Library where
  jsonStrings raw := if raw = emptyListJson then some [] else some [conversation]
  printStrings list := if list = [] then emptyListJson else "[\"conversation\"]"
  sha1Hex _ := []

def firstRepo : RepoScope := ⟨"a/x"⟩

def secondRepo : RepoScope := ⟨"b/y"⟩

def newStore : RuleStore := ⟨KeyedTable.empty, [], [], []⟩

def storeAfter (store : RuleStore) (result : Except Text (RuleStore × RememberOutcome)) :
    RuleStore :=
  (result.toOption.map Prod.fst).getD store

def capturedStore : RuleStore :=
  storeAfter newStore (rememberForRepo twoLetters noon conversationInput firstRepo newStore)

/-- The rule of the first repository is returned for the second. -/
theorem capture_meets_other_repo :
    (rememberForRepo twoLetters noon conversationInput secondRepo capturedStore).toOption.map
        (fun result => result.2.skill.sourceRepo) = some (some firstRepo.value) ∧
      firstRepo.value ≠ secondRepo.value := by
  decide

theorem rememberForRepo_bound_captured :
    ∃ after outcome, rememberForRepo twoLetters noon conversationInput firstRepo capturedStore =
        .ok (after, outcome) ∧ outcome.deduped = true ∧
      outcome.skill.sourceRepo = some firstRepo.value := by
  have hdeduped : (rememberForRepo twoLetters noon conversationInput firstRepo
      capturedStore).toOption.any (fun result => result.2.deduped) = true := by decide
  have hown : ∀ row ∈ capturedStore.skills.rows, row.sourceRepo = some firstRepo.value := by decide
  cases hcall : rememberForRepo twoLetters noon conversationInput firstRepo capturedStore with
  | error err => simp [hcall, Except.toOption] at hdeduped
  | ok result =>
    obtain ⟨after, outcome⟩ := result
    rw [hcall] at hdeduped
    refine ⟨after, outcome, rfl, by simpa [Except.toOption] using hdeduped,
      (rememberForRepo_bound_iff hcall).1.mpr ?_⟩
    intro row hmeets
    exact hown row hmeets.mem

end Difflore.Skills

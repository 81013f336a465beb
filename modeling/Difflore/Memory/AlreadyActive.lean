import Difflore.Memory.Classify

/-! # When a group is already active

The key of a group does not tell every two memories apart. It keeps letters and digits of the
repository, eight words without the words `avoid` and `prefer`, and the patterns. A content hash
is compared across repositories.
-/

namespace Difflore.Memory

open Foundation Text SessionMine

section Keys

variable {text word : Text} {candidate other : ClusterCandidate}

theorem isWord_of_mem_normalizeWords (hword : word ∈ normalizeWords text) :
    word ≠ [] ∧ ∀ c ∈ word, c.isAlphanum = true := by
  obtain ⟨hmem, -⟩ := List.mem_filter.mp hword
  obtain ⟨trimmed, htrimmed, rfl⟩ := List.mem_map.mp hmem
  obtain ⟨hpart, hlong⟩ := List.mem_filter.mp htrimmed
  obtain ⟨part, hsplit, rfl⟩ := List.mem_map.mp hpart
  have hchars : ∀ c ∈ trim part, c.isAlphanum = true := by
    intro c hc
    have hpartChar := forall_of_mem_splitOnP hsplit c (mem_of_mem_trim hc)
    simpa using hpartChar
  have hkept : normalizeToken (trim part) = toAsciiLowercase (trim part) := by
    rw [normalizeToken, List.filter_eq_self.mpr]
    intro c hc
    simp [hchars c hc]
  rw [hkept]
  constructor
  · intro hnil
    have htrim : trim part = [] := List.map_eq_nil_iff.mp hnil
    rw [htrim] at hlong
    contradiction
  · intro c hc
    obtain ⟨original, horiginal, rfl⟩ := List.mem_map.mp hc
    rw [isAlphanum_toLower]
    exact hchars original horiginal

theorem not_isAlphanum_separators : '-'.isAlphanum = false ∧ ':'.isAlphanum = false := by decide

theorem colon_not_mem_topicKey (text : Text) : ':' ∉ topicKey text := by
  intro hcolon
  rcases mem_intercalate hcolon with heq | ⟨word, hword, hmem⟩
  · contradiction
  · have hchar := (isWord_of_mem_normalizeWords (List.mem_of_mem_take hword)).2 ':' hmem
    rw [not_isAlphanum_separators.2] at hchar
    contradiction

theorem topicKey_inj {first second : Text} : topicKey first = topicKey second ↔
    (normalizeWords first).take 8 = (normalizeWords second).take 8 := by
  have hwords : ∀ text, ∀ word ∈ (normalizeWords text).take 8, word ≠ [] ∧ '-' ∉ word := by
    intro text word hword
    obtain ⟨hne, hchars⟩ := isWord_of_mem_normalizeWords (List.mem_of_mem_take hword)
    refine ⟨hne, fun hmem => ?_⟩
    have hchar := hchars '-' hmem
    rw [not_isAlphanum_separators.1] at hchar
    contradiction
  exact intercalate_inj (hwords first) (hwords second)

theorem colon_not_mem_clusterRepoKey (candidate : ClusterCandidate) :
    ':' ∉ clusterRepoKey candidate := by
  have hnormal : ∀ text, ':' ∉ normalizeToken text := by
    intro text hcolon
    obtain ⟨c, hc, hlower⟩ := List.mem_map.mp hcolon
    rw [toLower_eq_iff (by decide)] at hlower
    subst hlower
    simp [not_isAlphanum_separators.2] at hc
  unfold clusterRepoKey
  cases hrepo : (candidate.sourceRepo.map normalizeToken).filter (· ≠ []) with
  | none =>
    rw [Option.getD_none]
    decide
  | some key =>
    obtain ⟨hkey, -⟩ := Option.filter_eq_some_iff.mp hrepo
    obtain ⟨repo, -, rfl⟩ := Option.map_eq_some_iff.mp hkey
    exact hnormal repo

theorem candidateGroupKey_inj : candidateGroupKey candidate = candidateGroupKey other ↔
    clusterRepoKey candidate = clusterRepoKey other ∧
      (normalizeWords (candidate.title ++ (' ' :: candidate.body))).take 8 =
        (normalizeWords (other.title ++ (' ' :: other.body))).take 8 ∧
      patternKey candidate.filePatterns = patternKey other.filePatterns := by
  unfold candidateGroupKey
  rw [append_cons_inj (colon_not_mem_clusterRepoKey _) (colon_not_mem_clusterRepoKey _),
    append_cons_inj (colon_not_mem_topicKey _) (colon_not_mem_topicKey _), topicKey_inj]

end Keys

structure PendingGroup (pending : List PlanCandidate) (group : PlanGroup) : Prop where
  formed : (group.1, group.2.map (·.toClusterCandidate)) ∈
    groupPendingMemories (pending.map (·.toClusterCandidate))
  taken : group.2 ⊆ pending

theorem mem_of_maxBy {α : Type} {cmp : α → α → Ordering} {values : List α} {best : α}
    (hbest : maxBy cmp values = some best) : best ∈ values := by
  cases values with
  | nil => contradiction
  | cons first rest =>
    rw [maxBy, Option.some.injEq] at hbest
    subst hbest
    induction rest generalizing first with
    | nil => exact .head _
    | cons next rest ih =>
      rw [List.foldl_cons]
      rcases List.mem_cons.mp (ih (if cmp first next = .gt then first else next)) with
        hbest | hrest
      · rw [hbest]
        split
        · exact .head _
        · exact .tail _ (.head _)
      · exact .tail _ (.tail _ hrest)

theorem exists_key_of_formed {pending : List ClusterCandidate} {group : CandidateGroup}
    (hgroup : group ∈ groupPendingMemories pending) :
    ∃ candidate ∈ group.2, candidateGroupKey candidate = group.1 := by
  obtain ⟨first, hfirst⟩ := List.exists_mem_of_ne_nil _ (groupPendingMemories_ne_nil hgroup)
  rcases mem_groupPendingMemories.mp hgroup with hdraft | ⟨session, _, hrepo⟩
  · exact ⟨first, hfirst, ((mem_nonSession_iff hdraft).mp hfirst).2.2⟩
  · obtain ⟨cluster, _, rfl⟩ := mem_repoGroups.mp hrepo
    unfold clusterGroupKey
    cases hbest : chooseClusterRepresentative (sortCandidates cluster) with
    | none =>
      cases hsorted : sortCandidates cluster with
      | nil =>
        rw [hsorted] at hfirst
        contradiction
      | cons head rest =>
        rw [hsorted] at hbest
        contradiction
    | some best => exact ⟨best, mem_of_maxBy hbest, rfl⟩

/-- The repository, without surrounding white space, in lower case. -/
def repoScope (sourceRepo : Option Text) : Option Text :=
  (sourceRepo.map fun repo => toAsciiLowercase (trim repo)).filter (· ≠ [])

def guidanceWords (text : Text) : List Text :=
  ((((text.splitOnP (!Char.isAlphanum ·)).map trim).filter fun word =>
    3 ≤ Hook.byteLength word).map normalizeToken).filter fun word =>
      word ∉ stopWords || word ∈ (positiveDirectives ++ negativeDirectives).map String.toList

def SameMemory (rule : ActiveRule) (candidate : PlanCandidate) : Prop :=
  repoScope rule.sourceRepo = repoScope candidate.sourceRepo ∧
    (guidanceWords (rule.title ++ (' ' :: rule.body)) =
        guidanceWords (candidate.title ++ (' ' :: candidate.body)) ∨
      ∃ hash, rule.contentHash = some hash ∧ candidate.contentHash = some hash)

instance (rule : ActiveRule) (candidate : PlanCandidate) : Decidable (SameMemory rule candidate) :=
  decidable_of_iff (repoScope rule.sourceRepo = repoScope candidate.sourceRepo ∧
      (guidanceWords (rule.title ++ (' ' :: rule.body)) =
          guidanceWords (candidate.title ++ (' ' :: candidate.body)) ∨
        rule.contentHash.isSome ∧ rule.contentHash = candidate.contentHash)) <| by
    unfold SameMemory
    cases rule.contentHash <;> cases candidate.contentHash <;> simp [eq_comm]

def AlreadyActiveSound (activeRules : List ActiveRule) (group : PlanGroup) : Prop :=
  (planGroup activeRules group).state = .alreadyActive →
    ∃ rule ∈ activeRules, ∃ candidate ∈ group.2, SameMemory rule candidate

/-- An active rule that the key or a hash takes for the memory of a group: the repositories have
the same letters and digits, the texts the same first eight words, the patterns join to one
text; or the hashes are equal, in whatever repositories. -/
def TakenFor (rule : ActiveRule) (group : PlanGroup) (candidate : PlanCandidate) : Prop :=
  (candidateGroupKey candidate.toClusterCandidate = group.1 ∧
      ((rule.sourceRepo.map normalizeToken).filter (· ≠ [])).getD "any-repo" =
        clusterRepoKey candidate.toClusterCandidate ∧
      (normalizeWords (rule.title ++ (' ' :: rule.body))).take 8 =
        (normalizeWords (candidate.title ++ (' ' :: candidate.body))).take 8 ∧
      patternKey rule.filePatterns = patternKey candidate.filePatterns) ∨
    ∃ hash, rule.contentHash = some hash ∧ candidate.contentHash = some hash

/-! ## Classes -/

section Classes

variable {groupId : Text} {candidates : List PlanCandidate} {sourceRepo : Option Text}
  {filePatterns activeKeys activeContentHashes : List Text} {activeRules : List ActiveRule}

theorem classifyPrReview_state :
    (classifyPrReview candidates sourceRepo filePatterns).1 ≠ .alreadyActive := by
  unfold classifyPrReview needsReview
  split
  · simp
  · split <;> simp

theorem classifySessions_state : (classifySessions candidates).1 ≠ .alreadyActive := by
  unfold classifySessions needsReview
  split
  · simp
  · split <;> simp

theorem classifyGroup_alreadyActive_iff :
    (classifyGroup groupId candidates sourceRepo filePatterns activeKeys activeContentHashes
        activeRules).1 = .alreadyActive ↔
      groupId ∈ activeKeys ∨ ∃ candidate ∈ candidates, ∃ hash ∈ activeContentHashes,
        candidate.contentHash = some hash := by
  by_cases hkey : groupId ∈ activeKeys
  · simp [classifyGroup, hkey, alreadyActive]
  by_cases hhash : candidates.any fun candidate =>
      candidate.contentHash.any (· ∈ activeContentHashes)
  · rw [classifyGroup, if_neg hkey, if_pos hhash]
    refine iff_of_true rfl (.inr ?_)
    simpa [Option.any_eq_true, and_comm] using hhash
  refine iff_of_false ?_ ?_
  · rw [classifyGroup, if_neg hkey, if_neg hhash]
    -- every later branch has a state of its own
    cases detectActiveConflict candidates sourceRepo filePatterns activeRules with
    | some conflict => split_ifs <;> simp [needsReview]
    | none =>
      split_ifs
      iterate 4 simp [needsReview]
      · exact classifyPrReview_state
      · exact classifySessions_state
  · rintro (hmem | ⟨candidate, hcandidate, hash, hmem, hsome⟩)
    · exact hkey hmem
    · apply hhash
      rw [List.any_eq_true]
      exact ⟨candidate, hcandidate, by simp [hsome, hmem]⟩

end Classes

variable {activeRules : List ActiveRule} {group : PlanGroup} {pending : List PlanCandidate}

theorem planGroup_alreadyActive_iff (hgroup : PendingGroup pending group) :
    (planGroup activeRules group).state = .alreadyActive ↔
      ∃ rule ∈ activeRules, ∃ candidate ∈ group.2, TakenFor rule group candidate := by
  have hsorted : ∀ candidate, candidate ∈ group.2.insertionSort
      (fun left right => left.itemId ≤ right.itemId) ↔ candidate ∈ group.2 := by
    intro candidate
    exact List.mem_insertionSort _
  unfold planGroup digestGroup
  rw [classifyGroup_alreadyActive_iff]
  constructor
  · rintro (hkey | ⟨candidate, hcandidate, hash, hhash, hsome⟩)
    · obtain ⟨rule, hrule, hkey⟩ := List.mem_map.mp hkey
      obtain ⟨found, hfound, hrepresentative⟩ := exists_key_of_formed hgroup.formed
      obtain ⟨candidate, hcandidate, rfl⟩ := List.mem_map.mp hfound
      refine ⟨rule, hrule, candidate, hcandidate, .inl ⟨hrepresentative, ?_⟩⟩
      exact candidateGroupKey_inj.mp (hkey.trans hrepresentative.symm)
    · obtain ⟨rule, hrule, hruleHash⟩ := List.mem_filterMap.mp hhash
      exact ⟨rule, hrule, candidate, (hsorted candidate).mp hcandidate,
        .inr ⟨hash, hruleHash, hsome⟩⟩
  · rintro ⟨rule, hrule, candidate, hcandidate, ⟨hkey, hcommon⟩ | ⟨hash, hruleHash, hsome⟩⟩
    · left
      rw [← hkey]
      exact List.mem_map.mpr ⟨rule, hrule, candidateGroupKey_inj.mpr hcommon⟩
    · exact .inr ⟨candidate, (hsorted candidate).mpr hcandidate, hash,
        List.mem_filterMap.mpr ⟨rule, hrule, hruleHash⟩, hsome⟩

/-- A group is called already active for good reason exactly if no active rule is taken for one
of its memories, or an active rule of the repository is one of them. -/
theorem alreadyActiveSound_iff (hgroup : PendingGroup pending group) :
    AlreadyActiveSound activeRules group ↔
      (∀ rule ∈ activeRules, ∀ candidate ∈ group.2, ¬ TakenFor rule group candidate) ∨
        ∃ rule ∈ activeRules, ∃ candidate ∈ group.2, SameMemory rule candidate := by
  unfold AlreadyActiveSound
  rw [planGroup_alreadyActive_iff hgroup]
  constructor
  · intro hsound
    by_cases htaken : ∃ rule ∈ activeRules, ∃ candidate ∈ group.2, TakenFor rule group candidate
    · exact .inr (hsound htaken)
    · left
      intro rule hrule candidate hcandidate hfor
      exact htaken ⟨rule, hrule, candidate, hcandidate, hfor⟩
  · rintro (hnone | hsame) ⟨rule, hrule, candidate, hcandidate, hfor⟩
    · exact absurd hfor (hnone rule hrule candidate hcandidate)
    · exact hsame

theorem pendingGroup_draft {candidate : PlanCandidate} (hdraft :
    isSession candidate.toPendingMemory = false) :
    PendingGroup [candidate] (candidateGroupKey candidate.toClusterCandidate, [candidate]) := by
  refine ⟨mem_groupPendingMemories.mpr (.inl ?_), List.Subset.refl _⟩
  simp [nonSessionGroups, hdraft, groupEntries, insertGroup]

def tabsDraft (directive : String) : PlanCandidate where
  itemId := "draft:d"
  kind := .draft "d"
  body := (directive ++ " tabs.").toList
  sessionId := none
  sessionCreatedAtMs := none
  distinctEvidenceCount := none
  title := (directive ++ " tabs").toList
  sourceRepo := some "acme/app"
  filePatterns := ["**/*.rs"]
  rawDescription := none
  contentHash := some "a1"
  origin := "conversation"
  sourceKind := "human"
  verdict := none
  autopilotDisabled := false

def tabsRule (directive repo hash : String) : ActiveRule where
  ruleId := "r"
  sourceRepo := some repo.toList
  filePatterns := ["**/*.rs"]
  itemId := "rule:r"
  title := (directive ++ " tabs").toList
  body := (directive ++ " tabs.").toList
  contentHash := some hash.toList
  origin := "conversation"
  sourceKind := "human"

def tabsGroup (directive : String) : PlanGroup :=
  (candidateGroupKey (tabsDraft directive).toClusterCandidate, [tabsDraft directive])

theorem alreadyActiveSound_tabs :
    AlreadyActiveSound [tabsRule "Avoid" "acme/app" "b2"] (tabsGroup "Avoid") :=
  (alreadyActiveSound_iff (pendingGroup_draft rfl)).mpr
    (.inr ⟨_, List.mem_singleton_self _, _, List.mem_singleton_self _, by decide⟩)

/-- Avoiding tabs is called already active where tabs are preferred, and where another
repository avoids them. -/
theorem not_alreadyActiveSound :
    ¬ AlreadyActiveSound [tabsRule "Prefer" "acme/app" "b2"] (tabsGroup "Avoid") ∧
      ¬ AlreadyActiveSound [tabsRule "Avoid" "other/lib" "a1"] (tabsGroup "Avoid") := by
  have hsame : ∀ rule : ActiveRule, ¬ SameMemory rule (tabsDraft "Avoid") →
      (planGroup [rule] (tabsGroup "Avoid")).state = .alreadyActive →
      ¬ AlreadyActiveSound [rule] (tabsGroup "Avoid") := by
    intro rule hnone hactive hsound
    obtain ⟨found, hfound, candidate, hcandidate, hsame⟩ := hsound hactive
    obtain rfl := List.mem_singleton.mp hfound
    obtain rfl := List.mem_singleton.mp hcandidate
    exact hnone hsame
  exact ⟨hsame _ (by decide) (by decide), hsame _ (by decide) (by decide)⟩

end Difflore.Memory

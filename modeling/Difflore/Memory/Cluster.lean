import Difflore.Foundation.UnionFind
import Difflore.Memory.Triage
import Difflore.SessionMine.Candidate
import Mathlib.Data.Char
import Mathlib.Data.List.FinRange
import Mathlib.Data.Prod.Lex

/-! # Groups of pending memories

Drafts are grouped by their key. Session memories of one repository are clustered: memories that
match are joined, and so are those that a chain of matches connects: the clusters are the
connected components, and so the order of the input does not matter.
-/

namespace Difflore.Memory

open Foundation SessionMine

structure ClusterCandidate extends PendingMemory where
  title : Text
  sourceRepo : Option Text
  filePatterns : List Text

abbrev CandidateGroup : Type := Text × List ClusterCandidate

def stopWords : List Text :=
  ["the", "and", "for", "with", "from", "into", "this", "that", "when", "should", "only", "avoid",
    "prefer", "rule", "memory", "candidate"].map String.toList

def normalizeWords (text : Text) : List Text :=
  ((((text.splitOnP (!Char.isAlphanum ·)).map Text.trim).filter fun word =>
    3 ≤ Hook.byteLength word).map normalizeToken).filter (· ∉ stopWords)

def topicKey (text : Text) : Text := ['-'].intercalate ((normalizeWords text).take 8)

def patternKey (patterns : List Text) : Text :=
  ['|'].intercalate ((normalizePatterns patterns).insertionSort (· ≤ ·))

def clusterRepoKey (candidate : ClusterCandidate) : Text :=
  ((candidate.sourceRepo.map normalizeToken).filter (· ≠ [])).getD "any-repo"

def candidateGroupKey (candidate : ClusterCandidate) : Text :=
  let topic := topicKey (candidate.title ++ (' ' :: candidate.body))
  let repo := clusterRepoKey candidate
  let patterns := patternKey candidate.filePatterns
  repo ++ (':' :: (topic ++ (':' :: patterns)))

def candidateSortKey (candidate : ClusterCandidate) : Text ×ₗ Text :=
  toLex (candidateGroupKey candidate, candidate.itemId)

def sortCandidates (candidates : List ClusterCandidate) : List ClusterCandidate :=
  candidates.insertionSort fun left right => candidateSortKey left ≤ candidateSortKey right

def chooseClusterRepresentative (candidates : List ClusterCandidate) : Option ClusterCandidate :=
  maxBy (fun left right =>
    ((compare left.body.length right.body.length).then
      (compare (Hook.byteLength left.title) (Hook.byteLength right.title))).then
      (compareOfLessAndEq right.itemId left.itemId)) candidates

def clusterGroupKey (candidates : List ClusterCandidate) : Text :=
  ((chooseClusterRepresentative candidates).map candidateGroupKey).getD "empty-cluster"

def firstItemId (candidates : List ClusterCandidate) : Text :=
  (candidates.head?.map (·.itemId)).getD []

def ClusterCandidate.clusterKey (candidate : ClusterCandidate) : CandidateClusterKey :=
  .fromParts candidate.title candidate.body candidate.filePatterns

section Session

variable (candidates : List ClusterCandidate)

/-- The inner loop: the matches of one candidate among the later ones. -/
def unionMatches (forest : UnionFind (Fin candidates.length)) (left : Fin candidates.length) :
    UnionFind (Fin candidates.length) :=
  ((List.finRange candidates.length).filter (left < ·)).foldl
    (fun forest right =>
      if (candidates.get left).clusterKey.matches (candidates.get right).clusterKey then
        forest.union left right
      else forest) forest

def unionAll : UnionFind (Fin candidates.length) :=
  (List.finRange candidates.length).foldl (unionMatches candidates) .new

/-- Looking up a root compresses the forest for the next candidate. -/
def collectByRoot (state : UnionFind (Fin candidates.length) ×
      List (Fin candidates.length × List ClusterCandidate)) (idx : Fin candidates.length) :
    UnionFind (Fin candidates.length) × List (Fin candidates.length × List ClusterCandidate) :=
  let found := state.1.find idx
  (found.2, insertGroup found.1 (candidates.get idx) state.2)

def clusterSessionCandidates : List (List ClusterCandidate) :=
  if candidates.length ≤ 1 then candidates.map ([·])
  else
    ((List.finRange candidates.length).foldl (collectByRoot candidates)
      (unionAll candidates, [])).2.map Prod.snd

end Session

def nonSessionGroups (pending : List ClusterCandidate) : List CandidateGroup :=
  groupEntries ((pending.filter (!isSession ·.toPendingMemory)).map fun candidate =>
    (candidateGroupKey candidate, candidate))

def sessionsByRepo (pending : List ClusterCandidate) : List CandidateGroup :=
  groupEntries ((pending.filter (isSession ·.toPendingMemory)).map fun candidate =>
    (clusterRepoKey candidate, candidate))

/-- The clusters of one repository, under the keys of their representatives. -/
def repoGroups (candidates : List ClusterCandidate) : List CandidateGroup :=
  (clusterSessionCandidates (sortCandidates candidates)).map fun cluster =>
    (clusterGroupKey (sortCandidates cluster), sortCandidates cluster)

def groupSortKey (group : CandidateGroup) : Text ×ₗ Text := toLex (group.1, firstItemId group.2)

def groupPendingMemories (pending : List ClusterCandidate) : List CandidateGroup :=
  (nonSessionGroups pending ++ (sessionsByRepo pending).flatMap fun group =>
    repoGroups group.2).insertionSort fun left right => groupSortKey left ≤ groupSortKey right

open Relation

theorem pathFamilyOverlap_comm (left right : List Text) :
    pathFamilyOverlap left right = pathFamilyOverlap right left := by
  rw [Bool.eq_iff_iff]
  simp only [pathFamilyOverlap, List.any_eq_true, decide_eq_true_eq]
  exact exists_congr fun family => And.comm

theorem matches_comm (left right : ClusterCandidate) :
    left.clusterKey.matches right.clusterKey = right.clusterKey.matches left.clusterKey := by
  have htitle : Skills.jaccard left.clusterKey.titleTokens right.clusterKey.titleTokens =
      Skills.jaccard right.clusterKey.titleTokens left.clusterKey.titleTokens :=
    Skills.jaccard_comm (Skills.nodup_tokenizeWithAllowedChars _ _)
      (Skills.nodup_tokenizeWithAllowedChars _ _)
  have hcontent : Skills.jaccard left.clusterKey.contentTokens right.clusterKey.contentTokens =
      Skills.jaccard right.clusterKey.contentTokens left.clusterKey.contentTokens :=
    Skills.jaccard_comm (Skills.nodup_tokenizeWithAllowedChars _ _)
      (Skills.nodup_tokenizeWithAllowedChars _ _)
  unfold CandidateClusterKey.matches
  rw [htitle, hcontent, pathFamilyOverlap_comm]

/-! ## The clusters of a list -/

section Clusters

variable {candidates : List ClusterCandidate}

def MatchIn (candidates : List ClusterCandidate) (left right : ClusterCandidate) : Prop :=
  left ∈ candidates ∧ right ∈ candidates ∧ left.clusterKey.matches right.clusterKey = true

instance : Std.Symm (MatchIn candidates) where
  symm left right hmatch := ⟨hmatch.2.1, hmatch.1, matches_comm left right ▸ hmatch.2.2⟩

def matchesFrom (candidates : List ClusterCandidate) (left : Fin candidates.length) :
    List (Fin candidates.length × Fin candidates.length) :=
  (((List.finRange candidates.length).filter (left < ·)).filter fun right =>
    (candidates.get left).clusterKey.matches (candidates.get right).clusterKey).map (left, ·)

theorem unionMatches_eq (forest : UnionFind (Fin candidates.length))
    (left : Fin candidates.length) :
    unionMatches candidates forest left =
      (matchesFrom candidates left).foldl (fun forest edge => forest.union edge.1 edge.2)
        forest := by
  rw [matchesFrom, List.foldl_map, List.foldl_filter]
  rfl

theorem unionAll_eq :
    unionAll candidates = ((List.finRange candidates.length).flatMap (matchesFrom candidates)).foldl
      (fun forest edge => forest.union edge.1 edge.2) .new := by
  rw [List.foldl_flatMap, unionAll]
  congr 1
  funext forest left
  exact unionMatches_eq forest left

theorem mem_matchesFrom {left right : Fin candidates.length} :
    (left, right) ∈ (List.finRange candidates.length).flatMap (matchesFrom candidates) ↔
      left < right ∧
        (candidates.get left).clusterKey.matches (candidates.get right).clusterKey = true := by
  simp [matchesFrom, and_comm]

theorem root_unionAll_iff (left right : Fin candidates.length) :
    (unionAll candidates).root left = (unionAll candidates).root right ↔
      EqvGen (fun left right => left < right ∧
        (candidates.get left).clusterKey.matches (candidates.get right).clusterKey = true)
        left right := by
  have hmerged := UnionFind.merges_new.foldl
    ((List.finRange candidates.length).flatMap (matchesFrom candidates)) left right
  rw [← unionAll_eq] at hmerged
  simp only [false_or, mem_matchesFrom] at hmerged
  exact hmerged

theorem reflTransGen_of_eqvGen {left right : Fin candidates.length}
    (hconnected : EqvGen (fun left right => left < right ∧
      (candidates.get left).clusterKey.matches (candidates.get right).clusterKey = true)
      left right) :
    ReflTransGen (MatchIn candidates) (candidates.get left) (candidates.get right) := by
  induction hconnected with
  | rel left right hmatch =>
    exact .single ⟨List.get_mem _ _, List.get_mem _ _, hmatch.2⟩
  | refl _ => exact .refl
  | symm _ _ _ ih => exact ReflTransGen.stdSymm.symm _ _ ih
  | trans _ _ _ _ _ ihfront ihback => exact ihfront.trans ihback

theorem eqvGen_of_reflTransGen {left : Fin candidates.length} {last : ClusterCandidate}
    (hchain : ReflTransGen (MatchIn candidates) (candidates.get left) last) :
    ∃ right, candidates.get right = last ∧ EqvGen (fun left right => left < right ∧
        (candidates.get left).clusterKey.matches (candidates.get right).clusterKey = true)
        left right := by
  induction hchain with
  | refl => exact ⟨left, rfl, .refl left⟩
  | tail _ hmatch ih =>
    obtain ⟨middle, rfl, hfront⟩ := ih
    obtain ⟨-, hlast, hmatch⟩ := hmatch
    obtain ⟨right, rfl⟩ := List.get_of_mem hlast
    refine ⟨right, rfl, hfront.trans _ _ _ ?_⟩
    rcases lt_trichotomy middle right with hlt | rfl | hgt
    · exact .rel _ _ ⟨hlt, hmatch⟩
    · exact .refl _
    · exact (EqvGen.rel right middle ⟨hgt, matches_comm _ _ ▸ hmatch⟩).symm

/-- Groups that split the values into the components of a relation among them. -/
structure Components {α : Type} (related : α → α → Prop) (values : List α)
    (groups : List (List α)) : Prop where
  complete : groups.flatten.Perm values
  nonempty : ∀ group ∈ groups, group ≠ []
  connected : ∀ group ∈ groups, ∀ a ∈ group, ∀ b, b ∈ group ↔ ReflTransGen related a b

theorem foldl_collectByRoot (indices : List (Fin candidates.length))
    (forest : UnionFind (Fin candidates.length))
    (groups : List (Fin candidates.length × List ClusterCandidate)) :
    (indices.foldl (collectByRoot candidates) (forest, groups)).2 =
      (indices.map fun idx => (forest.root idx, candidates.get idx)).foldl
        (fun groups entry => insertGroup entry.1 entry.2 groups) groups := by
  induction indices generalizing forest groups with
  | nil => rfl
  | cons idx rest ih =>
    rw [List.foldl_cons, collectByRoot, ih]
    simp only [UnionFind.root_find]
    rfl

def rootEntries (candidates : List ClusterCandidate) :
    List (Fin candidates.length × ClusterCandidate) :=
  (List.finRange candidates.length).map fun idx =>
    ((unionAll candidates).root idx, candidates.get idx)

theorem clusterSessionCandidates_eq (hmany : ¬ candidates.length ≤ 1) :
    clusterSessionCandidates candidates = (groupEntries (rootEntries candidates)).map Prod.snd := by
  rw [clusterSessionCandidates, if_neg hmany, foldl_collectByRoot]
  rfl

theorem mem_rootEntries {root : Fin candidates.length} {candidate : ClusterCandidate} :
    (root, candidate) ∈ rootEntries candidates ↔
      ∃ idx, (unionAll candidates).root idx = root ∧ candidates.get idx = candidate := by
  simp [rootEntries]

theorem map_snd_rootEntries : (rootEntries candidates).map Prod.snd = candidates := by
  rw [rootEntries, List.map_map]
  exact List.map_get_finRange candidates

theorem components_of_single (hfew : candidates.length ≤ 1) :
    Components (MatchIn candidates) candidates (candidates.map ([·])) := by
  obtain rfl | ⟨candidate, rfl⟩ : candidates = [] ∨ ∃ candidate, candidates = [candidate] := by
    rcases Nat.le_one_iff_eq_zero_or_eq_one.mp hfew with hnone | hone
    · exact .inl (List.length_eq_zero_iff.mp hnone)
    · exact .inr (List.length_eq_one_iff.mp hone)
  · exact ⟨.refl _, by simp, by simp⟩
  · refine ⟨.refl _, by simp, ?_⟩
    intro group hgroup a ha b
    obtain rfl := List.mem_singleton.mp hgroup
    obtain rfl := List.mem_singleton.mp ha
    constructor
    · intro hb
      rw [List.mem_singleton.mp hb]
    · intro hchain
      cases hchain with
      | refl => exact List.mem_singleton_self _
      | tail _ hmatch => exact hmatch.2.1

theorem components_clusterSessionCandidates (candidates : List ClusterCandidate) :
    Components (MatchIn candidates) candidates (clusterSessionCandidates candidates) := by
  by_cases hfew : candidates.length ≤ 1
  · rw [clusterSessionCandidates, if_pos hfew]
    exact components_of_single hfew
  · rw [clusterSessionCandidates_eq hfew]
    constructor
    · rw [← List.flatMap_def]
      have hperm := groupEntries_perm (rootEntries candidates)
      rwa [map_snd_rootEntries] at hperm
    · intro cluster hcluster
      obtain ⟨group, hgroup, rfl⟩ := List.mem_map.mp hcluster
      exact groupEntries_ne_nil _ group hgroup
    · intro cluster hcluster a ha b
      obtain ⟨group, hgroup, rfl⟩ := List.mem_map.mp hcluster
      rw [mem_group_iff hgroup, mem_rootEntries] at ha ⊢
      obtain ⟨left, hroot, rfl⟩ := ha
      constructor
      · rintro ⟨right, hsame, rfl⟩
        exact reflTransGen_of_eqvGen ((root_unionAll_iff left right).mp (hroot.trans hsame.symm))
      · intro hchain
        obtain ⟨right, hright, hconnected⟩ := eqvGen_of_reflTransGen hchain
        have hsame := (root_unionAll_iff left right).mpr hconnected
        exact ⟨right, hsame.symm.trans hroot, hright⟩

end Clusters

end Difflore.Memory

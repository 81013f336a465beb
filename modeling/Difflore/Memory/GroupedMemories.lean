import Difflore.Memory.Cluster

/-! # Grouping pending memories

Every memory is in one group. A session memory is grouped with those that a chain of matches in
its repository connects it to, in whatever order the memories come.
-/

namespace Difflore.Memory

open Foundation SessionMine Relation

variable {pending other : List ClusterCandidate}

variable {group session : CandidateGroup} {candidate first last : ClusterCandidate}

structure Similar (pending : List ClusterCandidate) (left right : ClusterCandidate) : Prop where
  left_mem : left ∈ pending
  right_mem : right ∈ pending
  left_session : isSession left.toPendingMemory = true
  right_session : isSession right.toPendingMemory = true
  same_repo : clusterRepoKey left = clusterRepoKey right
  matched : left.clusterKey.matches right.clusterKey = true

def groupSet (pending : List ClusterCandidate) : Set (Text × Set ClusterCandidate) :=
  { group | ∃ listed ∈ groupPendingMemories pending,
      group = (listed.1, { candidate | candidate ∈ listed.2 }) }

theorem sortCandidates_perm (candidates : List ClusterCandidate) :
    (sortCandidates candidates).Perm candidates :=
  List.perm_insertionSort _ _

theorem mem_sortCandidates {candidates : List ClusterCandidate} :
    candidate ∈ sortCandidates candidates ↔ candidate ∈ candidates :=
  (sortCandidates_perm candidates).mem_iff

theorem sortCandidates_congr {front back : List ClusterCandidate} (hperm : front.Perm back)
    (hids : ∀ left ∈ front, ∀ right ∈ front, left.itemId = right.itemId → left = right) :
    sortCandidates front = sortCandidates back := by
  have hantisymm : ∀ left right, left ∈ sortCandidates front → right ∈ sortCandidates back →
      candidateSortKey left ≤ candidateSortKey right →
        candidateSortKey right ≤ candidateSortKey left → left = right := by
    intro left right hleft hright hle hge
    have hkeys : candidateSortKey left = candidateSortKey right := le_antisymm hle hge
    have hright' : right ∈ front := hperm.mem_iff.mpr (mem_sortCandidates.mp hright)
    exact hids left (mem_sortCandidates.mp hleft) right hright'
      (congrArg (fun key => (ofLex key).2) hkeys)
  apply List.Perm.eq_of_pairwise hantisymm
  · exact List.pairwise_insertionSort _ _
  · exact List.pairwise_insertionSort _ _
  · exact ((sortCandidates_perm front).trans hperm).trans (sortCandidates_perm back).symm

theorem mem_groupPendingMemories :
    group ∈ groupPendingMemories pending ↔ group ∈ nonSessionGroups pending ∨
      ∃ session ∈ sessionsByRepo pending, group ∈ repoGroups session.2 := by
  rw [groupPendingMemories, List.mem_insertionSort, List.mem_append, List.mem_flatMap]

theorem mem_entries {key : ClusterCandidate → Text} {condition : ClusterCandidate → Bool}
    {found : Text} :
    (found, candidate) ∈ ((pending.filter condition).map fun candidate =>
        (key candidate, candidate)) ↔
      candidate ∈ pending ∧ condition candidate = true ∧ key candidate = found := by
  rw [List.mem_map]
  constructor
  · rintro ⟨original, hin, heq⟩
    obtain ⟨hkey, rfl⟩ := Prod.mk.inj heq
    obtain ⟨hmem, hcondition⟩ := List.mem_filter.mp hin
    exact ⟨hmem, hcondition, hkey⟩
  · rintro ⟨hmem, hcondition, hkey⟩
    exact ⟨candidate, List.mem_filter.mpr ⟨hmem, hcondition⟩, by rw [hkey]⟩

theorem mem_nonSession_iff (hgroup : group ∈ nonSessionGroups pending) :
    candidate ∈ group.2 ↔ candidate ∈ pending ∧
      (!isSession candidate.toPendingMemory) = true ∧ candidateGroupKey candidate = group.1 := by
  rw [mem_group_iff hgroup, mem_entries]

theorem mem_session_iff (hsession : session ∈ sessionsByRepo pending) :
    candidate ∈ session.2 ↔ candidate ∈ pending ∧
      isSession candidate.toPendingMemory = true ∧ clusterRepoKey candidate = session.1 := by
  rw [mem_group_iff hsession, mem_entries]

theorem mem_repoGroups {candidates : List ClusterCandidate} : group ∈ repoGroups candidates ↔
      ∃ cluster ∈ clusterSessionCandidates (sortCandidates candidates),
        group = (clusterGroupKey (sortCandidates cluster), sortCandidates cluster) := by
  rw [repoGroups, List.mem_map]
  constructor
  · rintro ⟨cluster, hcluster, heq⟩
    exact ⟨cluster, hcluster, heq.symm⟩
  · rintro ⟨cluster, hcluster, heq⟩
    exact ⟨cluster, hcluster, heq.symm⟩

theorem flatMap_repoGroups_perm (candidates : List ClusterCandidate) :
    ((repoGroups candidates).flatMap Prod.snd).Perm candidates := by
  have hclusters := (components_clusterSessionCandidates (sortCandidates candidates)).complete
  have hsorted : ∀ clusters : List (List ClusterCandidate), ((clusters.map fun cluster =>
        (clusterGroupKey (sortCandidates cluster), sortCandidates cluster)).flatMap Prod.snd).Perm
          clusters.flatten := by
    intro clusters
    induction clusters with
    | nil => exact .refl _
    | cons cluster rest ih =>
      simp only [List.map_cons, List.flatMap_cons, List.flatten_cons]
      exact (sortCandidates_perm cluster).append ih
  exact ((hsorted _).trans hclusters).trans (sortCandidates_perm candidates)

theorem flatMap_sessions_perm (sessions : List CandidateGroup) :
    ((sessions.flatMap fun session => repoGroups session.2).flatMap Prod.snd).Perm
      (sessions.flatMap Prod.snd) := by
  induction sessions with
  | nil => exact .refl _
  | cons session rest ih =>
    simp only [List.flatMap_cons, List.flatMap_append]
    exact (flatMap_repoGroups_perm session.2).append ih

theorem groupPendingMemories_perm (pending : List ClusterCandidate) :
    ((groupPendingMemories pending).flatMap Prod.snd).Perm pending := by
  have hdrafts := groupEntries_perm
    ((pending.filter (!isSession ·.toPendingMemory)).map fun candidate =>
      (candidateGroupKey candidate, candidate))
  have hsessions := groupEntries_perm
    ((pending.filter (isSession ·.toPendingMemory)).map fun candidate =>
      (clusterRepoKey candidate, candidate))
  simp only [List.map_map, Function.comp_def, List.map_id'] at hdrafts hsessions
  unfold groupPendingMemories
  refine ((List.perm_insertionSort _ _).flatMap_right _).trans ?_
  rw [List.flatMap_append]
  refine (hdrafts.append ((flatMap_sessions_perm _).trans hsessions)).trans ?_
  exact List.perm_append_comm.trans (List.filter_append_perm _ pending)

theorem groupPendingMemories_ne_nil (hgroup : group ∈ groupPendingMemories pending) :
    group.2 ≠ [] := by
  rcases mem_groupPendingMemories.mp hgroup with hdraft | ⟨session, _, hrepo⟩
  · exact groupEntries_ne_nil _ group hdraft
  · obtain ⟨cluster, hcluster, rfl⟩ := mem_repoGroups.mp hrepo
    have hne := (components_clusterSessionCandidates _).nonempty cluster hcluster
    intro hnil
    have hsorted : sortCandidates cluster = [] := hnil
    have hlength := (sortCandidates_perm cluster).length_eq
    rw [hsorted] at hlength
    exact hne (List.length_eq_zero_iff.mp hlength.symm)

theorem chain_iff (hsession : session ∈ sessionsByRepo pending) (hfirst : first ∈ session.2) :
    ReflTransGen (MatchIn (sortCandidates session.2)) first last ↔
      ReflTransGen (Similar pending) first last := by
  constructor
  · intro hchain
    apply ReflTransGen.mono _ _ _ hchain
    intro left right hmatch
    obtain ⟨hleft, hright, hmatched⟩ := hmatch
    have hleft' := (mem_session_iff hsession).mp (mem_sortCandidates.mp hleft)
    have hright' := (mem_session_iff hsession).mp (mem_sortCandidates.mp hright)
    exact ⟨hleft'.1, hright'.1, hleft'.2.1, hright'.2.1, hleft'.2.2.trans hright'.2.2.symm,
      hmatched⟩
  · intro hchain
    have hstays :
      last ∈ session.2 ∧ ReflTransGen (MatchIn (sortCandidates session.2)) first last := by
      induction hchain with
      | refl => exact ⟨hfirst, .refl⟩
      | tail _ hsimilar ih =>
        obtain ⟨hmiddle, hfront⟩ := ih
        have hrepo := ((mem_session_iff hsession).mp hmiddle).2.2
        have hright := (mem_session_iff hsession).mpr ⟨hsimilar.right_mem,
          hsimilar.right_session, hsimilar.same_repo.symm.trans hrepo⟩
        exact ⟨hright, hfront.tail ⟨mem_sortCandidates.mpr hmiddle,
          mem_sortCandidates.mpr hright, hsimilar.matched⟩⟩
    exact hstays.2

theorem mem_cluster_iff (hsession : session ∈ sessionsByRepo pending)
    {cluster : List ClusterCandidate}
    (hcluster : cluster ∈ clusterSessionCandidates (sortCandidates session.2))
    (hfirst : first ∈ cluster) :
    last ∈ cluster ↔ ReflTransGen (Similar pending) first last := by
  have hcomponents := components_clusterSessionCandidates (sortCandidates session.2)
  have hin : first ∈ (clusterSessionCandidates (sortCandidates session.2)).flatten :=
    List.mem_flatten.mpr ⟨cluster, hcluster, hfirst⟩
  have hmem : first ∈ session.2 := mem_sortCandidates.mp (hcomponents.complete.mem_iff.mp hin)
  rw [hcomponents.connected cluster hcluster first hfirst, chain_iff hsession hmem]

theorem mem_sessionGroup_iff (hgroup : group ∈ groupPendingMemories pending)
    (hfirst : first ∈ group.2) (hkind : isSession first.toPendingMemory = true) :
    last ∈ group.2 ↔ ReflTransGen (Similar pending) first last := by
  rcases mem_groupPendingMemories.mp hgroup with hdraft | ⟨session, hsession, hrepo⟩
  · have hnot := ((mem_nonSession_iff hdraft).mp hfirst).2.1
    rw [hkind] at hnot
    contradiction
  · obtain ⟨cluster, hcluster, rfl⟩ := mem_repoGroups.mp hrepo
    rw [mem_sortCandidates]
    exact mem_cluster_iff hsession hcluster (mem_sortCandidates.mp hfirst)

/-! ## Other orders -/

theorem similar_congr (hperm : pending.Perm other) : Similar pending = Similar other := by
  funext left right
  apply propext
  constructor
  · intro hsimilar
    exact { hsimilar with
      left_mem := hperm.mem_iff.mp hsimilar.left_mem
      right_mem := hperm.mem_iff.mp hsimilar.right_mem }
  · intro hsimilar
    exact { hsimilar with
      left_mem := hperm.mem_iff.mpr hsimilar.left_mem
      right_mem := hperm.mem_iff.mpr hsimilar.right_mem }

theorem nonSession_of_perm (hperm : pending.Perm other)
    (hgroup : group ∈ nonSessionGroups pending) :
    ∃ values, (group.1, values) ∈ nonSessionGroups other ∧
      ∀ candidate, candidate ∈ group.2 ↔ candidate ∈ values := by
  obtain ⟨first, hfirst⟩ := List.exists_mem_of_ne_nil _ (groupEntries_ne_nil _ group hgroup)
  obtain ⟨hin, hkind, hkey⟩ := (mem_nonSession_iff hgroup).mp hfirst
  have hentry : (group.1, first) ∈
      ((other.filter (!isSession ·.toPendingMemory)).map fun candidate =>
        (candidateGroupKey candidate, candidate)) :=
    mem_entries.mpr ⟨hperm.mem_iff.mp hin, hkind, hkey⟩
  obtain ⟨values, hvalues, _⟩ := exists_group hentry
  refine ⟨values, hvalues, ?_⟩
  intro candidate
  have hother : candidate ∈ values ↔ _ := mem_nonSession_iff hvalues
  rw [hother, mem_nonSession_iff hgroup, hperm.mem_iff]

theorem exists_cluster (hin : candidate ∈ pending)
    (hkind : isSession candidate.toPendingMemory = true) :
    ∃ session ∈ sessionsByRepo pending,
      ∃ cluster ∈ clusterSessionCandidates (sortCandidates session.2), candidate ∈ cluster := by
  have hentry : (clusterRepoKey candidate, candidate) ∈
      ((pending.filter (isSession ·.toPendingMemory)).map fun candidate =>
        (clusterRepoKey candidate, candidate)) :=
    mem_entries.mpr ⟨hin, hkind, rfl⟩
  obtain ⟨values, hvalues, hmem⟩ := exists_group hentry
  have hcomplete := (components_clusterSessionCandidates (sortCandidates values)).complete
  obtain ⟨cluster, hcluster, hcandidate⟩ := List.mem_flatten.mp
    (hcomplete.mem_iff.mpr (mem_sortCandidates.mpr hmem))
  exact ⟨_, hvalues, cluster, hcluster, hcandidate⟩

theorem nodup_cluster (hnodup : pending.Nodup) (hsession : session ∈ sessionsByRepo pending)
    {cluster : List ClusterCandidate}
    (hcluster : cluster ∈ clusterSessionCandidates (sortCandidates session.2)) :
    cluster.Nodup := by
  have hentries := group_eq hsession
  have hsublist : session.2.Nodup := by
    rw [hentries]
    have hall : (((pending.filter (isSession ·.toPendingMemory)).map fun candidate =>
        (clusterRepoKey candidate, candidate)).map Prod.snd).Nodup := by
      simp only [List.map_map, Function.comp_def, List.map_id']
      exact hnodup.filter _
    exact hall.sublist (List.filter_sublist.map _)
  have hcomplete := (components_clusterSessionCandidates (sortCandidates session.2)).complete
  have hflat : (clusterSessionCandidates (sortCandidates session.2)).flatten.Nodup :=
    hcomplete.nodup_iff.mpr ((sortCandidates_perm _).nodup_iff.mpr hsublist)
  exact hflat.sublist (List.sublist_flatten_of_mem hcluster)

theorem repoGroup_of_perm (hids : (pending.map (·.itemId)).Nodup) (hperm : pending.Perm other)
    (hsession : session ∈ sessionsByRepo pending) (hgroup : group ∈ repoGroups session.2) :
    group ∈ groupPendingMemories other := by
  obtain ⟨cluster, hcluster, rfl⟩ := mem_repoGroups.mp hgroup
  have hne := (components_clusterSessionCandidates _).nonempty cluster hcluster
  obtain ⟨first, hfirst⟩ := List.exists_mem_of_ne_nil _ hne
  have hinside : ∀ {candidate}, candidate ∈ cluster → candidate ∈ pending ∧
      isSession candidate.toPendingMemory = true := by
    intro candidate hcandidate
    have hcomplete := (components_clusterSessionCandidates (sortCandidates session.2)).complete
    have hflat := List.mem_flatten.mpr ⟨cluster, hcluster, hcandidate⟩
    have hmem := (mem_session_iff hsession).mp
      (mem_sortCandidates.mp (hcomplete.mem_iff.mp hflat))
    exact ⟨hmem.1, hmem.2.1⟩
  obtain ⟨session', hsession', cluster', hcluster', hfirst'⟩ :=
    exists_cluster (hperm.mem_iff.mp (hinside hfirst).1) (hinside hfirst).2
  have hnodup : pending.Nodup := hids.of_map _
  have hsame : cluster.Perm cluster' := by
    rw [List.perm_ext_iff_of_nodup (nodup_cluster hnodup hsession hcluster)
      (nodup_cluster (hperm.nodup_iff.mp hnodup) hsession' hcluster')]
    intro candidate
    rw [mem_cluster_iff hsession hcluster hfirst, mem_cluster_iff hsession' hcluster' hfirst',
      similar_congr hperm]
  have hsorted := sortCandidates_congr hsame fun left hleft right hright hid =>
    List.inj_on_of_nodup_map hids (hinside hleft).1 (hinside hright).1 hid
  rw [mem_groupPendingMemories]
  refine .inr ⟨session', hsession', mem_repoGroups.mpr ⟨cluster', hcluster', ?_⟩⟩
  rw [hsorted]

theorem groupSet_subset (hids : (pending.map (·.itemId)).Nodup) (hperm : pending.Perm other) :
    groupSet pending ⊆ groupSet other := by
  rintro group ⟨listed, hlisted, rfl⟩
  rcases mem_groupPendingMemories.mp hlisted with hdraft | ⟨session, hsession, hrepo⟩
  · obtain ⟨values, hvalues, hsame⟩ := nonSession_of_perm hperm hdraft
    refine ⟨_, mem_groupPendingMemories.mpr (.inl hvalues), ?_⟩
    apply Prod.ext
    · rfl
    · ext candidate
      exact hsame candidate
  · exact ⟨listed, repoGroup_of_perm hids hperm hsession hrepo, rfl⟩

/-- Each memory is in one group, no group is empty, the session groups are the components of
similarity, and the order of the memories does not matter. -/
theorem groupPendingMemories_components (hids : (pending.map (·.itemId)).Nodup) :
    ((groupPendingMemories pending).flatMap Prod.snd).Perm pending ∧
      (∀ group ∈ groupPendingMemories pending, group.2 ≠ []) ∧
      (∀ group ∈ groupPendingMemories pending, ∀ first ∈ group.2,
        isSession first.toPendingMemory = true →
          ∀ last, last ∈ group.2 ↔ ReflTransGen (Similar pending) first last) ∧
      ∀ other, pending.Perm other → groupSet pending = groupSet other := by
  refine ⟨groupPendingMemories_perm pending, ?_, ?_, ?_⟩
  · intro group hgroup
    exact groupPendingMemories_ne_nil hgroup
  · intro group hgroup first hfirst hkind last
    exact mem_sessionGroup_iff hgroup hfirst hkind
  · intro other hperm
    have hids' : (other.map (·.itemId)).Nodup := (hperm.map _).nodup_iff.mp hids
    exact Set.Subset.antisymm (groupSet_subset hids hperm) (groupSet_subset hids' hperm.symm)

def tauriMemory (id title : String) : ClusterCandidate where
  itemId := id.toList
  kind := .session id.toList
  body := "Start the desktop app with npm run tauri dev."
  sessionId := none
  sessionCreatedAtMs := none
  distinctEvidenceCount := none
  title := title.toList
  sourceRepo := some "acme/cortex"
  filePatterns := []

def tauriMemories : List ClusterCandidate :=
  [tauriMemory "s1" "Tauri dev startup", tauriMemory "s2" "Desktop dev startup"]

theorem groupPendingMemories_components_tauri :
    ((groupPendingMemories tauriMemories).flatMap Prod.snd).Perm tauriMemories ∧
      (∀ group ∈ groupPendingMemories tauriMemories, group.2 ≠ []) ∧
      (∀ group ∈ groupPendingMemories tauriMemories, ∀ first ∈ group.2,
        isSession first.toPendingMemory = true →
          ∀ last, last ∈ group.2 ↔ ReflTransGen (Similar tauriMemories) first last) ∧
      ∀ other, tauriMemories.Perm other → groupSet tauriMemories = groupSet other :=
  groupPendingMemories_components (by decide)

end Difflore.Memory

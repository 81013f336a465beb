import Difflore.Context.IndexFreshness

/-! # The profile of the indexed vectors

The record names one profile for all vectors of the index. It is written behind the transaction
that replaces the vectors, by a statement of its own, so a call that fails in between leaves new
vectors under the old name.
-/

namespace Difflore.Context

open Foundation Infra

variable (library : Library)

variable {call : IndexCall} {world : IndexWorld} {count : Nat} {state : RuleIndexState}

/-- `rebuild_rules_index_for_repo_scopes`: all chunks are pruned first. The settings are read
again for each of the two passes. -/
def rebuildRulesIndex (call : IndexCall) (pruning : EmbeddingEnv) (skills : SkillTable)
    (index : RuleIndex) : List IndexStatement :=
  let state := call.state library skills index
  let pruned := planUpsert .active pruning [] index
  let outcome := planUpsert .active call.env (call.rules library skills) (index.commit pruned)
  .commit pruned :: .commit outcome ::
    markRuleIndexCurrent { state with embeddingProfile := outcome.embeddingProfile }

/-- A write, a call, or a rebuild; either may fail after some of its statements. -/
inductive IndexerMove
  | indexed (move : IndexMove)
  | rebuild (call : IndexCall) (pruning : EmbeddingEnv) (failsAfter : Option Nat)

def executedOf (statements : List IndexStatement) (failsAfter : Option Nat) : List IndexStatement :=
  failsAfter.elim statements fun count => statements.take count

def IndexWorld.nextOf (world : IndexWorld) : IndexerMove → IndexWorld
  | .indexed move => world.next library move
  | .rebuild call pruning failsAfter =>
    { world with index :=
      (executedOf (rebuildRulesIndex library call pruning world.skills world.index)
        failsAfter).foldl RuleIndex.exec world.index }

def IndexWorld.stepOf (world : IndexWorld) (move : IndexerMove) : Option IndexWorld :=
  some (world.nextOf library move)

/-- The profile of the vectors that are written: the local one if a remote provider leaves a text
without an answer. -/
def writtenProfile (mode : RuleIndexEmbeddingMode) (env : EmbeddingEnv)
    (toEmbed : List RuleDocument) : Text :=
  match mode with
  | .localOnly => localEmbeddingProfile
  | .active => if fallsBack env toEmbed then localEmbeddingProfile else env.probed.profile

/-- An answer that is used comes from the embedder that was planned with. -/
def Steady (mode : RuleIndexEmbeddingMode) (env : EmbeddingEnv) (toEmbed : List RuleDocument) :
    Prop :=
  mode = .active → fallsBack env toEmbed = false →
    (∃ position < toEmbed.length, env.answered position = true) →
      env.embedder.profile = env.probed.profile

/-- The first statements of a call, as many as are asked for, are executed. -/
def Reaches (count : Nat) (failsAfter : Option Nat) : Prop :=
  ∀ executed, failsAfter = some executed → count ≤ executed

/-- A call that replaces vectors goes on until it has named their profile, unless the record
already does, or names none. The name is the third statement behind the last transaction. -/
structure KeepsName (index : RuleIndex) (mode : RuleIndexEmbeddingMode) (env : EmbeddingEnv)
    (rules toEmbed : List RuleDocument) (commits : Nat) (failsAfter : Option Nat) : Prop where
  steady : Steady mode env toEmbed
  named : rules = [] ∨ index.recorded.embeddingProfile = none ∨
    index.recorded.embeddingProfile = some (writtenProfile mode env toEmbed) ∨
      Reaches (commits + 3) failsAfter

def Unmixed (world : IndexWorld) : IndexerMove → Prop
  | .indexed (.write _) => True
  | .indexed (.ensure call failsAfter) =>
    call.current library world.skills world.index = false → Reaches 1 failsAfter →
      KeepsName world.index call.mode call.env (call.rules library world.skills)
        (rowsToEmbed world.index (upsertProfile call.mode call.env)
          (call.rules library world.skills)) 1 failsAfter
  | .rebuild call _ failsAfter =>
    Reaches 2 failsAfter → KeepsName world.index .active call.env (call.rules library world.skills)
        (call.rules library world.skills) 2 failsAfter

/-! ## One upsert -/

def AllBy (profile : Text) (index : RuleIndex) : Prop :=
  ∀ chunk ∈ index.chunks.rows, chunk.embedding.profile = profile

def Coherent (index : RuleIndex) : Prop :=
  ∀ profile, index.recorded.embeddingProfile = some profile → AllBy profile index

section Upsert

variable {library} {mode : RuleIndexEmbeddingMode} {env : EmbeddingEnv}
  {rules : List RuleDocument} {index : RuleIndex}

theorem embeddingProfile_planUpsert (mode : RuleIndexEmbeddingMode) (env : EmbeddingEnv)
    (rules : List RuleDocument) (index : RuleIndex) :
    (planUpsert mode env rules index).embeddingProfile =
      writtenProfile mode env (rowsToEmbed index (upsertProfile mode env) rules) := by
  cases mode with
  | localOnly => rfl
  | active =>
    unfold planUpsert writtenProfile
    dsimp only
    split
    next => rfl
    next => rfl

theorem profile_of_not_semantic {kind : ActiveEmbedderKind}
    (hkind : isSemanticProfile kind.profile = false) : kind.profile = localEmbeddingProfile := by
  cases kind with
  | cloud => exact absurd hkind (by decide)
  | byok host model dim =>
    have hprefix : "byok:".toList.isPrefixOf
        (ActiveEmbedderKind.byok host model dim).profile = true :=
      List.isPrefixOf_iff_prefix.mpr (List.prefix_append _ _)
    rw [isSemanticProfile, hprefix, Bool.or_true] at hkind
    contradiction
  | sha1 => rfl

theorem profile_embeddedRows {toEmbed : List RuleDocument} (hsteady : Steady .active env toEmbed)
    (hanswered : fallsBack env toEmbed = false) :
    ∀ row ∈ embeddedRows env toEmbed, row.vector.profile = env.probed.profile := by
  intro row hrow
  have hsemantic := hanswered
  unfold fallsBack at hsemantic
  unfold embeddedRows embedTexts at hrow
  obtain ⟨position, hposition, heq⟩ := List.mem_mapIdx.mp hrow
  rw [List.length_map] at hposition
  cases hanswer : env.answered position with
  | true =>
    rw [if_pos hanswer] at heq
    rw [← heq]
    exact hsteady rfl hanswered ⟨position, hposition, hanswer⟩
  | false =>
    rw [if_neg (Bool.eq_false_iff.mp hanswer)] at heq
    have hlocal : isSemanticProfile env.probed.profile = false := by
      by_contra hremote
      rw [Bool.not_eq_false] at hremote
      rw [hremote, Bool.true_and, List.any_eq_false] at hsemantic
      refine hsemantic row ?_ (by rw [← heq]; rfl)
      unfold embeddedRows embedTexts
      exact hrow
    rw [← heq, profile_of_not_semantic hlocal]
    rfl

theorem profile_pending
    (hsteady : Steady mode env (rowsToEmbed index (upsertProfile mode env) rules)) :
    ∀ chunk ∈ (planUpsert mode env rules index).pending,
      chunk.embedding.profile = (planUpsert mode env rules index).embeddingProfile := by
  have hlocal : ∀ rules : List RuleDocument, ∀ chunk ∈ rules.map RuleDocument.localChunk,
      chunk.embedding.profile = localEmbeddingProfile := by
    intro rules chunk hchunk
    obtain ⟨rule, -, rfl⟩ := List.mem_map.mp hchunk
    rfl
  cases mode with
  | localOnly => exact hlocal _
  | active =>
    unfold planUpsert
    dsimp only
    split
    next => exact hlocal rules
    next hanswered =>
      intro chunk hchunk
      obtain ⟨position, hposition, heq⟩ := List.mem_iff_getElem.mp hchunk
      rw [List.getElem_zipWith] at heq
      rw [← heq]
      exact profile_embeddedRows hsteady (Bool.eq_false_iff.mpr hanswered) _
        (List.getElem_mem _)

theorem allBy_commit (hcoherent : Coherent index) (hnodup : (rules.map RuleDocument.skillId).Nodup)
    (hsteady : Steady mode env (rowsToEmbed index (upsertProfile mode env) rules)) :
    AllBy (planUpsert mode env rules index).embeddingProfile
      (index.commit (planUpsert mode env rules index)) := by
  intro chunk hchunk
  obtain ⟨covered, hplanned⟩ := planned_planUpsert mode env rules index
  rcases (hplanned.mem_commit hnodup).mp hchunk with hpending | ⟨hold, rule, hrule, hkept, -⟩
  · exact profile_pending hsteady chunk hpending
  · -- a vector is kept only if the record has the profile of the upsert
    exact hcoherent _ (hplanned.kept hrule hkept).1 chunk hold

theorem rows_commit_nil (mode : RuleIndexEmbeddingMode) (env : EmbeddingEnv) (index : RuleIndex) :
    (index.commit (planUpsert mode env [] index)).chunks.rows = [] := by
  obtain ⟨covered, hplanned⟩ := planned_planUpsert mode env [] index
  apply List.eq_nil_iff_forall_not_mem.mpr
  intro chunk hchunk
  have hentries := (hplanned.entries_commit List.nodup_nil).mem_iff.mp
    (List.mem_map_of_mem hchunk)
  exact absurd hentries List.not_mem_nil

theorem rowsToEmbed_of_empty (hrows : index.chunks.rows = []) (profile : Text)
    (rules : List RuleDocument) : rowsToEmbed index profile rules = rules := by
  unfold rowsToEmbed
  apply List.filter_eq_self.mpr
  intro rule _
  have hnone : index.chunks.find (chunkId rule.skillId) = none := by
    cases hfind : index.chunks.find (chunkId rule.skillId) with
    | none => rfl
    | some chunk =>
      have hmem := (KeyedTable.find_eq_some.mp hfind).1
      rw [hrows] at hmem
      exact absurd hmem List.not_mem_nil
  rw [hnone]
  simp

theorem coherent_of_empty (hrows : index.chunks.rows = []) : Coherent index := by
  intro profile _ chunk hchunk
  rw [hrows] at hchunk
  exact absurd hchunk List.not_mem_nil

theorem mark_take_of_le (state : RuleIndexState) (hcount : 5 ≤ count) :
    (markRuleIndexCurrent state).take count = markRuleIndexCurrent state :=
  List.take_of_length_le hcount

theorem chunks_mark_take (state : RuleIndexState) (index : RuleIndex) (count : Nat) :
    (((markRuleIndexCurrent state).take count).foldl RuleIndex.exec index).chunks =
      index.chunks := by
  match count with
  | 0 | 1 | 2 | 3 | 4 => rfl
  | count + 5 =>
    rw [mark_take_of_le state (Nat.le_add_left 5 count)]
    rfl

theorem profile_mark_take (state : RuleIndexState) (index : RuleIndex) (count : Nat) :
    (((markRuleIndexCurrent state).take count).foldl RuleIndex.exec index).recorded.embeddingProfile =
      if 3 ≤ count then some state.embeddingProfile else index.recorded.embeddingProfile := by
  match count with
  | 0 | 1 | 2 | 3 | 4 => rfl
  | count + 5 =>
    have hlong : 3 ≤ count + 5 := by omega
    rw [mark_take_of_le state (Nat.le_add_left 5 count), if_pos hlong]
    rfl

theorem coherent_mark_take (hall : AllBy state.embeddingProfile index)
    (hnamed : index.recorded.embeddingProfile = none ∨
      index.recorded.embeddingProfile = some state.embeddingProfile ∨ 3 ≤ count) :
    Coherent (((markRuleIndexCurrent state).take count).foldl RuleIndex.exec index) := by
  intro profile hprofile
  unfold AllBy
  rw [chunks_mark_take]
  rw [profile_mark_take] at hprofile
  split at hprofile
  next => exact Option.some.inj hprofile ▸ hall
  next hshort =>
    rcases hnamed with hnone | hsame | hlong
    · rw [hnone] at hprofile
      contradiction
    · exact Option.some.inj (hsame.symm.trans hprofile) ▸ hall
    · exact absurd hlong hshort

end Upsert

/-! ## One call -/

section Call

variable {library} {index : RuleIndex} {failsAfter : Option Nat}

theorem not_reaches_iff :
    ¬ Reaches count failsAfter ↔ ∃ executed < count, failsAfter = some executed := by
  unfold Reaches
  push Not
  exact exists_congr fun executed => and_comm

/-- A call that reaches the end of its transactions executes them, and statements of the record
from the first on. -/
theorem executedOf_reaches {commits : List IndexStatement}
    (hreaches : Reaches commits.length failsAfter) (state : RuleIndexState) :
    ∃ count, executedOf (commits ++ markRuleIndexCurrent state) failsAfter =
        commits ++ (markRuleIndexCurrent state).take count ∧
      (Reaches (commits.length + 3) failsAfter → 3 ≤ count) := by
  cases failsAfter with
  | none => exact ⟨5, rfl, fun _ => by decide⟩
  | some executed =>
    obtain ⟨more, rfl⟩ := Nat.exists_eq_add_of_le (hreaches executed rfl)
    refine ⟨more, List.take_length_add_append more, ?_⟩
    intro hlong
    have hexecuted := hlong _ rfl
    omega

theorem executedOf_nil (failsAfter : Option Nat) : executedOf [] failsAfter = [] := by
  cases failsAfter with
  | none => rfl
  | some executed => exact List.take_nil

theorem coherent_last {mode : RuleIndexEmbeddingMode} {env : EmbeddingEnv}
    {rules toEmbed : List RuleDocument} (hcoherent : Coherent index)
    (hnodup : (rules.map RuleDocument.skillId).Nodup)
    (htoEmbed : rowsToEmbed index (upsertProfile mode env) rules = toEmbed) {commits : Nat}
    (hkeeps : KeepsName index mode env rules toEmbed commits failsAfter)
    (hstate : state.embeddingProfile = (planUpsert mode env rules index).embeddingProfile)
    (hcount : Reaches (commits + 3) failsAfter → 3 ≤ count) :
    Coherent (((markRuleIndexCurrent state).take count).foldl RuleIndex.exec
      (index.commit (planUpsert mode env rules index))) := by
  subst htoEmbed
  by_cases hrules : rules = []
  · apply coherent_of_empty
    rw [chunks_mark_take, hrules]
    exact rows_commit_nil mode env index
  · have hall := allBy_commit hcoherent hnodup hkeeps.steady
    apply coherent_mark_take (hstate ▸ hall)
    rw [recorded_commit, hstate, embeddingProfile_planUpsert]
    rcases hkeeps.named with hnone | hunnamed | hsame | hlong
    · exact absurd hnone hrules
    · exact .inl hunnamed
    · exact .inr (.inl hsame)
    · exact .inr (.inr (hcount hlong))

theorem ensureRulesIndexed_eq {skills : SkillTable} {index : RuleIndex}
    (hstale : call.current library skills index = false) :
    ensureRulesIndexed library call skills index =
      [.commit (planUpsert call.mode call.env (call.rules library skills) index)] ++
        markRuleIndexCurrent
          { call.state library skills index with
            embeddingProfile := (planUpsert call.mode call.env (call.rules library skills)
              index).embeddingProfile } := by
  unfold ensureRulesIndexed
  dsimp only
  rw [hstale]
  rfl

theorem coherent_ensure (hcoherent : Coherent world.index)
    (hunmixed : Unmixed library world (.indexed (.ensure call failsAfter))) :
    Coherent (world.next library (.ensure call failsAfter)).index := by
  show Coherent ((executedOf (ensureRulesIndexed library call world.skills world.index)
    failsAfter).foldl RuleIndex.exec world.index)
  cases hcurrent : call.current library world.skills world.index with
  | true =>
    rw [ensureRulesIndexed_of_current hcurrent, executedOf_nil]
    exact hcoherent
  | false =>
    by_cases hreaches : Reaches 1 failsAfter
    · rw [ensureRulesIndexed_eq hcurrent]
      obtain ⟨count, hexecuted, hcount⟩ := @executedOf_reaches failsAfter
        [.commit (planUpsert call.mode call.env (call.rules library world.skills) world.index)]
        hreaches _
      rw [hexecuted, List.foldl_append]
      exact coherent_last hcoherent (call.nodup_rules world.skills) rfl
        (hunmixed hcurrent hreaches) rfl hcount
    · obtain ⟨executed, hfew, rfl⟩ := not_reaches_iff.mp hreaches
      obtain rfl : executed = 0 := by omega
      exact hcoherent

theorem coherent_rebuild {pruning : EmbeddingEnv} (hcoherent : Coherent world.index)
    (hunmixed : Unmixed library world (.rebuild call pruning failsAfter)) :
    Coherent (world.nextOf library (.rebuild call pruning failsAfter)).index := by
  show Coherent ((executedOf (rebuildRulesIndex library call pruning world.skills world.index)
    failsAfter).foldl RuleIndex.exec world.index)
  have hrows := rows_commit_nil .active pruning world.index
  by_cases hreaches : Reaches 2 failsAfter
  · obtain ⟨count, hexecuted, hcount⟩ := @executedOf_reaches failsAfter
      [.commit (planUpsert .active pruning [] world.index),
        .commit (planUpsert .active call.env (call.rules library world.skills)
          (world.index.commit (planUpsert .active pruning [] world.index)))] hreaches
      { call.state library world.skills world.index with
        embeddingProfile := (planUpsert .active call.env (call.rules library world.skills)
          (world.index.commit (planUpsert .active pruning [] world.index))).embeddingProfile }
    unfold rebuildRulesIndex
    refine (congrArg (fun executed => Coherent (List.foldl RuleIndex.exec world.index executed))
      hexecuted).mpr ?_
    rw [List.foldl_append]
    obtain ⟨hsteady, hnamed⟩ := hunmixed hreaches
    rw [← recorded_commit world.index (planUpsert .active pruning [] world.index)] at hnamed
    exact coherent_last (coherent_of_empty hrows) (call.nodup_rules world.skills)
      (rowsToEmbed_of_empty hrows _ _) ⟨hsteady, hnamed⟩ rfl hcount
  · obtain ⟨executed, hfew, rfl⟩ := not_reaches_iff.mp hreaches
    match executed with
    | 0 => exact hcoherent
    | 1 => exact coherent_of_empty hrows
    | _ + 2 => omega

end Call

section Runs

variable {library}

theorem Coherent.step {next : IndexWorld} {move : IndexerMove} (hcoherent : Coherent world.index)
    (hunmixed : Unmixed library world move) (hstep : world.stepOf library move = some next) :
    Coherent next.index := by
  obtain rfl := Option.some.inj hstep
  cases move with
  | indexed move =>
    cases move with
    | write write => exact hcoherent
    | ensure call failsAfter => exact coherent_ensure hcoherent hunmixed
  | rebuild call pruning failsAfter => exact coherent_rebuild hcoherent hunmixed

/-- In every history whose calls keep the name right, an index that passes as current for a
profile has vectors of that profile only. -/
theorem indexed_profile_of_run {skills : SkillTable} {schedule : List IndexerMove}
    (hrun : Run (IndexWorld.stepOf library) (Unmixed library) (.start skills) schedule world)
    (hcurrent : ruleIndexIsCurrent world.index state = true) :
    ∀ chunk ∈ world.index.chunks.rows, chunk.embedding.profile = state.embeddingProfile := by
  have hkept : ∀ (world : IndexWorld) (move : IndexerMove) (next : IndexWorld),
      Coherent world.index → Unmixed library world move →
        world.stepOf library move = some next → Coherent next.index :=
    fun _ _ _ hgood hunmixed hstep => hgood.step hunmixed hstep
  have hcoherent : Coherent world.index :=
    @Run.invariant _ _ _ _ (fun world : IndexWorld => Coherent world.index) hkept _ _ _ hrun
      (coherent_of_empty rfl)
  exact hcoherent _ (indexedAs_of_current hcurrent).profile

end Runs

section Samples

/-- A call whose settings name the managed embedder, which answers. -/
def managedCall : IndexCall where
  repoScopes := ownCall.repoScopes
  mode := .active
  env := ⟨.cloud, false, .cloud, .cloud, fun _ => true⟩

/-- A rule indexed locally is indexed again for the managed embedder. -/
def managedWorld (failsAfter : Option Nat) : IndexWorld :=
  indexedWorld.nextOf sampleLibrary (.indexed (.ensure managedCall failsAfter))

theorem indexed_profile_of_managedWorld : (managedWorld none).index.chunks.rows ≠ [] ∧
      ∀ chunk ∈ (managedWorld none).index.chunks.rows, chunk.embedding.profile = cloudProfile := by
  have hfirst : Unmixed sampleLibrary
      ((IndexWorld.start .empty).next sampleLibrary
        (.write (.rememberRule rememberedRule firstSecond))) (.indexed (.ensure ownCall none)) :=
    fun _ _ => ⟨fun hactive => (nomatch hactive), .inr (.inl rfl)⟩
  have hsecond : Unmixed sampleLibrary indexedWorld (.indexed (.ensure managedCall none)) :=
    fun _ _ => ⟨fun _ _ _ => rfl, .inr (.inr (.inr fun _ hfails => (nomatch hfails)))⟩
  have hrun : Run (IndexWorld.stepOf sampleLibrary) (Unmixed sampleLibrary) (.start .empty)
      [.indexed (.write (.rememberRule rememberedRule firstSecond)),
        .indexed (.ensure ownCall none), .indexed (.ensure managedCall none)]
      (managedWorld none) :=
    .cons trivial rfl (.cons hfirst rfl (.cons hsecond rfl (.nil _)))
  have hcurrent : ruleIndexIsCurrent (managedWorld none).index
      (managedCall.state sampleLibrary (managedWorld none).skills (managedWorld none).index) =
        true := by decide
  exact ⟨by decide, indexed_profile_of_run hrun hcurrent⟩

/-- The call fails behind its transaction: the next local call takes the managed vectors for
local ones. -/
theorem torn_call_mixes_profiles : ruleIndexIsCurrent (managedWorld (some 1)).index
        (ownCall.state sampleLibrary (managedWorld (some 1)).skills
          (managedWorld (some 1)).index) = true ∧
      (ownCall.state sampleLibrary (managedWorld (some 1)).skills
        (managedWorld (some 1)).index).embeddingProfile = localEmbeddingProfile ∧
      ¬ ∀ chunk ∈ (managedWorld (some 1)).index.chunks.rows,
        chunk.embedding.profile = localEmbeddingProfile := by
  decide

end Samples

end Difflore.Context

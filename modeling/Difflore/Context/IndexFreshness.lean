import Difflore.Context.RuleIndex
import Difflore.Foundation.Run

/-! # Freshness of the rule index

A call that succeeds leaves the documents of the active rules in scope, in every history in
which the fingerprint tells a changed index from an unchanged one: no call is cut short after
its transaction, and no write gives an indexed rule another document with a stamp that the
record covers. Stamps have a resolution of one second, so a rule that is edited in the second
in which it was indexed is such a write.
-/

namespace Difflore.Context

open Foundation Infra

variable (library : Library)

variable {call : IndexCall} {world : IndexWorld} {index : RuleIndex} {skills : SkillTable}

/-- The index holds exactly the documents of the active rules in scope. -/
def Fresh (skills : SkillTable) (repoScopes : List Text) (index : RuleIndex) : Prop :=
  (index.chunks.rows.map RuleChunk.entry).Perm
    ((filterRulesForRepoScopes (loadRulesFromDb library skills) repoScopes).map RuleDocument.entry)

/-- A write leaves an indexed rule as it was, with no earlier stamp, or gives it the indexed
document, or stamps it later than the record. -/
def StampsLater (skills after : SkillTable) (index : RuleIndex) : Prop :=
  ∀ row ∈ after.rows, ∀ chunk ∈ index.chunks.rows, chunk.skillId = row.id →
    (∃ old ∈ skills.rows, old.id = row.id ∧ old.updatedAt ≤ row.updatedAt ∧
      (ruleDocument library old).entry = (ruleDocument library row).entry) ∨
    chunk.entry = (ruleDocument library row).entry ∨
    index.recorded.skillsMaxUpdatedAt < row.updatedAt

/-- The call is not cut short between its transaction and its last statement. -/
def Whole (call : IndexCall) (failsAfter : Option Nat) (world : IndexWorld) : Prop :=
  ∀ count, failsAfter = some count →
    count = 0 ∨ (ensureRulesIndexed library call world.skills world.index).length ≤ count

/-- The rules in scope and the indexed ones share a signature only if they are the same. -/
def TellsApart (call : IndexCall) (world : IndexWorld) : Prop :=
  let ids := (call.rules library world.skills).map RuleDocument.skillId
  let indexed := world.index.chunks.rows.map RuleChunk.skillId
  scopeSignatureFromSkillIds library ids = scopeSignatureFromSkillIds library indexed →
    ids.Perm indexed

def Noticed (world : IndexWorld) : IndexMove → Prop
  | .write write => StampsLater library world.skills (write.apply library world.skills) world.index
  | .ensure call failsAfter => Whole library call failsAfter world ∧ TellsApart library call world

variable {library}

theorem stampsLater_of_later {write : SkillWrite} {now : Stamp} (hnow : write.now = some now)
    (hlater : index.recorded.skillsMaxUpdatedAt < now) (skills : SkillTable) :
    StampsLater library skills (write.apply library skills) index := by
  intro row hrow chunk _ _
  rcases write.writtenAt hnow skills row hrow with hstamp | ⟨old, hold, hid, hdocument, hsame⟩
  · exact .inr (.inr (hstamp ▸ hlater))
  · exact .inl ⟨old, hold, hid, le_of_eq hsame, congrArg RuleDocument.entry hdocument⟩

/-- The record describes the chunks, and a rule that has another document than its chunk is
stamped later. -/
structure Recorded (library : Library) (skills : SkillTable) (index : RuleIndex) : Prop where
  count : index.recorded.skillsCount = some index.chunks.rows.length
  signature : index.recorded.skillsScopeSignature = some
    ((scopeSignatureFromSkillIds library (index.chunks.rows.map RuleChunk.skillId)).getD [])
  documents : ∀ row ∈ skills.rows, ∀ chunk ∈ index.chunks.rows, chunk.skillId = row.id →
    chunk.entry = (ruleDocument library row).entry ∨
      index.recorded.skillsMaxUpdatedAt < row.updatedAt

def Described (library : Library) (world : IndexWorld) : Prop :=
  world.index.recorded.ruleIndexVersion = none ∨ Recorded library world.skills world.index

theorem Recorded.write {after : SkillTable} (hrecorded : Recorded library skills index)
    (hstamps : StampsLater library skills after index) : Recorded library after index where
  count := hrecorded.count
  signature := hrecorded.signature
  documents := by
    intro row hrow chunk hchunk hid
    rcases hstamps row hrow chunk hchunk hid with
      ⟨old, hold, hsame, hstamp, hdocument⟩ | hindexed | hlater
    · rcases hrecorded.documents old hold chunk hchunk (hid.trans hsame.symm) with
        hentry | hstale
      · exact .inl (hentry.trans hdocument)
      · exact .inr (hstale.trans_le (WithBot.coe_le_coe.mpr hstamp))
    · exact .inl hindexed
    · exact .inr hlater

/-! ## A call that is not needed -/

/-- `rule_index_is_current`, as far as freshness goes. -/
structure IndexedAs (index : RuleIndex) (state : RuleIndexState) : Prop where
  version : index.recorded.ruleIndexVersion = some ruleIndexMetaVersion
  count : index.recorded.skillsCount = some state.ruleCount
  profile : index.recorded.embeddingProfile = some state.embeddingProfile
  signature : ∀ expected, state.scopeSignature = some expected →
    index.recorded.skillsScopeSignature = some expected
  maxUpdatedAt : index.recorded.skillsMaxUpdatedAt = state.maxUpdatedAt

theorem indexedAs_of_current {state : RuleIndexState}
    (hcurrent : ruleIndexIsCurrent index state = true) : IndexedAs index state := by
  unfold ruleIndexIsCurrent at hcurrent
  split at hcurrent
  next => contradiction
  split at hcurrent
  next => contradiction
  split at hcurrent
  next => contradiction
  next hversion =>
  split at hcurrent
  next => contradiction
  next hcount =>
  split at hcurrent
  next => contradiction
  next hprofile =>
  split at hcurrent
  next => contradiction
  next hsignature =>
  refine ⟨not_not.mp hversion, not_not.mp hcount, not_not.mp hprofile, ?_,
    of_decide_eq_true hcurrent⟩
  intro expected hexpected
  rw [hexpected] at hsignature
  simpa using hsignature

theorem Recorded.ids_perm (hrecorded : Recorded library world.skills world.index)
    (happart : TellsApart library call world)
    (hcurrent : IndexedAs world.index (call.state library world.skills world.index)) :
    ((call.rules library world.skills).map RuleDocument.skillId).Perm
      (world.index.chunks.rows.map RuleChunk.skillId) := by
  have hlength : world.index.chunks.rows.length = (call.rules library world.skills).length :=
    Option.some.inj (hrecorded.count.symm.trans hcurrent.count)
  by_cases hnone : call.rules library world.skills = []
  · rw [hnone, List.length_nil, List.length_eq_zero_iff] at hlength
    rw [hnone, hlength]
    exact List.Perm.nil
  · apply happart
    have hids : (call.rules library world.skills).map RuleDocument.skillId ≠ [] := by
      simpa using hnone
    have hindexed : world.index.chunks.rows.map RuleChunk.skillId ≠ [] := by
      intro hnil
      rw [List.map_eq_nil_iff.mp hnil] at hlength
      exact hnone (List.eq_nil_of_length_eq_zero hlength.symm)
    obtain ⟨expected, hexpected⟩ :=
      Option.ne_none_iff_exists'.mp fun hnone => hids (scopeSignature_eq_none.mp hnone)
    obtain ⟨stored, hstored⟩ :=
      Option.ne_none_iff_exists'.mp fun hnone => hindexed (scopeSignature_eq_none.mp hnone)
    have hsame := hrecorded.signature.symm.trans (hcurrent.signature expected hexpected)
    rw [hstored, Option.getD_some] at hsame
    rw [hexpected, hstored, hsame]

theorem Recorded.fresh (hrecorded : Recorded library world.skills world.index)
    (happart : TellsApart library call world)
    (hcurrent : IndexedAs world.index (call.state library world.skills world.index)) :
    Fresh library world.skills call.repoScopes world.index := by
  have hids := hrecorded.ids_perm happart hcurrent
  have hsame : ∀ rule ∈ call.rules library world.skills, ∀ chunk ∈ world.index.chunks.rows,
      chunk.skillId = rule.skillId → chunk.entry = rule.entry := by
    intro rule hrule chunk hchunk hid
    obtain ⟨row, hrow, hserved, rfl⟩ := call.mem_rules hrule
    rcases hrecorded.documents row hrow chunk hchunk hid with hentry | hlater
    · exact hentry
    · -- The stamp would be among those of which the record has the latest.
      rw [hcurrent.maxUpdatedAt] at hlater
      exact absurd (updatedAt_le_max hrow hserved) (not_le_of_gt hlater)
  have hchunks : (world.index.chunks.rows.map RuleChunk.entry).Nodup := by
    apply List.Nodup.of_map (fun entry => chunkId entry.1)
    rw [List.map_map]
    exact world.index.chunks.nodup
  have hrules : ((call.rules library world.skills).map RuleDocument.entry).Nodup := by
    apply List.Nodup.of_map Prod.fst
    rw [List.map_map]
    exact call.nodup_rules world.skills
  apply (List.perm_ext_iff_of_nodup hchunks hrules).mpr
  intro entry
  constructor
  · intro hentry
    obtain ⟨chunk, hchunk, rfl⟩ := List.mem_map.mp hentry
    obtain ⟨rule, hrule, hid⟩ := List.mem_map.mp (hids.mem_iff.mpr (List.mem_map_of_mem hchunk))
    exact List.mem_map.mpr ⟨rule, hrule, (hsame rule hrule chunk hchunk hid.symm).symm⟩
  · intro hentry
    obtain ⟨rule, hrule, rfl⟩ := List.mem_map.mp hentry
    obtain ⟨chunk, hchunk, hid⟩ := List.mem_map.mp (hids.mem_iff.mp (List.mem_map_of_mem hrule))
    exact List.mem_map.mpr ⟨chunk, hchunk, hsame rule hrule chunk hchunk hid⟩

theorem fresh_of_stale (hstale : call.current library skills index = false) :
    Fresh library skills call.repoScopes
      ((ensureRulesIndexed library call skills index).foldl RuleIndex.exec index) := by
  obtain ⟨covered, hplanned⟩ :=
    planned_planUpsert call.mode call.env (call.rules library skills) index
  rw [ensureRulesIndexed_of_stale hstale]
  exact hplanned.entries_commit (call.nodup_rules skills)

theorem recorded_of_stale (hstale : call.current library skills index = false) :
    Recorded library skills
      ((ensureRulesIndexed library call skills index).foldl RuleIndex.exec index) := by
  have hfresh := fresh_of_stale hstale
  rw [ensureRulesIndexed_of_stale hstale] at hfresh ⊢
  have hids := hfresh.map Prod.fst
  rw [List.map_map, List.map_map] at hids
  constructor
  · have hlength := hfresh.length_eq
    rw [List.length_map, List.length_map] at hlength
    exact congrArg some hlength.symm
  · exact congrArg (fun signature => some (Option.getD signature []))
      (scopeSignature_perm library hids.symm)
  · intro row hrow chunk hchunk hid
    obtain ⟨rule, hrule, hentry⟩ := List.mem_map.mp (hfresh.mem_iff.mp (List.mem_map_of_mem hchunk))
    have hskill : rule.skillId = chunk.skillId := congrArg Prod.fst hentry
    rw [IndexCall.rule_of_id hrule hrow (hskill.trans hid)]
    exact .inl hentry.symm

theorem IndexCall.executed_of_whole {failsAfter : Option Nat}
    (hwhole : Whole library call failsAfter world) :
    call.executed library failsAfter world = [] ∨ call.executed library failsAfter world =
        ensureRulesIndexed library call world.skills world.index := by
  cases failsAfter with
  | none => exact .inr rfl
  | some count =>
    rcases hwhole count rfl with rfl | hlong
    · exact .inl rfl
    · exact .inr (List.take_of_length_le hlong)

theorem Described.step {next : IndexWorld} {move : IndexMove} (hdescribed : Described library world)
    (hnoticed : Noticed library world move) (hstep : world.step library move = some next) :
    Described library next := by
  obtain rfl := Option.some.inj hstep
  cases move with
  | write write => exact hdescribed.imp_right fun hrecorded => hrecorded.write hnoticed
  | ensure call failsAfter =>
    unfold Described IndexWorld.next
    dsimp only
    rcases IndexCall.executed_of_whole hnoticed.1 with hnothing | hall
    · rw [hnothing]
      exact hdescribed
    · rw [hall]
      cases hcurrent : call.current library world.skills world.index with
      | true =>
        rw [ensureRulesIndexed_of_current hcurrent]
        exact hdescribed
      | false => exact .inr (recorded_of_stale hcurrent)

/-- In every history in which changes are noticed, a call that succeeds leaves the index fresh. -/
theorem index_fresh_of_run {schedule : List IndexMove}
    (hrun : Run (IndexWorld.step library) (Noticed library) (.start skills) schedule world)
    (call : IndexCall) (happart : TellsApart library call world) :
    Fresh library world.skills call.repoScopes
      (world.next library (.ensure call none)).index := by
  have hdescribed : Described library world :=
    hrun.invariant (fun _ _ _ hgood hnoticed hstep => hgood.step hnoticed hstep) (.inl rfl)
  unfold IndexWorld.next IndexCall.executed
  dsimp only [Option.elim_none]
  cases hcurrent : call.current library world.skills world.index with
  | false => exact fresh_of_stale hcurrent
  | true =>
    rw [ensureRulesIndexed_of_current hcurrent]
    have hindexed := indexedAs_of_current (Bool.and_eq_true_iff.mp hcurrent).2
    rcases hdescribed with hnone | hrecorded
    · exact nomatch hnone.symm.trans hindexed.version
    · exact hrecorded.fresh happart hindexed

section Samples

def sampleLibrary : Library where
  jsonStrings _ := some []
  printStrings _ := emptyListJson
  sha1Hex _ := "a33a5cae02b786c2060461df8c6764b4c05e9423"

def editedRule : RuleUpdate where
  id := ['r']
  name := ['t']
  description := ['b']
  checkPrompt := none
  filePatterns := emptyListJson
  contentHash := ['y']
  repoScopes := [['o', '/', 'w']]

def ownCall : IndexCall where
  repoScopes := [['o', '/', 'w']]
  mode := .localOnly
  env := ⟨.sha1, false, .sha1, .sha1, fun _ => true⟩

def firstSecond : Stamp := "2026-05-01 10:00:00".toList

def secondSecond : Stamp := "2026-05-01 10:00:01".toList

def indexedWorld : IndexWorld :=
  [.write (.rememberRule rememberedRule firstSecond), .ensure ownCall none].foldl
    (IndexWorld.next sampleLibrary) (.start .empty)

def afterEdit (now : Stamp) : IndexWorld :=
  indexedWorld.next sampleLibrary (.write (.updateExistingRule editedRule 1 now))

/-- An edit in the next second. -/
theorem index_fresh_after_edit :
    Fresh sampleLibrary (afterEdit secondSecond).skills ownCall.repoScopes
      ((afterEdit secondSecond).next sampleLibrary (.ensure ownCall none)).index := by
  have hrun : Run (IndexWorld.step sampleLibrary) (Noticed sampleLibrary) (.start .empty)
      [.write (.rememberRule rememberedRule firstSecond), .ensure ownCall none,
        .write (.updateExistingRule editedRule 1 secondSecond)] (afterEdit secondSecond) := by
    have hfirst : Noticed sampleLibrary (.start .empty)
        (.write (.rememberRule rememberedRule firstSecond)) :=
      fun _ _ _ hchunk => absurd hchunk List.not_mem_nil
    have hsecond : Noticed sampleLibrary
        ((IndexWorld.start .empty).next sampleLibrary
          (.write (.rememberRule rememberedRule firstSecond))) (.ensure ownCall none) :=
      ⟨fun _ hfails => (nomatch hfails), by unfold TellsApart; decide⟩
    have hthird : Noticed sampleLibrary indexedWorld
        (.write (.updateExistingRule editedRule 1 secondSecond)) :=
      stampsLater_of_later rfl (by decide) _
    exact .cons hfirst rfl (.cons hsecond rfl (.cons hthird rfl (.nil _)))
  exact index_fresh_of_run hrun ownCall (by unfold TellsApart; decide)

/-- An edit in the second in which the rule was indexed. -/
theorem same_second_edit_is_missed :
    ¬ Fresh sampleLibrary (afterEdit firstSecond).skills ownCall.repoScopes
      ((afterEdit firstSecond).next sampleLibrary (.ensure ownCall none)).index := by
  unfold Fresh
  decide

end Samples

end Difflore.Context

import Difflore.Foundation.Ranking
import Difflore.Foundation.Text
import Mathlib.Data.Char
import Mathlib.Data.Prod.Lex
import Mathlib.Data.Rat.Floor
import Mathlib.Tactic.Positivity

/-! # The order in which rules are served

Scores are compared in bands of a tenth of the best score. Within a band path hints, sources,
confidences and ids decide. Scores and confidences are exact rationals.
-/

namespace Difflore.Context

open Foundation

structure ScoredRuleChunk where
  skillId : Text
  content : Text
  score : Rat
  confidence : Rat
  deriving DecidableEq

def arbitrationBands : Nat := 10

def unknownSourceRank : Nat := 5

def sourceRank (origin : Text) : Nat :=
  if origin = "manual" then 0
  else if origin = "cloud" ∨ origin = "team" then 1
  else if origin = "pr_review" then 2
  else if origin = "extracted" then 3
  else if origin = "conversation" then 4
  else unknownSourceRank

/-- `none` is the score in front of all others, which no list of rules has. -/
def relativeScoreBand (score : Rat) : Option Rat → Nat
  | none => 0
  | some topScore =>
    if topScore ≤ 0 then 0
    else ⌊min (max (score / topScore) 0) 1 * arbitrationBands⌋.toNat

structure RuleRankingWhy where
  strictHit : Bool
  band : Nat
  source : Option Text

structure ArbitrationKey where
  strictHit : Bool
  band : Nat
  sourceRank : Nat
  confidence : Rat

def compareKeys (a : ArbitrationKey) (aSkillId : Text) (b : ArbitrationKey) (bSkillId : Text) :
    Ordering :=
  (cmp b.band a.band).then <| (cmp b.strictHit a.strictHit).then <|
    (cmp a.sourceRank b.sourceRank).then <| (cmp b.confidence a.confidence).then <|
      cmp aSkillId bSkillId

section Arbitrate

variable (strictSkillIds : List Text) (originBySkillId : Text → Option Text)

def topScore (scored : List ScoredRuleChunk) : Option Rat := (scored.map ScoredRuleChunk.score).max?

def arbitrationKey (top : Option Rat) (chunk : ScoredRuleChunk) : ArbitrationKey where
  strictHit := chunk.skillId ∈ strictSkillIds
  band := relativeScoreBand chunk.score top
  sourceRank := (originBySkillId chunk.skillId).elim unknownSourceRank sourceRank
  confidence := chunk.confidence

def rankingWhy (top : Option Rat) (chunk : ScoredRuleChunk) : RuleRankingWhy where
  strictHit := chunk.skillId ∈ strictSkillIds
  band := relativeScoreBand chunk.score top
  source := originBySkillId chunk.skillId

/-- A map with one entry for each id; a later rule of the same id replaces it. -/
def bySkillId {β : Type} (value : ScoredRuleChunk → β) (scored : List ScoredRuleChunk) :
    Text → Option β :=
  scored.foldl (fun entries chunk => Function.update entries chunk.skillId (some (value chunk)))
    fun _ => none

def compareChunks (keys : Text → Option ArbitrationKey) (a b : ScoredRuleChunk) : Ordering :=
  match keys a.skillId, keys b.skillId with
  | some aKey, some bKey => compareKeys aKey a.skillId bKey b.skillId
  | _, _ => cmp a.skillId b.skillId

/-- The rules in the order in which they are served, and the facts behind it. -/
def arbitrateRuleOrder (scored : List ScoredRuleChunk) (sourcePriorityDisabled : Bool) :
    List ScoredRuleChunk × (Text → Option RuleRankingWhy) :=
  let top := topScore scored
  let keys := bySkillId (arbitrationKey strictSkillIds originBySkillId top) scored
  (if sourcePriorityDisabled then scored
    else scored.insertionSort fun a b => compareChunks keys a b ≠ .gt,
    bySkillId (rankingWhy strictSkillIds originBySkillId top) scored)

end Arbitrate

theorem topScore_perm {scored others : List ScoredRuleChunk} (hperm : scored.Perm others) :
    topScore scored = topScore others := by
  unfold topScore
  cases hmax : (others.map ScoredRuleChunk.score).max? with
  | none =>
    rw [List.max?_eq_none_iff, List.map_eq_nil_iff] at hmax ⊢
    exact (hmax ▸ hperm).eq_nil
  | some top =>
    rw [List.max?_eq_some_iff] at hmax ⊢
    simpa only [(hperm.map _).mem_iff] using hmax

theorem relativeScoreBand_top {top : Rat} (htop : 0 < top) :
    relativeScoreBand top (some top) = arbitrationBands := by
  rw [relativeScoreBand, if_neg (not_le.mpr htop), div_self htop.ne', max_eq_left zero_le_one,
    min_self, one_mul, Int.floor_natCast, Int.toNat_natCast]

theorem relativeScoreBand_lt {score top : Rat} (htop : 0 < top) (hlt : score < top) :
    relativeScoreBand score (some top) < arbitrationBands := by
  have hratio : min (max (score / top) 0) 1 < 1 :=
    (min_le_left _ _).trans_lt (max_lt ((div_lt_one htop).mpr hlt) zero_lt_one)
  rw [relativeScoreBand, if_neg (not_le.mpr htop)]
  have hfloor : ⌊min (max (score / top) 0) 1 * (arbitrationBands : Rat)⌋ < 10 := by
    rw [Int.floor_lt]
    simp only [arbitrationBands]
    push_cast
    linarith
  simp only [arbitrationBands] at hfloor ⊢
  omega

/-- The order of the keys as that of a product, with greater bands, hits and confidences first. -/
abbrev ArbitrationRank := Natᵒᵈ ×ₗ Boolᵒᵈ ×ₗ Nat ×ₗ Ratᵒᵈ ×ₗ Text

def ArbitrationKey.rank (key : ArbitrationKey) (skillId : Text) : ArbitrationRank :=
  toLex (OrderDual.toDual key.band, toLex (OrderDual.toDual key.strictHit,
    toLex (key.sourceRank, toLex (OrderDual.toDual key.confidence, skillId))))

theorem then_ne_gt_iff {β : Type} [LinearOrder β] {x y : β} {next : Ordering} :
    (cmp x y).then next ≠ .gt ↔ x < y ∨ x = y ∧ next ≠ .gt := by
  rcases lt_trichotomy x y with hlt | rfl | hgt
  · rw [(cmp_eq_lt_iff _ _).mpr hlt]
    simp [hlt, Ordering.then]
  · rw [cmp_self_eq_eq]
    simp [Ordering.then]
  · rw [(cmp_eq_gt_iff _ _).mpr hgt]
    simp [hgt.not_gt, hgt.ne', Ordering.then]

theorem compareKeys_ne_gt_iff {a b : ArbitrationKey} {aSkillId bSkillId : Text} :
    compareKeys a aSkillId b bSkillId ≠ .gt ↔ a.rank aSkillId ≤ b.rank bSkillId := by
  have hids : cmp aSkillId bSkillId ≠ .gt ↔ aSkillId ≤ bSkillId := by
    unfold cmp cmpUsing
    split_ifs with hlt hgt
    · simpa using hlt.le
    · simpa using hgt
    · simpa using not_lt.mp hgt
  unfold compareKeys ArbitrationKey.rank
  simp only [↓then_ne_gt_iff, ↓hids, Prod.Lex.toLex_le_toLex,
    OrderDual.toDual_lt_toDual, OrderDual.toDual_inj]
  simp only [eq_comm]

theorem bySkillId_of_not_mem {β : Type} {value : ScoredRuleChunk → β}
    {scored : List ScoredRuleChunk} {entries : Text → Option β} {id : Text}
    (hid : id ∉ scored.map ScoredRuleChunk.skillId) :
    scored.foldl (fun entries (chunk : ScoredRuleChunk) =>
      Function.update entries chunk.skillId (some (value chunk))) entries id = entries id := by
  induction scored generalizing entries with
  | nil => rfl
  | cons head tail ih =>
    simp only [List.map_cons, List.mem_cons, not_or] at hid
    rw [List.foldl_cons, ih hid.2, Function.update_of_ne hid.1]

theorem bySkillId_of_mem {β : Type} {value : ScoredRuleChunk → β} {scored : List ScoredRuleChunk}
    (hnodup : (scored.map ScoredRuleChunk.skillId).Nodup) {chunk : ScoredRuleChunk}
    (hmem : chunk ∈ scored) : bySkillId value scored chunk.skillId = some (value chunk) := by
  unfold bySkillId
  generalize (fun _ : Text => (none : Option β)) = entries
  induction scored generalizing entries with
  | nil => simp at hmem
  | cons head tail ih =>
    rw [List.map_cons, List.nodup_cons] at hnodup
    rw [List.foldl_cons]
    rcases List.mem_cons.mp hmem with rfl | htail
    · rw [bySkillId_of_not_mem hnodup.1, Function.update_self]
    · exact ih hnodup.2 htail _

/-! ## The order -/

section Order

variable {strictSkillIds : List Text} {originBySkillId : Text → Option Text}
  {scored others : List ScoredRuleChunk}

def chunkRank (strictSkillIds : List Text) (originBySkillId : Text → Option Text)
    (top : Option Rat) (chunk : ScoredRuleChunk) : ArbitrationRank :=
  (arbitrationKey strictSkillIds originBySkillId top chunk).rank chunk.skillId

theorem arbitrateRuleOrder_eq (hnodup : (scored.map ScoredRuleChunk.skillId).Nodup) :
    (arbitrateRuleOrder strictSkillIds originBySkillId scored false).1 =
      scored.insertionSort fun a b =>
        chunkRank strictSkillIds originBySkillId (topScore scored) a ≤
          chunkRank strictSkillIds originBySkillId (topScore scored) b := by
  have hsame := List.map_insertionSort
    (fun a b => compareChunks (bySkillId (arbitrationKey strictSkillIds originBySkillId
      (topScore scored)) scored) a b ≠ .gt)
    (fun a b => chunkRank strictSkillIds originBySkillId (topScore scored) a ≤
      chunkRank strictSkillIds originBySkillId (topScore scored) b) id scored ?_
  · simpa [arbitrateRuleOrder] using hsame
  · intro a ha b hb
    rw [compareChunks, bySkillId_of_mem hnodup ha, bySkillId_of_mem hnodup hb]
    exact compareKeys_ne_gt_iff

theorem skillId_inj_of_rank {top : Option Rat} {a b : ScoredRuleChunk}
    (hrank : chunkRank strictSkillIds originBySkillId top a =
      chunkRank strictSkillIds originBySkillId top b) : a.skillId = b.skillId := by
  simp only [chunkRank, ArbitrationKey.rank, EmbeddingLike.apply_eq_iff_eq, Prod.mk.injEq] at hrank
  exact hrank.2.2.2.2

theorem band_le_of_rank {top : Option Rat} {a b : ScoredRuleChunk}
    (hrank : chunkRank strictSkillIds originBySkillId top a ≤
      chunkRank strictSkillIds originBySkillId top b) :
    relativeScoreBand b.score top ≤ relativeScoreBand a.score top := by
  rcases Prod.Lex.toLex_le_toLex.mp hrank with hlt | ⟨heq, _⟩
  · exact (OrderDual.toDual_lt_toDual.mp hlt).le
  · exact (OrderDual.toDual_inj.mp heq).ge

variable (strictSkillIds originBySkillId) in
theorem pairwise_rank (hnodup : (scored.map ScoredRuleChunk.skillId).Nodup) :
    (arbitrateRuleOrder strictSkillIds originBySkillId scored false).1.Pairwise fun a b =>
      chunkRank strictSkillIds originBySkillId (topScore scored) a ≤
        chunkRank strictSkillIds originBySkillId (topScore scored) b := by
  rw [arbitrateRuleOrder_eq hnodup]
  exact List.pairwise_insertionSort _ _

theorem perm_arbitrateRuleOrder :
    (arbitrateRuleOrder strictSkillIds originBySkillId scored false).1.Perm scored :=
  List.perm_insertionSort _ _

theorem arbitrateRuleOrder_of_perm (hnodup : (scored.map ScoredRuleChunk.skillId).Nodup)
    (hperm : others.Perm scored) :
    (arbitrateRuleOrder strictSkillIds originBySkillId others false).1 =
      (arbitrateRuleOrder strictSkillIds originBySkillId scored false).1 := by
  have hothers : (others.map ScoredRuleChunk.skillId).Nodup :=
    (hperm.map ScoredRuleChunk.skillId).nodup_iff.mpr hnodup
  have hsorted := pairwise_rank strictSkillIds originBySkillId hothers
  rw [topScore_perm hperm] at hsorted
  refine List.Perm.eq_of_pairwise (fun a b ha hb hab hba => ?_) hsorted (pairwise_rank _ _ hnodup)
    (perm_arbitrateRuleOrder.trans (hperm.trans perm_arbitrateRuleOrder.symm))
  have haScored := hperm.subset (perm_arbitrateRuleOrder.subset ha)
  have hbScored := perm_arbitrateRuleOrder.subset hb
  exact List.inj_on_of_nodup_map hnodup haScored hbScored (skillId_inj_of_rank (hab.antisymm hba))

theorem band_lt_of_leader {leader other : ScoredRuleChunk} (hleader : leader ∈ scored)
    (hpositive : 0 < leader.score)
    (habove : ∀ rule ∈ scored, rule ≠ leader → rule.score < leader.score)
    (hother : other ∈ scored) (hne : other ≠ leader) :
    relativeScoreBand other.score (topScore scored) <
      relativeScoreBand leader.score (topScore scored) := by
  have htop : topScore scored = some leader.score := by
    rw [topScore, List.max?_eq_some_iff]
    refine ⟨List.mem_map_of_mem hleader, ?_⟩
    intro score hscore
    obtain ⟨rule, hrule, rfl⟩ := List.mem_map.mp hscore
    by_cases hsame : rule = leader
    · rw [hsame]
    · exact (habove rule hrule hsame).le
  rw [htop, relativeScoreBand_top hpositive]
  exact relativeScoreBand_lt hpositive (habove other hother hne)

/-- The rules are permuted in a way that their order does not decide, no rule stands in front of
one of a higher band, and a leader by score is first. -/
theorem arbitrateRuleOrder_spec (hnodup : (scored.map ScoredRuleChunk.skillId).Nodup) :
    let served := (arbitrateRuleOrder strictSkillIds originBySkillId scored false).1
    served.Perm scored ∧ (∀ others : List ScoredRuleChunk, others.Perm scored →
        (arbitrateRuleOrder strictSkillIds originBySkillId others false).1 = served) ∧
      served.Pairwise (fun a b => relativeScoreBand b.score (topScore scored) ≤
        relativeScoreBand a.score (topScore scored)) ∧
      ∀ leader ∈ scored, 0 < leader.score →
        (∀ rule ∈ scored, rule ≠ leader → rule.score < leader.score) →
        served.head? = some leader := by
  intro served
  have hbands : served.Pairwise fun a b => relativeScoreBand b.score (topScore scored) ≤
      relativeScoreBand a.score (topScore scored) := (pairwise_rank _ _ hnodup).imp band_le_of_rank
  refine ⟨perm_arbitrateRuleOrder, fun others hperm => arbitrateRuleOrder_of_perm hnodup hperm,
    hbands, ?_⟩
  intro leader hleader hpositive habove
  have hperm : served.Perm scored := perm_arbitrateRuleOrder
  have hmem : leader ∈ served := hperm.symm.subset hleader
  cases hserved : served with
  | nil => simp [hserved] at hmem
  | cons first rest =>
    by_cases hfirst : first = leader
    · rw [hfirst, List.head?_cons]
    · -- the rule in front of the leader would have a band at least as high
      have hrest : leader ∈ rest := by
        rw [hserved] at hmem
        exact (List.mem_cons.mp hmem).resolve_left (Ne.symm hfirst)
      rw [hserved] at hbands hperm
      have hle := (List.pairwise_cons.mp hbands).1 leader hrest
      have hlt := band_lt_of_leader hleader hpositive habove
        (hperm.subset (.head _)) hfirst
      omega

end Order

/-- A manual rule in the same band is served in front of a better conversation rule, and the
leader in front of both. -/
theorem arbitrateRuleOrder_spec_sample :
    ((arbitrateRuleOrder [] (fun id => if id = ['m'] then some "manual" else none)
      [⟨['c'], [], 97 / 100, 1⟩, ⟨['m'], [], 95 / 100, 1⟩, ⟨['l'], [], 1, 1⟩] false).1).head? =
      some ⟨['l'], [], 1, 1⟩ :=
  (arbitrateRuleOrder_spec (by decide)).2.2.2 ⟨['l'], [], 1, 1⟩ (by decide) (by norm_num) (by
    intro rule hrule hne
    simp only [List.mem_cons, List.not_mem_nil, or_false] at hrule
    rcases hrule with rfl | rfl | rfl
    · norm_num
    · norm_num
    · contradiction)

end Difflore.Context

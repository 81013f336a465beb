import Difflore.Context.Ann
import Difflore.Context.RuleScore

/-! # Retrieving rules

The rules in scope are ranked by their vectors and by the full-text search. A rule scores the sum
of its reciprocal ranks in the two lanes, times its weights. The order of the full-text search and
that of the graph are given; the floating-point parts are parameters.
-/

namespace Difflore.Context

open Foundation Domain

/-- What retrieval uses of the globs, of the vectors and of the powers of one half. -/
structure RetrievalLibrary extends GlobLibrary where
  dimension : Embedding → Nat
  cosineSimilarity : Embedding → Embedding → Rat
  halved : Rat → Rat

structure RetrievalOptions where
  topK : Option Nat := none
  targetScope : Option TargetScope := none
  strictFileScope : Bool := false
  filter : QueryFilter := {}
  annEnabled : Bool := true
  adaptivePrune : Bool := false

structure SkillFacts where
  confidenceMap : Option (Text → Option Rat) := none
  eligibleSkillIds : Option (List Text) := none
  ageDaysMap : Option (Text → Option Rat) := none

/-- The query, with the order in which the full-text search ranks chunks and that in which the
graph comes upon them. -/
structure RankedQuery where
  embedded : EmbeddedText
  fullText : List Text
  graph : List (Text × Rat)
  fullTextNodup : fullText.Nodup
  graphNodup : (graph.map Prod.fst).Nodup

def defaultTopKRules : Nat := 3

def maxRuleRetrievalTopK : Nat := 50

def maxAnnCandidates : Nat := 150

def rrfK : Rat := 60

def rrfLaneWeights (isSemantic : Bool) : Rat × Rat :=
  if isSemantic then (35 / 100, 65 / 100) else (20 / 100, 80 / 100)

def minRelevanceScore : Rat := 1 / 1000

def adaptiveInjectThreshold : Rat := 5 / 1000

def relativeRelevanceFloor : Rat := 35 / 100

def minConfidence : Rat := 2 / 10

def RetrievalOptions.requestedK (options : RetrievalOptions) : Nat :=
  options.topK.getD defaultTopKRules

def RetrievalOptions.k (options : RetrievalOptions) : Nat :=
  min options.requestedK maxRuleRetrievalTopK

def RetrievalOptions.ftsLimit (options : RetrievalOptions) : Nat :=
  max (min (options.k * 4) 200) options.k

def RetrievalOptions.annCandidates (options : RetrievalOptions) : Nat :=
  max (min (options.k * 3) maxAnnCandidates) options.k

def RetrievalOptions.graphLimit (options : RetrievalOptions) : Nat :=
  min options.annCandidates Ann.maxSearchTopK

def SkillFacts.confidence (facts : SkillFacts) (skillId : Text) : Rat :=
  (facts.confidenceMap.bind (· skillId)).getD (7 / 10)

/-- A rule that the caller rules out or hardly trusts is not ranked. -/
def SkillFacts.ranks (facts : SkillFacts) (chunk : RuleChunk) : Bool :=
  (facts.eligibleSkillIds.all (chunk.skillId ∈ ·)) &&
    minConfidence ≤ facts.confidence chunk.skillId

variable (library : RetrievalLibrary) (options : RetrievalOptions) (facts : SkillFacts)
  (query : RankedQuery) (held : Text → Bool)

def admitted (chunks : List RuleChunk) : List RuleChunk := chunks.filter options.filter.admits

def inScope (chunk : RuleChunk) : Bool :=
  !options.strictFileScope || options.targetScope.all fun scope =>
    scope.patternAllows library.toGlobLibrary chunk.filePatterns

def activeChunks (chunks : List RuleChunk) : List RuleChunk :=
  (admitted options chunks).filter (inScope library options)

def findChunk (id : Text) (chunks : List RuleChunk) : Option RuleChunk :=
  chunks.find? fun chunk => chunk.id = id

/-- The nearest chunks that the graph holds, whether or not they are still in the index. -/
def graphHits : List (Text × Rat) :=
  (query.graph.filter fun hit => held hit.1).take options.graphLimit

/-- The hits of the graph that are in scope, with their similarities. -/
def tryAnnRank (chunks : List RuleChunk) : Option (List (RuleChunk × Rat)) :=
  if library.dimension query.embedded.vector = 0 || options.annCandidates = 0 then none
  else
    let ranked := (graphHits options query held).filterMap fun hit =>
      ((findChunk hit.1 (activeChunks library options chunks)).filter facts.ranks).map fun chunk =>
        (chunk, max (1 - hit.2) 0)
    if ranked = [] then none else some ranked

def linearRank (chunks : List RuleChunk) : List (RuleChunk × Rat) :=
  ((activeChunks library options chunks).filter fun chunk => facts.ranks chunk &&
      library.dimension query.embedded.vector = library.dimension chunk.embedding).map fun chunk =>
    (chunk, library.cosineSimilarity query.embedded.vector chunk.embedding)

def moreSimilar (a b : RuleChunk × Rat) : Bool := b.2 < a.2 || (a.2 = b.2 && a.1.id ≤ b.1.id)

def embeddingLane (chunks : List RuleChunk) : List RuleChunk :=
  let annResult :=
    if options.annEnabled then tryAnnRank library options facts query held chunks else none
  ((annResult.getD (linearRank library options facts query chunks)).insertionSort
    (moreSimilar · ·)).map Prod.fst

def ftsHits (chunks : List RuleChunk) : List Text :=
  (query.fullText.filter fun id => (findChunk id (admitted options chunks)).isSome).take
    options.ftsLimit

def ftsLane (chunks : List RuleChunk) : List (RuleChunk × Nat) :=
  (ftsHits options query chunks).zipIdx.filterMap fun (id, rank) =>
    ((findChunk id (activeChunks library options chunks)).filter facts.ranks).map (·, rank)

def reciprocal (weight : Rat) (rank : Nat) : Rat := weight / (rrfK + rank + 1)

def contribute (chunk : RuleChunk) (contribution : Rat) (entries : List (RuleChunk × Rat)) :
    List (RuleChunk × Rat) :=
  if entries.any (·.1.id = chunk.id) then
    entries.map fun entry =>
      if entry.1.id = chunk.id then (entry.1, entry.2 + contribution) else entry
  else entries ++ [(chunk, contribution)]

def fuse (weights : Rat × Rat) (embedding : List RuleChunk) (fullText : List (RuleChunk × Nat)) :
    List (RuleChunk × Rat) :=
  fullText.foldl (fun entries hit => contribute hit.1 (reciprocal weights.2 hit.2) entries)
    (embedding.zipIdx.foldl
      (fun entries hit => contribute hit.1 (reciprocal weights.1 hit.2) entries) [])

def scoreWeight (chunk : RuleChunk) : Rat :=
  let ageDays := (facts.ageDaysMap.bind (· chunk.skillId)).getD 0
  confidenceWeight (effectiveConfidence library.halved (facts.confidence chunk.skillId)
      (inferRuleKind chunk.content) ageDays) *
    ruleQualityWeight chunk.content *
      pathWeight library.toGlobLibrary options.targetScope chunk.filePatterns

def scoredChunk (entry : RuleChunk × Rat) : ScoredRuleChunk where
  skillId := entry.1.skillId
  content := entry.1.content
  score := entry.2 * scoreWeight library options facts entry.1
  confidence := facts.confidence entry.1.skillId

def better (a b : ScoredRuleChunk) : Bool :=
  b.score < a.score || (a.score = b.score && a.skillId ≤ b.skillId)

def pruneBelowFloors (topScore : Rat) (scored : List ScoredRuleChunk) : List ScoredRuleChunk :=
  scored.filter fun chunk =>
    minRelevanceScore < chunk.score && topScore * relativeRelevanceFloor ≤ chunk.score

def keepStrong (k : Nat) (topScore : Rat) (scored : List ScoredRuleChunk) : List ScoredRuleChunk :=
  let strongCount := (scored.takeWhile fun chunk => topScore * (60 / 100) ≤ chunk.score).length
  if 0 < strongCount ∧ strongCount < scored.length then scored.take (min strongCount k) else scored

/-- The noise goes, and of the others the best `k` stay. -/
def cutTail (scored : List ScoredRuleChunk) : List ScoredRuleChunk :=
  match scored with
  | [] => []
  | top :: _ =>
    let adaptive := options.adaptivePrune && 5 ≤ scored.length
    if adaptive && top.score < adaptiveInjectThreshold then []
    else
      let kept := pruneBelowFloors top.score scored
      (if adaptive then keepStrong options.k top.score kept else kept).take options.k

def retrieveRulesWithConfidence (chunks : List RuleChunk) : List ScoredRuleChunk :=
  if options.requestedK = 0 then []
  else
    cutTail options (((fuse (rrfLaneWeights query.embedded.semantic)
      (embeddingLane library options facts query held chunks)
      (ftsLane library options facts query chunks)).map
        (scoredChunk library options facts)).insertionSort (better · ·))

/-! ## What is retrieved -/

/-- The chunks that the filter, the target files and the caller let pass. -/
def eligibleChunks (chunks : List RuleChunk) : List RuleChunk :=
  (activeChunks library options chunks).filter facts.ranks

section Retrieved

variable {library options facts query held} {chunks : List RuleChunk} {chunk : RuleChunk}

theorem eligible_of_findChunk {id : Text}
    (hfound : (findChunk id (activeChunks library options chunks)).filter facts.ranks =
      some chunk) :
    chunk ∈ eligibleChunks library options facts chunks := by
  obtain ⟨hfind, hranks⟩ := Option.filter_eq_some_iff.mp hfound
  exact List.mem_filter.mpr ⟨List.mem_of_find?_eq_some hfind, hranks⟩

theorem eligible_of_linearRank {hit : RuleChunk × Rat}
    (hhit : hit ∈ linearRank library options facts query chunks) :
    hit.1 ∈ eligibleChunks library options facts chunks := by
  obtain ⟨chunk, hchunk, rfl⟩ := List.mem_map.mp hhit
  obtain ⟨hactive, hranks⟩ := List.mem_filter.mp hchunk
  exact List.mem_filter.mpr ⟨hactive, (Bool.and_eq_true_iff.mp hranks).1⟩

theorem eligible_of_tryAnnRank {ranked : List (RuleChunk × Rat)} {hit : RuleChunk × Rat}
    (hranked : tryAnnRank library options facts query held chunks = some ranked)
    (hhit : hit ∈ ranked) :
    hit.1 ∈ eligibleChunks library options facts chunks := by
  unfold tryAnnRank at hranked
  split at hranked
  · contradiction
  · dsimp only at hranked
    obtain ⟨-, hsame⟩ := Option.ite_none_left_eq_some.mp hranked
    rw [← Option.some.inj hsame] at hhit
    obtain ⟨found, -, hfound⟩ := List.mem_filterMap.mp hhit
    obtain ⟨chunk, hchunk, rfl⟩ := Option.map_eq_some_iff.mp hfound
    exact eligible_of_findChunk hchunk

theorem eligible_of_embeddingLane
    (hchunk : chunk ∈ embeddingLane library options facts query held chunks) :
    chunk ∈ eligibleChunks library options facts chunks := by
  obtain ⟨hit, hhit, rfl⟩ := List.mem_map.mp hchunk
  replace hhit := (List.mem_insertionSort _).mp hhit
  split at hhit
  · cases hann : tryAnnRank library options facts query held chunks with
    | none => exact eligible_of_linearRank (by rwa [hann] at hhit)
    | some ranked => exact eligible_of_tryAnnRank hann (by rwa [hann] at hhit)
  · exact eligible_of_linearRank hhit

theorem eligible_of_ftsLane {hit : RuleChunk × Nat}
    (hhit : hit ∈ ftsLane library options facts query chunks) :
    hit.1 ∈ eligibleChunks library options facts chunks := by
  obtain ⟨found, -, hfound⟩ := List.mem_filterMap.mp hhit
  obtain ⟨chunk, hchunk, rfl⟩ := Option.map_eq_some_iff.mp hfound
  exact eligible_of_findChunk hchunk

theorem forall_contribute {p : RuleChunk → Prop} {contribution : Rat}
    {entries : List (RuleChunk × Rat)} (hchunk : p chunk)
    (hentries : ∀ entry ∈ entries, p entry.1) :
    ∀ entry ∈ contribute chunk contribution entries, p entry.1 := by
  intro entry hentry
  unfold contribute at hentry
  split at hentry
  · obtain ⟨old, hold, rfl⟩ := List.mem_map.mp hentry
    split <;> exact hentries old hold
  · rcases List.mem_append.mp hentry with hold | hnew
    · exact hentries entry hold
    · exact List.mem_singleton.mp hnew ▸ hchunk

theorem forall_fuse {p : RuleChunk → Prop} {weights : Rat × Rat} {embedding : List RuleChunk}
    {fullText : List (RuleChunk × Nat)} (hembedding : ∀ chunk ∈ embedding, p chunk)
    (hfullText : ∀ hit ∈ fullText, p hit.1) :
    ∀ entry ∈ fuse weights embedding fullText, p entry.1 := by
  refine List.foldlRecOn (motive := fun entries : List (RuleChunk × Rat) =>
    ∀ entry ∈ entries, p entry.1) fullText _ ?_
    fun entries hentries hit hhit => forall_contribute (hfullText hit hhit) hentries
  refine List.foldlRecOn (motive := fun entries : List (RuleChunk × Rat) =>
    ∀ entry ∈ entries, p entry.1) embedding.zipIdx _ nofun
    fun entries hentries hit hhit => forall_contribute (hembedding hit.1 ?_) hentries
  exact List.fst_mem_of_mem_zipIdx hhit

theorem cutTail_spec {scored : List ScoredRuleChunk} :
    (∀ rule ∈ cutTail options scored, rule ∈ scored ∧ minRelevanceScore < rule.score) ∧
      (cutTail options scored).length ≤ options.k := by
  unfold cutTail
  split
  · exact ⟨nofun, Nat.zero_le _⟩
  next top rest =>
    dsimp only
    split
    · exact ⟨nofun, Nat.zero_le _⟩
    · refine ⟨fun rule hrule => ?_, List.length_take_le _ _⟩
      have hkept : rule ∈ pruneBelowFloors top.score (top :: rest) := by
        replace hrule := List.mem_of_mem_take hrule
        split at hrule
        · unfold keepStrong at hrule
          dsimp only at hrule
          split at hrule
          · exact List.mem_of_mem_take hrule
          · exact hrule
        · exact hrule
      obtain ⟨hscored, hfloors⟩ := List.mem_filter.mp hkept
      exact ⟨hscored, of_decide_eq_true (Bool.and_eq_true_iff.mp hfloors).1⟩

/-- Whatever the graph holds and the full-text search comes upon, what is retrieved is eligible. -/
theorem retrieved_eligible (library : RetrievalLibrary) (options : RetrievalOptions)
    (facts : SkillFacts) (query : RankedQuery) (held : Text → Bool) (chunks : List RuleChunk) :
    (∀ rule ∈ retrieveRulesWithConfidence library options facts query held chunks,
      minRelevanceScore < rule.score ∧ ∃ chunk ∈ eligibleChunks library options facts chunks,
        rule.skillId = chunk.skillId ∧ rule.content = chunk.content) ∧
      (retrieveRulesWithConfidence library options facts query held chunks).length ≤ options.k := by
  unfold retrieveRulesWithConfidence
  split
  · exact ⟨nofun, Nat.zero_le _⟩
  · refine ⟨fun rule hrule => ?_, cutTail_spec.2⟩
    obtain ⟨hscored, hfloor⟩ := cutTail_spec.1 rule hrule
    obtain ⟨entry, hentry, rfl⟩ := List.mem_map.mp ((List.mem_insertionSort _).mp hscored)
    exact ⟨hfloor, entry.1, forall_fuse (fun _ => eligible_of_embeddingLane)
      (fun _ => eligible_of_ftsLane) entry hentry, rfl, rfl⟩

end Retrieved

end Difflore.Context

import Difflore.Context.RuleRetrieval

/-! # Rules that are ruled out

Two corpora that differ only in rules that the filter or the target files rule out are told apart
by what is retrieved from them exactly if a limit or a position counts a rule before it is dropped.
The full-text search counts the rules that are out of scope, the graph also those that the filter
leaves out.
-/

namespace Difflore.Context

open Foundation Domain

abbrev Corpus : Type := KeyedTable RuleChunk RuleChunk.id

variable (library : RetrievalLibrary) (options : RetrievalOptions)

/-- A graph for the dimension of the query that is built from the rows has those with vectors of
that dimension. -/
def builtFrom (query : RankedQuery) (chunks : List RuleChunk) (id : Text) : Bool :=
  (findChunk id chunks).any fun chunk =>
    library.dimension chunk.embedding = library.dimension query.embedded.vector

def IneligibleUnseen : Prop := ∀ (facts : SkillFacts) (query : RankedQuery) (first second : Corpus),
    activeChunks library options first.rows = activeChunks library options second.rows →
      retrieveRulesWithConfidence library options facts query
          (builtFrom library query first.rows) first.rows =
        retrieveRulesWithConfidence library options facts query
          (builtFrom library query second.rows) second.rows

def QueryFilter.isEmpty (filter : QueryFilter) : Bool :=
  filter.language.isNone && filter.repoScope.isNone

def GraphSearched : Prop := options.annEnabled = true ∧ ∃ vector, library.dimension vector ≠ 0

structure NothingCutLate : Prop where
  inScope : ∀ chunk, inScope library options chunk = true
  admitted : GraphSearched library options → options.filter.isEmpty = true

section Dependence

variable {library options} {facts : SkillFacts} {query : RankedQuery} {held : Text → Bool}
  {chunks others : List RuleChunk}

theorem tryAnnRank_of_not_searched (hgraph : ¬ GraphSearched library options)
    (hann : options.annEnabled = true) :
    tryAnnRank library options facts query held chunks = none := by
  have hzero : library.dimension query.embedded.vector = 0 := by
    by_contra hne
    exact hgraph ⟨hann, _, hne⟩
  simp [tryAnnRank, hzero]

theorem embeddingLane_of_not_searched (hgraph : ¬ GraphSearched library options) :
    embeddingLane library options facts query held chunks =
      ((linearRank library options facts query chunks).insertionSort (moreSimilar · ·)).map
        Prod.fst := by
  cases hann : options.annEnabled with
  | false => simp [embeddingLane, hann]
  | true => simp [embeddingLane, hann, tryAnnRank_of_not_searched hgraph hann]

theorem retrieve_congr (hadmitted : admitted options chunks = admitted options others)
    (hgraph : GraphSearched library options → chunks = others) :
    retrieveRulesWithConfidence library options facts query (builtFrom library query chunks)
        chunks =
      retrieveRulesWithConfidence library options facts query (builtFrom library query others)
        others := by
  by_cases hsearched : GraphSearched library options
  · rw [hgraph hsearched]
  · have hactive : activeChunks library options chunks = activeChunks library options others := by
      rw [activeChunks, activeChunks, hadmitted]
    have hfts : ftsLane library options facts query chunks =
        ftsLane library options facts query others := by
      rw [ftsLane, ftsLane, ftsHits, ftsHits, hactive, hadmitted]
    rw [retrieveRulesWithConfidence, retrieveRulesWithConfidence, hfts,
      embeddingLane_of_not_searched hsearched, embeddingLane_of_not_searched hsearched, linearRank,
      linearRank, hactive]

theorem activeChunks_of_inScope (hscope : ∀ chunk, inScope library options chunk = true) :
    activeChunks library options chunks = admitted options chunks :=
  List.filter_eq_self.mpr fun chunk _ => hscope chunk

theorem admits_of_isEmpty {filter : QueryFilter} (hempty : filter.isEmpty = true)
    (chunk : RuleChunk) : filter.admits chunk = true := by
  rw [QueryFilter.isEmpty, Bool.and_eq_true, Option.isNone_iff_eq_none,
    Option.isNone_iff_eq_none] at hempty
  simp [QueryFilter.admits, hempty]

theorem admitted_of_isEmpty (hempty : options.filter.isEmpty = true) :
    admitted options chunks = chunks :=
  List.filter_eq_self.mpr fun chunk _ => admits_of_isEmpty hempty chunk

theorem ineligibleUnseen_of_nothingCutLate (hcut : NothingCutLate library options) :
    IneligibleUnseen library options := by
  intro facts query first second hactive
  rw [activeChunks_of_inScope hcut.inScope, activeChunks_of_inScope hcut.inScope] at hactive
  refine retrieve_congr hactive fun hsearched => ?_
  have hempty := hcut.admitted hsearched
  rwa [admitted_of_isEmpty hempty, admitted_of_isEmpty hempty] at hactive

end Dependence

/-! ## The best rule -/

section Best

variable {library options} {facts : SkillFacts} {query : RankedQuery} {held : Text → Bool}
  {chunks : List RuleChunk}

theorem head_cutTail {top : ScoredRuleChunk} {rest : List ScoredRuleChunk} (hk : 0 < options.k)
    (hscore : minRelevanceScore < top.score) (hfew : (top :: rest).length < 5) :
    (cutTail options (top :: rest)).head? = some top := by
  have hadaptive : (options.adaptivePrune && decide (5 ≤ (top :: rest).length)) = false := by
    rw [Bool.and_eq_false_iff]
    exact .inr (decide_eq_false hfew.not_ge)
  have hpositive : 0 < top.score := by
    unfold minRelevanceScore at hscore
    linarith
  have hfloor : top.score * relativeRelevanceFloor ≤ top.score := by
    unfold relativeRelevanceFloor
    linarith
  obtain ⟨k, hk⟩ : ∃ k, options.k = k + 1 := ⟨options.k - 1, by omega⟩
  simp only [cutTail, hadaptive, Bool.false_and, Bool.false_eq_true, if_false]
  rw [pruneBelowFloors, List.filter_cons_of_pos (by simp [hscore, hfloor]), hk,
    List.take_succ_cons, List.head?_cons]

theorem le_scoreWeight (chunk : RuleChunk) :
    525 / 1000 ≤ scoreWeight library options facts chunk := by
  have hconfidence := le_confidenceWeight (effectiveConfidence library.halved
    (facts.confidence chunk.skillId) (inferRuleKind chunk.content)
    ((facts.ageDaysMap.bind (· chunk.skillId)).getD 0))
  have hquality := le_ruleQualityWeight chunk.content
  have hpath := one_le_pathWeight library.toGlobLibrary options.targetScope chunk.filePatterns
  calc (525 / 1000 : Rat) = 75 / 100 * (70 / 100) * 1 := by norm_num
    _ ≤ scoreWeight library options facts chunk :=
        mul_le_mul (mul_le_mul hconfidence hquality (by norm_num) (by linarith)) hpath
          (by norm_num) (mul_nonneg (by linarith) (by linarith))

theorem scoredChunk_inj {chunk : RuleChunk} {sum other : Rat}
    (hsame : scoredChunk library options facts (chunk, sum) =
      scoredChunk library options facts (chunk, other)) : sum = other := by
  have hweight : 525 / 1000 ≤ scoreWeight library options facts chunk := le_scoreWeight chunk
  have hscore : sum * scoreWeight library options facts chunk =
      other * scoreWeight library options facts chunk := congrArg ScoredRuleChunk.score hsame
  exact mul_right_cancel₀ (by linarith) hscore

theorem k_pos (hk : options.requestedK ≠ 0) : 0 < options.k := by
  unfold RetrievalOptions.k maxRuleRetrievalTopK
  omega

theorem head_retrieve_single {good : RuleChunk} {rank : Nat} (hk : options.requestedK ≠ 0)
    (hlane : embeddingLane library options facts query held chunks = [good])
    (hfts : ftsLane library options facts query chunks = [(good, rank)])
    (hsemantic : query.embedded.semantic = false) (hrank : rank ≤ 1) :
    (retrieveRulesWithConfidence library options facts query held chunks).head? =
      some (scoredChunk library options facts
        (good, reciprocal (20 / 100) 0 + reciprocal (80 / 100) rank)) := by
  have hfuse : fuse (rrfLaneWeights false) [good] [(good, rank)] =
      [(good, reciprocal (20 / 100) 0 + reciprocal (80 / 100) rank)] := by
    simp [fuse, contribute, rrfLaneWeights]
  rw [retrieveRulesWithConfidence, if_neg hk, hlane, hfts, hsemantic, hfuse]
  refine head_cutTail (k_pos hk) ?_ (by simp)
  have hweight : 525 / 1000 ≤ scoreWeight library options facts good := le_scoreWeight good
  have hsum : (1 / 62 : Rat) ≤ reciprocal (20 / 100) 0 + reciprocal (80 / 100) rank := by
    interval_cases rank <;> norm_num [reciprocal, rrfK]
  have hproduct : (1 / 62 : Rat) * (525 / 1000) ≤
      (reciprocal (20 / 100) 0 + reciprocal (80 / 100) rank) *
        scoreWeight library options facts good := by gcongr
  change minRelevanceScore < _ * _
  unfold minRelevanceScore
  linarith

theorem head_retrieve_pair {near good : RuleChunk} {rest : List RuleChunk} {extra : Rat}
    (hk : options.requestedK ≠ 0)
    (hlane : embeddingLane library options facts query held chunks = near :: rest)
    (hfts : ftsLane library options facts query chunks = [(good, 0)])
    (hsemantic : query.embedded.semantic = false)
    (hfuse : fuse (rrfLaneWeights false) (near :: rest) [(good, 0)] =
      [(near, reciprocal (20 / 100) 0), (good, extra + reciprocal (80 / 100) 0)])
    (hextra : 0 ≤ extra)
    (hweight : scoreWeight library options facts near = scoreWeight library options facts good) :
    (retrieveRulesWithConfidence library options facts query held chunks).head? =
      some (scoredChunk library options facts (good, extra + reciprocal (80 / 100) 0)) := by
  have hgood : 525 / 1000 ≤ scoreWeight library options facts good := le_scoreWeight good
  have hnear : (reciprocal (20 / 100) 0 : Rat) = 2 / 610 := by norm_num [reciprocal, rrfK]
  have hfar : (reciprocal (80 / 100) 0 : Rat) = 8 / 610 := by norm_num [reciprocal, rrfK]
  have hlower : (8 / 610 : Rat) * (525 / 1000) ≤
      (extra + 8 / 610) * scoreWeight library options facts good :=
    mul_le_mul (by linarith) hgood (by norm_num) (by linarith)
  have hless : 2 / 610 * scoreWeight library options facts good <
      (extra + 8 / 610) * scoreWeight library options facts good :=
    mul_lt_mul_of_pos_right (by linarith) (by linarith)
  have hsorted : ([(near, reciprocal (20 / 100) 0), (good, extra + reciprocal (80 / 100) 0)].map
          (scoredChunk library options facts)).insertionSort (better · ·) =
      [scoredChunk library options facts (good, extra + reciprocal (80 / 100) 0),
        scoredChunk library options facts (near, reciprocal (20 / 100) 0)] := by
    have hworse : better (scoredChunk library options facts (near, reciprocal (20 / 100) 0))
        (scoredChunk library options facts (good, extra + reciprocal (80 / 100) 0)) = false := by
      simp only [better, scoredChunk, hweight, hnear, hfar, hless.not_gt, hless.ne, decide_false,
        Bool.false_and, Bool.or_false]
    simp [List.insertionSort, List.orderedInsert, hworse]
  rw [retrieveRulesWithConfidence, if_neg hk, hlane, hfts, hsemantic, hfuse, hsorted]
  refine head_cutTail (k_pos hk) ?_ (by simp)
  change minRelevanceScore < _ * _
  rw [hfar]
  unfold minRelevanceScore
  linarith

end Best

section Counted

variable {library options}

def plainRule (options : RetrievalOptions) (vector : Embedding) (skillId : Text)
    (filePatterns : Option Text) : RuleChunk where
  skillId := skillId
  content := []
  embedding := vector
  filePatterns := filePatterns
  language := none
  repoScope := options.filter.repoScope

theorem admits_plainRule (vector : Embedding) (skillId : Text) (filePatterns : Option Text) :
    options.filter.admits (plainRule options vector skillId filePatterns) = true := by
  cases hrepo : options.filter.repoScope <;> simp [QueryFilter.admits, plainRule, hrepo]

theorem inScope_of_none {chunk : RuleChunk} (hnone : chunk.filePatterns = none) :
    inScope library options chunk = true := by
  cases hscope : options.targetScope with
  | none => simp [inScope, hscope]
  | some scope => simp [inScope, hscope, hnone, TargetScope.patternAllows_none]

theorem ranks_default (chunk : RuleChunk) : (({} : SkillFacts).ranks chunk) = true := by
  simp only [SkillFacts.ranks, SkillFacts.confidence, minConfidence, Option.all_none,
    Option.bind_none, Option.getD_none, Bool.true_and]
  norm_num

def goodRule (options : RetrievalOptions) (vector : Embedding) : RuleChunk :=
  plainRule options vector ['g'] none

def foundFirst (options : RetrievalOptions) (filePatterns : Option Text) : RuleChunk :=
  plainRule options ⟨[], []⟩ ['b'] filePatterns

def twoHits : RankedQuery where
  embedded := ⟨⟨[], []⟩, false⟩
  fullText := [chunkId ['b'], chunkId ['g']]
  graph := []
  fullTextNodup := by decide
  graphNodup := by decide

theorem lanes_of_active {held : Text → Bool} {chunks : List RuleChunk}
    (hactive : activeChunks library options chunks = [goodRule options ⟨[], []⟩]) :
    embeddingLane library options {} twoHits held chunks = [goodRule options ⟨[], []⟩] := by
  have hgraph : tryAnnRank library options {} twoHits held chunks = none := by
    simp [tryAnnRank, graphHits, twoHits]
  have hlinear : linearRank library options {} twoHits chunks =
      [(goodRule options ⟨[], []⟩, library.cosineSimilarity ⟨[], []⟩ ⟨[], []⟩)] := by
    simp [linearRank, hactive, ranks_default, twoHits, goodRule, plainRule]
  simp [embeddingLane, hgraph, hlinear]

theorem le_ftsLimit (hk : options.requestedK ≠ 0) : 2 ≤ options.ftsLimit := by
  have hpos := k_pos hk
  unfold RetrievalOptions.ftsLimit
  omega

theorem seen_of_out_of_scope {out : RuleChunk} (hk : options.requestedK ≠ 0)
    (hout : inScope library options out = false) : ¬ IneligibleUnseen library options := by
  intro hunseen
  have hbad : inScope library options (foundFirst options out.filePatterns) = false := hout
  have hgood : inScope library options (goodRule options ⟨[], []⟩) = true := inScope_of_none rfl
  have hbadAdmitted : options.filter.admits (foundFirst options out.filePatterns) = true :=
    admits_plainRule ..
  have hgoodAdmitted : options.filter.admits (goodRule options ⟨[], []⟩) = true :=
    admits_plainRule ..
  have hbadId : (foundFirst options out.filePatterns).id = chunkId ['b'] := rfl
  have hgoodId : (goodRule options ⟨[], []⟩).id = chunkId ['g'] := rfl
  have hne : chunkId ['b'] ≠ chunkId ['g'] := by decide
  let alone : Corpus := ⟨[goodRule options ⟨[], []⟩], List.nodup_singleton _⟩
  let behind : Corpus := ⟨[foundFirst options out.filePatterns, goodRule options ⟨[], []⟩], by
    simp [hbadId, hgoodId, hne]⟩
  have halone : activeChunks library options alone.rows = [goodRule options ⟨[], []⟩] := by
    simp [alone, activeChunks, admitted, hgoodAdmitted, hgood]
  have hbehind : activeChunks library options behind.rows = [goodRule options ⟨[], []⟩] := by
    simp [behind, activeChunks, admitted, hgoodAdmitted, hbadAdmitted, hgood, hbad]
  have hlimit := le_ftsLimit hk
  have hranks := ranks_default (goodRule options ⟨[], []⟩)
  have hfirst : ftsLane library options {} twoHits alone.rows =
      [(goodRule options ⟨[], []⟩, 0)] := by
    have hhits : ftsHits options twoHits alone.rows = [chunkId ['g']] := by
      simp [ftsHits, twoHits, admitted, alone, hgoodAdmitted, findChunk, hgoodId, hne.symm]
      omega
    simp [ftsLane, hhits, halone, findChunk, hgoodId, hranks]
  have hsecond : ftsLane library options {} twoHits behind.rows =
      [(goodRule options ⟨[], []⟩, 1)] := by
    have hhits : ftsHits options twoHits behind.rows = [chunkId ['b'], chunkId ['g']] := by
      simp [ftsHits, twoHits, admitted, behind, hgoodAdmitted, hbadAdmitted, findChunk, hgoodId,
        hbadId, hne]
      omega
    simp [ftsLane, hhits, hbehind, findChunk, hgoodId, hne.symm, hranks]
  have hsame := hunseen {} twoHits alone behind (halone.trans hbehind.symm)
  have hscores := congrArg List.head? hsame
  rw [head_retrieve_single hk (lanes_of_active halone) hfirst rfl (by norm_num),
    head_retrieve_single hk (lanes_of_active hbehind) hsecond rfl le_rfl] at hscores
  have hsums := scoredChunk_inj (Option.some.inj hscores)
  norm_num [reciprocal, rrfK] at hsums

/-! ## Rules that fill the search of the graph -/

def leftOut (options : RetrievalOptions) (vector : Embedding) (index : Nat) : RuleChunk where
  skillId := List.replicate index 'b'
  content := []
  embedding := vector
  filePatterns := none
  language := options.filter.language.map (' ' :: ·)
  repoScope := none

theorem admits_leftOut (hfilter : options.filter.isEmpty = false) (vector : Embedding)
    (index : Nat) : options.filter.admits (leftOut options vector index) = false := by
  cases hlanguage : options.filter.language with
  | some language => simp [QueryFilter.admits, leftOut, hlanguage]
  | none =>
    cases hrepo : options.filter.repoScope with
    | some repo => simp [QueryFilter.admits, leftOut, hrepo]
    | none => simp [QueryFilter.isEmpty, hlanguage, hrepo] at hfilter

def nearRule (options : RetrievalOptions) (vector : Embedding) : RuleChunk :=
  plainRule options vector ['n'] none

def crowd (options : RetrievalOptions) (vector : Embedding) : List RuleChunk :=
  (List.range (options.graphLimit - 1)).map (leftOut options vector)

theorem nodup_crowd (vector : Embedding) : ((crowd options vector).map RuleChunk.id).Nodup := by
  rw [crowd, List.map_map]
  refine List.nodup_range.map fun index other hsame => ?_
  have hids : chunkId (List.replicate index 'b') = chunkId (List.replicate other 'b') := hsame
  simpa using congrArg List.length (List.append_cancel_left hids)

theorem id_of_mem_crowd {vector : Embedding} {chunk : RuleChunk}
    (hchunk : chunk ∈ crowd options vector) :
    chunk.id ≠ chunkId ['n'] ∧ chunk.id ≠ chunkId ['g'] := by
  obtain ⟨index, -, rfl⟩ := List.mem_map.mp hchunk
  have hletters : ∀ c : Char, c ≠ 'b' → (leftOut options vector index).id ≠ chunkId [c] := by
    intro c hc hsame
    have hskill : List.replicate index 'b' = [c] := List.append_cancel_left hsame
    exact hc (List.eq_of_mem_replicate (hskill ▸ List.mem_singleton_self c))
  exact ⟨hletters 'n' (by decide), hletters 'g' (by decide)⟩

def crowdHits (options : RetrievalOptions) (vector : Embedding) : List (Text × Rat) :=
  (crowd options vector).map fun chunk => (chunk.id, 1)

theorem fst_crowdHits (vector : Embedding) :
    (crowdHits options vector).map Prod.fst = (crowd options vector).map RuleChunk.id := by
  rw [crowdHits, List.map_map]
  rfl

def crowdedQuery (options : RetrievalOptions) (vector : Embedding) : RankedQuery where
  embedded := ⟨vector, false⟩
  fullText := [chunkId ['g']]
  graph := (chunkId ['n'], 0) :: (crowdHits options vector ++ [(chunkId ['g'], 1)])
  fullTextNodup := List.nodup_singleton _
  graphNodup := by
    have hne : chunkId ['n'] ≠ chunkId ['g'] := by decide
    rw [List.map_cons, List.map_append, fst_crowdHits, List.nodup_cons, List.nodup_append]
    refine ⟨?_, nodup_crowd vector, List.nodup_singleton _, ?_⟩
    · simp only [List.mem_append, List.mem_map, List.mem_singleton, not_or, not_exists, not_and,
        List.map_cons, List.map_nil]
      exact ⟨fun chunk hchunk => (id_of_mem_crowd hchunk).1, hne⟩
    · simp only [List.mem_map, List.map_cons, List.map_nil, List.mem_singleton]
      rintro _ ⟨chunk, hchunk, rfl⟩ _ rfl
      exact (id_of_mem_crowd hchunk).2

def fewRules (options : RetrievalOptions) (vector : Embedding) : List RuleChunk :=
  [nearRule options vector, goodRule options vector]

theorem nodup_fewRules (vector : Embedding) :
    ((fewRules options vector).map RuleChunk.id).Nodup := by
  change [chunkId ['n'], chunkId ['g']].Nodup
  decide

def fewCorpus (options : RetrievalOptions) (vector : Embedding) : Corpus :=
  ⟨fewRules options vector, nodup_fewRules vector⟩

def crowdedCorpus (options : RetrievalOptions) (vector : Embedding) : Corpus where
  rows := fewRules options vector ++ crowd options vector
  nodup := by
    rw [List.map_append, List.nodup_append]
    refine ⟨nodup_fewRules vector, nodup_crowd vector, ?_⟩
    simp only [fewRules, List.map_cons, List.map_nil, List.mem_cons, List.mem_map,
      List.not_mem_nil, or_false]
    rintro _ (rfl | rfl) _ ⟨chunk, hchunk, rfl⟩
    · exact (id_of_mem_crowd hchunk).1.symm
    · exact (id_of_mem_crowd hchunk).2.symm

section Crowded

variable {vector : Embedding}

theorem filter_fewRules {p : RuleChunk → Bool} (hnear : p (nearRule options vector) = true)
    (hgood : p (goodRule options vector) = true) :
    (fewRules options vector).filter p = fewRules options vector := by
  simp [fewRules, hnear, hgood]

theorem active_fewCorpus :
    activeChunks library options (fewCorpus options vector).rows = fewRules options vector := by
  have hadmitted : (fewRules options vector).filter options.filter.admits =
      fewRules options vector := filter_fewRules (admits_plainRule ..) (admits_plainRule ..)
  rw [activeChunks, admitted, fewCorpus, hadmitted]
  exact filter_fewRules (inScope_of_none rfl) (inScope_of_none rfl)

theorem admitted_crowdedCorpus (hfilter : options.filter.isEmpty = false) :
    admitted options (crowdedCorpus options vector).rows = fewRules options vector := by
  have hcrowd : (crowd options vector).filter options.filter.admits = [] := by
    rw [List.filter_eq_nil_iff]
    intro chunk hchunk
    obtain ⟨index, -, rfl⟩ := List.mem_map.mp hchunk
    simp [admits_leftOut hfilter]
  rw [admitted, crowdedCorpus, List.filter_append, hcrowd, List.append_nil]
  exact filter_fewRules (admits_plainRule ..) (admits_plainRule ..)

theorem active_crowdedCorpus (hfilter : options.filter.isEmpty = false) :
    activeChunks library options (crowdedCorpus options vector).rows = fewRules options vector := by
  rw [activeChunks, admitted_crowdedCorpus hfilter]
  exact filter_fewRules (inScope_of_none rfl) (inScope_of_none rfl)

theorem findChunk_near : findChunk (chunkId ['n']) (fewRules options vector) =
    some (nearRule options vector) := by
  have hid : (nearRule options vector).id = chunkId ['n'] := rfl
  simp [findChunk, fewRules, hid]

theorem findChunk_good : findChunk (chunkId ['g']) (fewRules options vector) =
    some (goodRule options vector) := by
  have hnear : (nearRule options vector).id = chunkId ['n'] := rfl
  have hgood : (goodRule options vector).id = chunkId ['g'] := rfl
  have hne : chunkId ['n'] ≠ chunkId ['g'] := by decide
  simp [findChunk, fewRules, hnear, hgood, hne]

theorem findChunk_crowd {chunk : RuleChunk} (hchunk : chunk ∈ crowd options vector) :
    findChunk chunk.id (fewRules options vector) = none := by
  obtain ⟨hnear, hgood⟩ := id_of_mem_crowd hchunk
  rw [findChunk, List.find?_eq_none]
  simp only [fewRules, List.mem_cons, List.not_mem_nil, or_false, decide_eq_true_eq]
  rintro _ (rfl | rfl)
  · exact hnear.symm
  · exact hgood.symm

theorem le_graphLimit (hk : options.requestedK ≠ 0) : 3 ≤ options.graphLimit := by
  have hpos := k_pos hk
  unfold RetrievalOptions.graphLimit RetrievalOptions.annCandidates maxAnnCandidates
    Ann.maxSearchTopK
  omega

theorem annCandidates_ne_zero (hk : options.requestedK ≠ 0) : options.annCandidates ≠ 0 := by
  have hlimit : options.graphLimit ≤ options.annCandidates := min_le_left _ _
  have hroom := le_graphLimit hk
  omega

theorem graphHits_fewCorpus (hk : options.requestedK ≠ 0) :
    graphHits options (crowdedQuery options vector)
        (builtFrom library (crowdedQuery options vector) (fewCorpus options vector).rows) =
      [(chunkId ['n'], 0), (chunkId ['g'], 1)] := by
  have hlimit := le_graphLimit hk
  have hnear : builtFrom library (crowdedQuery options vector) (fewRules options vector)
      (chunkId ['n']) = true := by
    rw [builtFrom, findChunk_near]
    exact decide_eq_true rfl
  have hgood : builtFrom library (crowdedQuery options vector) (fewRules options vector)
      (chunkId ['g']) = true := by
    rw [builtFrom, findChunk_good]
    exact decide_eq_true rfl
  have hcrowd : (crowdHits options vector).filter (fun hit =>
      builtFrom library (crowdedQuery options vector) (fewRules options vector) hit.1) = [] := by
    rw [List.filter_eq_nil_iff]
    intro hit hhit
    obtain ⟨chunk, hchunk, rfl⟩ := List.mem_map.mp hhit
    simp [builtFrom, findChunk_crowd hchunk]
  have hsplit : (crowdedQuery options vector).graph =
      (chunkId ['n'], 0) :: (crowdHits options vector ++ [(chunkId ['g'], 1)]) := rfl
  rw [graphHits, hsplit]
  simp only [fewCorpus, List.filter_cons, List.filter_append, hcrowd, hnear, hgood, if_true,
    List.nil_append, List.filter_nil]
  exact List.take_of_length_le (by simp; omega)

theorem builtFrom_crowdedCorpus {id : Text}
    (hid : id ∈ (crowdedCorpus options vector).rows.map RuleChunk.id) :
    builtFrom library (crowdedQuery options vector) (crowdedCorpus options vector).rows id =
      true := by
  have hvector : ∀ chunk ∈ (crowdedCorpus options vector).rows, chunk.embedding = vector := by
    intro chunk hchunk
    rcases List.mem_append.mp hchunk with hfew | hcrowd
    · simp only [fewRules, List.mem_cons, List.not_mem_nil, or_false] at hfew
      rcases hfew with rfl | rfl
      · rfl
      · rfl
    · obtain ⟨index, -, rfl⟩ := List.mem_map.mp hcrowd
      rfl
  obtain ⟨chunk, hchunk, rfl⟩ := List.mem_map.mp hid
  unfold builtFrom
  cases hfind : findChunk chunk.id (crowdedCorpus options vector).rows with
  | none => exact absurd (List.find?_eq_none.mp hfind chunk hchunk) (by simp)
  | some found =>
    rw [Option.any_some, hvector found (List.mem_of_find?_eq_some hfind)]
    exact decide_eq_true rfl

section

variable (hk : options.requestedK ≠ 0)
include hk

theorem graphHits_crowdedCorpus :
    graphHits options (crowdedQuery options vector)
        (builtFrom library (crowdedQuery options vector) (crowdedCorpus options vector).rows) =
      (chunkId ['n'], 0) :: crowdHits options vector := by
  have hlimit := le_graphLimit hk
  have hlength : ((chunkId ['n'], (0 : Rat)) :: crowdHits options vector).length =
      options.graphLimit := by
    simp only [crowdHits, crowd, List.length_cons, List.length_map, List.length_range]
    omega
  have hall : (crowdedQuery options vector).graph.filter (fun hit =>
      builtFrom library (crowdedQuery options vector) (crowdedCorpus options vector).rows hit.1) =
      (crowdedQuery options vector).graph := by
    rw [List.filter_eq_self]
    intro hit hhit
    apply builtFrom_crowdedCorpus
    rw [crowdedCorpus, List.map_append, List.mem_append, ← fst_crowdHits]
    rcases List.mem_cons.mp hhit with rfl | hhit
    · exact .inl (.head _)
    · rcases List.mem_append.mp hhit with hcrowd | hlast
      · exact .inr (List.mem_map_of_mem hcrowd)
      · obtain rfl := List.mem_singleton.mp hlast
        exact .inl (.tail _ (.head _))
  have hsplit : (crowdedQuery options vector).graph =
      ((chunkId ['n'], 0) :: crowdHits options vector) ++ [(chunkId ['g'], 1)] := rfl
  rw [graphHits, hall, hsplit, List.take_append_of_le_length hlength.ge, ← hlength,
    List.take_length]

theorem tryAnnRank_fewCorpus (hvector : library.dimension vector ≠ 0) :
    tryAnnRank library options {} (crowdedQuery options vector)
        (builtFrom library (crowdedQuery options vector) (fewCorpus options vector).rows)
        (fewCorpus options vector).rows =
      some [(nearRule options vector, 1), (goodRule options vector, 0)] := by
  have hcandidates := annCandidates_ne_zero hk
  have hquery : library.dimension (crowdedQuery options vector).embedded.vector ≠ 0 := hvector
  have hzero : ¬ (library.dimension (crowdedQuery options vector).embedded.vector = 0 ||
      options.annCandidates = 0) = true := by simp [hquery, hcandidates]
  rw [tryAnnRank, if_neg hzero]
  simp [graphHits_fewCorpus hk, active_fewCorpus, findChunk_near, findChunk_good, ranks_default]

theorem tryAnnRank_crowdedCorpus
    (hvector : library.dimension vector ≠ 0) (hfilter : options.filter.isEmpty = false) :
    tryAnnRank library options {} (crowdedQuery options vector)
        (builtFrom library (crowdedQuery options vector) (crowdedCorpus options vector).rows)
        (crowdedCorpus options vector).rows = some [(nearRule options vector, 1)] := by
  have hcandidates := annCandidates_ne_zero hk
  have hquery : library.dimension (crowdedQuery options vector).embedded.vector ≠ 0 := hvector
  have hzero : ¬ (library.dimension (crowdedQuery options vector).embedded.vector = 0 ||
      options.annCandidates = 0) = true := by simp [hquery, hcandidates]
  have hcrowd : (crowdHits options vector).filterMap (fun hit =>
      ((findChunk hit.1 (fewRules options vector)).filter ({} : SkillFacts).ranks).map fun chunk =>
        (chunk, max (1 - hit.2) 0)) = [] := by
    rw [List.filterMap_eq_nil_iff]
    intro hit hhit
    obtain ⟨chunk, hchunk, rfl⟩ := List.mem_map.mp hhit
    simp [findChunk_crowd hchunk]
  rw [tryAnnRank, if_neg hzero, graphHits_crowdedCorpus hk, active_crowdedCorpus hfilter]
  simp [hcrowd, findChunk_near, ranks_default]

theorem ftsLane_of_few {chunks : List RuleChunk}
    (hadmitted : admitted options chunks = fewRules options vector)
    (hactive : activeChunks library options chunks = fewRules options vector) :
    ftsLane library options {} (crowdedQuery options vector) chunks =
      [(goodRule options vector, 0)] := by
  have hlimit := le_ftsLimit hk
  have hhits : ftsHits options (crowdedQuery options vector) chunks = [chunkId ['g']] := by
    simp [ftsHits, crowdedQuery, hadmitted, findChunk_good]
    omega
  simp [ftsLane, hhits, hactive, findChunk_good, ranks_default]

theorem seen_of_left_out (hann : options.annEnabled = true)
    (hvector : library.dimension vector ≠ 0) (hfilter : options.filter.isEmpty = false) :
    ¬ IneligibleUnseen library options := by
  intro hunseen
  have hsame := hunseen {} (crowdedQuery options vector) (fewCorpus options vector)
    (crowdedCorpus options vector) (active_fewCorpus.trans (active_crowdedCorpus hfilter).symm)
  have hne : chunkId ['n'] ≠ chunkId ['g'] := by decide
  have hnear : (nearRule options vector).id = chunkId ['n'] := rfl
  have hgood : (goodRule options vector).id = chunkId ['g'] := rfl
  have hfewLane : embeddingLane library options {} (crowdedQuery options vector)
      (builtFrom library (crowdedQuery options vector) (fewCorpus options vector).rows)
      (fewCorpus options vector).rows = [nearRule options vector, goodRule options vector] := by
    simp [embeddingLane, hann, tryAnnRank_fewCorpus hk hvector, List.insertionSort, moreSimilar]
  have hcrowdLane : embeddingLane library options {} (crowdedQuery options vector)
      (builtFrom library (crowdedQuery options vector) (crowdedCorpus options vector).rows)
      (crowdedCorpus options vector).rows = [nearRule options vector] := by
    simp [embeddingLane, hann, tryAnnRank_crowdedCorpus hk hvector hfilter]
  have hfewAdmitted : admitted options (fewCorpus options vector).rows =
      fewRules options vector := filter_fewRules (admits_plainRule ..) (admits_plainRule ..)
  have hfewFuse : fuse (rrfLaneWeights false) [nearRule options vector, goodRule options vector]
      [(goodRule options vector, 0)] = [(nearRule options vector, reciprocal (20 / 100) 0),
        (goodRule options vector, reciprocal (20 / 100) 1 + reciprocal (80 / 100) 0)] := by
    simp [fuse, contribute, rrfLaneWeights, hnear, hgood, hne]
  have hcrowdFuse : fuse (rrfLaneWeights false) [nearRule options vector]
      [(goodRule options vector, 0)] = [(nearRule options vector, reciprocal (20 / 100) 0),
        (goodRule options vector, 0 + reciprocal (80 / 100) 0)] := by
    simp [fuse, contribute, rrfLaneWeights, hnear, hgood, hne]
  have hweight : scoreWeight library options {} (nearRule options vector) =
      scoreWeight library options {} (goodRule options vector) := rfl
  have hextra : (0 : Rat) ≤ reciprocal (20 / 100) 1 := by norm_num [reciprocal, rrfK]
  have hscores := congrArg List.head? hsame
  rw [head_retrieve_pair hk hfewLane (ftsLane_of_few hk hfewAdmitted active_fewCorpus) rfl hfewFuse
      hextra hweight,
    head_retrieve_pair hk hcrowdLane (ftsLane_of_few hk (admitted_crowdedCorpus hfilter)
      (active_crowdedCorpus hfilter)) rfl hcrowdFuse le_rfl hweight] at hscores
  have hsums := scoredChunk_inj (Option.some.inj hscores)
  norm_num [reciprocal, rrfK] at hsums

end

end Crowded

end Counted

/-- Rules that are ruled out are not seen exactly if nothing is asked for, or no rule can be
dropped behind a limit. -/
theorem ineligibleUnseen_iff (library : RetrievalLibrary) (options : RetrievalOptions) :
    IneligibleUnseen library options ↔ options.requestedK = 0 ∨ NothingCutLate library options := by
  constructor
  · intro hunseen
    by_contra hcut
    rw [not_or] at hcut
    obtain ⟨hk, hlate⟩ := hcut
    refine hlate ⟨fun chunk => ?_, fun hsearched => ?_⟩
    · by_contra hout
      exact seen_of_out_of_scope hk (Bool.not_eq_true _ ▸ hout) hunseen
    · by_contra hfilter
      obtain ⟨hann, vector, hvector⟩ := hsearched
      exact seen_of_left_out hk hann hvector (Bool.not_eq_true _ ▸ hfilter) hunseen
  · rintro (hk | hcut)
    · intro facts query first second _
      rw [retrieveRulesWithConfidence, retrieveRulesWithConfidence, if_pos hk, if_pos hk]
    · exact ineligibleUnseen_of_nothingCutLate hcut

/-- Globs that end in their only star, and vectors that all have one dimension. -/
def starRetrieval : RetrievalLibrary :=
  { starLibrary with
    dimension := fun _ => 1
    cosineSimilarity := fun _ _ => 0
    halved := fun _ => 1 }

/-- An edit of one file, for which rules about other files are left out. -/
def strictOptions : RetrievalOptions where
  targetScope := some (.file "lib/a.rs")
  strictFileScope := true
  annEnabled := false

/-- A rule about `src` is counted by the full-text search for a file under `lib`. -/
theorem skipped_rule_takes_a_rank : ¬ IneligibleUnseen starRetrieval strictOptions := by
  have hout : inScope starRetrieval strictOptions
      (plainRule strictOptions ⟨[], []⟩ ['s'] (some "[\"src/*\"]")) = false := by decide
  exact seen_of_out_of_scope (by decide) hout

end Difflore.Context

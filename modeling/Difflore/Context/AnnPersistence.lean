import Difflore.Context.Ann
import Mathlib.Data.List.Sort

/-! # Saving and loading the ANN index

The loader takes every chunk that was ever inserted for live, while `remove`
made some of them stale. The round trip is exact as long as there are none.
-/

namespace Difflore.Context.Ann

open Foundation

variable {Scalar Distance Graph Dump : Type} (hnsw : Hnsw Scalar Distance Graph Dump)

/-- How the three maps and the graph hang together after any history. -/
structure AnnIndex.WellFormed (index : AnnIndex Graph) : Prop where
  current : ∀ chunkId slot, index.reverse.lookup chunkId = some slot →
    (latestIndex index.idMap).lookup chunkId = some slot
  stale : ∀ chunkId ∈ index.idMap, chunkId ∈ index.reverse ∨ chunkId ∈ index.tombstones
  known : ∀ chunkId ∈ index.tombstones, chunkId ∈ index.idMap
  graph : match index.inner with
    | none => index.idMap = []
    | some graph => hnsw.nbPoint graph = index.idMap.length

namespace AnnIndex

variable {hnsw} {index : AnnIndex Graph}

theorem wellFormed_empty (projectHash : Text) (dim : Nat) :
    (empty projectHash dim : AnnIndex Graph).WellFormed hnsw where
  current chunkId slot hlookup := by simp [empty] at hlookup
  stale := by simp [empty]
  known := by simp [empty]
  graph := rfl

theorem WellFormed.mem_idMap (hwf : index.WellFormed hnsw) {chunkId : ChunkId}
    (hlive : chunkId ∈ index.reverse) : chunkId ∈ index.idMap := by
  obtain ⟨slot, hslot⟩ := Option.isSome_iff_exists.mp (AList.lookup_isSome.mpr hlive)
  have hlatest := hwf.current chunkId slot hslot
  rw [← mem_latestIndex, ← AList.lookup_isSome, hlatest]
  rfl

/-- A new slot becomes the current one of its chunk. The chunk itself is live
afterwards, so only the other chunks can lean on their tombstones. -/
theorem WellFormed.append (hfaithful : hnsw.Faithful) (hwf : index.WellFormed hnsw)
    {graph : Graph} (hgraph : hnsw.nbPoint graph = index.idMap.length) (chunkId : ChunkId)
    (embedding : List Scalar) : (index.append hnsw graph chunkId embedding).WellFormed hnsw where
  current other slot hlookup := by
    simp only [AnnIndex.append] at hlookup ⊢
    rw [latestIndex_concat]
    by_cases hsame : other = chunkId
    · subst hsame
      rwa [AList.lookup_insert] at hlookup ⊢
    · rw [AList.lookup_insert_ne hsame] at hlookup ⊢
      exact hwf.current other slot hlookup
  stale other hother := by
    simp only [AnnIndex.append, AList.mem_insert] at hother ⊢
    rcases List.mem_append.mp hother with hold | hnew
    · rcases hwf.stale other hold with hlive | htombstone
      · exact .inl (.inr hlive)
      · exact .inr htombstone
    · exact .inl (.inl (List.mem_singleton.mp hnew))
  known other hother := List.mem_append_left _ (hwf.known other hother)
  graph := by
    simp only [AnnIndex.append, hfaithful.nbPoint_insert, hgraph, List.length_append,
      List.length_singleton]

theorem WellFormed.nbPoint_getD (hfaithful : hnsw.Faithful) (hwf : index.WellFormed hnsw) :
    hnsw.nbPoint (index.inner.getD hnsw.new) = index.idMap.length := by
  have hgraph := hwf.graph
  split at hgraph
  next hinner => simp [hinner, hgraph, hfaithful.nbPoint_new]
  next graph hinner => simpa [hinner] using hgraph

theorem WellFormed.adoptDim (hwf : index.WellFormed hnsw) (dim : Nat) :
    (index.adoptDim dim).WellFormed hnsw := by
  unfold AnnIndex.adoptDim
  split
  next => exact ⟨hwf.current, hwf.stale, hwf.known, hwf.graph⟩
  next => exact hwf

theorem WellFormed.tombstoneIfLive (hwf : index.WellFormed hnsw) (chunkId : ChunkId) :
    (index.tombstoneIfLive chunkId).WellFormed hnsw := by
  unfold AnnIndex.tombstoneIfLive
  split
  next hlive =>
    refine ⟨hwf.current, ?_, ?_, hwf.graph⟩
    · exact fun other hother => (hwf.stale other hother).imp id List.mem_insert_of_mem
    · intro other hother
      rcases List.mem_insert_iff.mp hother with rfl | hold
      · exact hwf.mem_idMap (AList.lookup_isSome.mp hlive)
      · exact hwf.known other hold
  next => exact hwf

theorem tombstoneIfLive_idMap (index : AnnIndex Graph) (chunkId : ChunkId) :
    (index.tombstoneIfLive chunkId).idMap = index.idMap := by
  unfold AnnIndex.tombstoneIfLive
  split <;> rfl

theorem WellFormed.upsert (hfaithful : hnsw.Faithful) (hwf : index.WellFormed hnsw)
    (chunkId : ChunkId) (embedding : List Scalar) :
    (index.upsert hnsw chunkId embedding).WellFormed hnsw := by
  have hsized := hwf.adoptDim embedding.length
  unfold AnnIndex.upsert
  split
  next => exact hwf
  next =>
    dsimp only
    split
    next => exact hsized
    next =>
      refine (hsized.tombstoneIfLive chunkId).append hfaithful ?_ chunkId embedding
      rw [tombstoneIfLive_idMap]
      exact hsized.nbPoint_getD hfaithful

theorem WellFormed.remove (hwf : index.WellFormed hnsw) (chunkId : ChunkId) :
    (index.remove chunkId).WellFormed hnsw := by
  unfold AnnIndex.remove
  split
  next hlive =>
    have hknown := hwf.mem_idMap (AList.lookup_isSome.mp hlive)
    refine ⟨?_, ?_, ?_, hwf.graph⟩
    · intro other slot hlookup
      by_cases hsame : other = chunkId
      · subst hsame
        simp at hlookup
      · rw [AList.lookup_erase_ne hsame] at hlookup
        exact hwf.current other slot hlookup
    · intro other hother
      by_cases hsame : other = chunkId
      · exact .inr (by simp [hsame])
      · rcases hwf.stale other hother with hstays | htombstone
        · exact .inl (AList.mem_erase.mpr ⟨hsame, hstays⟩)
        · exact .inr (List.mem_insert_of_mem htombstone)
    · intro other hother
      rcases List.mem_insert_iff.mp hother with rfl | hold
      · exact hknown
      · exact hwf.known other hold
  next => exact hwf

theorem WellFormed.buildFromChunks (hfaithful : hnsw.Faithful)
    (schemaHash : List ChunkId → Nat → Text) (projectHash : Text)
    (chunks : List (ChunkId × List Scalar)) :
    (buildFromChunks hnsw schemaHash projectHash chunks).WellFormed hnsw := by
  unfold AnnIndex.buildFromChunks
  split
  next => exact wellFormed_empty projectHash 0
  next _ first _ =>
    have hfold : ∀ (kept : List (ChunkId × List Scalar)) (built : AnnIndex Graph),
        built.WellFormed hnsw →
        (kept.foldl (fun index chunk =>
          index.append hnsw (index.inner.getD hnsw.new) chunk.1 chunk.2)
          built).WellFormed hnsw := by
      intro kept
      induction kept with
      | nil => exact fun _ hbuilt => hbuilt
      | cons chunk rest ih =>
        intro built hbuilt
        exact ih _ (hbuilt.append hfaithful (hbuilt.nbPoint_getD hfaithful) chunk.1 chunk.2)
    refine hfold _ _ ⟨?_, ?_, ?_, hfaithful.nbPoint_new⟩
    · simp [empty]
    · simp [empty]
    · simp [empty]

theorem WellFormed.foldl_apply (hfaithful : hnsw.Faithful)
    (schemaHash : List ChunkId → Nat → Text) (operations : List (Operation Scalar))
    (hwf : index.WellFormed hnsw) :
    (operations.foldl (apply hnsw schemaHash) index).WellFormed hnsw := by
  induction operations generalizing index with
  | nil => exact hwf
  | cons operation rest ih =>
    refine ih ?_
    cases operation with
    | buildFromChunks chunks => exact .buildFromChunks hfaithful schemaHash _ chunks
    | upsert chunkId embedding => exact hwf.upsert hfaithful chunkId embedding
    | remove chunkId => exact hwf.remove chunkId

theorem survivors_congr {index other : AnnIndex Graph} (hidMap : other.idMap = index.idMap)
    (hlookup : ∀ chunkId, other.reverse.lookup chunkId = index.reverse.lookup chunkId)
    (htombstones : other.tombstones = index.tombstones) (topK : Nat)
    (raw : List (Nat × Distance)) (seen : List ChunkId) :
    other.survivors topK raw seen = index.survivors topK raw seen := by
  induction raw generalizing seen with
  | nil => rfl
  | cons hit rest ih =>
    obtain ⟨internalId, distance⟩ := hit
    have hhidden :
      ∀ chunkId, other.hidden chunkId internalId = index.hidden chunkId internalId := by
      intro chunkId
      rw [hidden, hidden, htombstones, hlookup]
    unfold survivors
    rw [hidMap]
    simp only [hhidden, ih]

theorem search_congr (index other : AnnIndex Graph) (hinner : other.inner = index.inner)
    (hidMap : other.idMap = index.idMap)
    (hlookup : ∀ chunkId, other.reverse.lookup chunkId = index.reverse.lookup chunkId)
    (htombstones : other.tombstones = index.tombstones) (hdim : other.dim = index.dim)
    (query : List Scalar) (topK : Nat) :
    other.search hnsw query topK = index.search hnsw query topK := by
  have hcount :
    ∀ topK, other.rawSearchCandidateCount topK = index.rawSearchCandidateCount topK := by
    intro topK
    rw [rawSearchCandidateCount, rawSearchCandidateCount, hidMap, length_keys_eq_of_lookup hlookup]
  unfold search
  rw [hidMap, hdim, hinner]
  simp only [hcount, survivors_congr hidMap hlookup htombstones]

theorem WellFormed.search_eq_nil (hwf : index.WellFormed hnsw)
    (hnone : ∀ chunkId, chunkId ∉ index.reverse) (query : List Scalar) (topK : Nat) :
    index.search hnsw query topK = [] := by
  have hhidden : ∀ chunkId ∈ index.idMap, ∀ internalId, index.hidden chunkId internalId := by
    intro chunkId hmem internalId
    have htombstone := (hwf.stale chunkId hmem).resolve_left (hnone chunkId)
    simp [hidden, htombstone, AList.lookup_eq_none.mpr (hnone chunkId)]
  have hsurvivors : ∀ topK (raw : List (Nat × Distance)), index.survivors topK raw [] = [] := by
    intro topK raw
    induction raw with
    | nil => rfl
    | cons hit rest ih =>
      obtain ⟨internalId, distance⟩ := hit
      unfold survivors
      split
      next => exact ih
      next chunkId hslot =>
        rw [hhidden chunkId (List.mem_of_getElem? hslot), Bool.true_or, if_pos rfl]
        exact ih
  unfold search
  split
  next => rfl
  next =>
    dsimp only
    split
    next => rfl
    next =>
      split
      next => rfl
      next => exact hsurvivors _ _

theorem WellFormed.loadOrEmpty_save (hfaithful : hnsw.Faithful) (hwf : index.WellFormed hnsw)
    {graph : Graph} (hinner : index.inner = some graph) (hsize : index.idMap.length ≤ u32Max)
    (files : Files Dump) :
    loadOrEmpty hnsw (index.save hnsw files).1 index.projectHash index.dim =
      { index with reverse := latestIndex index.idMap, dirty := false } := by
  have hgraph := hwf.graph
  rw [hinner] at hgraph
  have hshape : metaSidecarShapeIsValid index.toMeta := by
    simpa [metaSidecarShapeIsValid, toMeta, hsize] using hwf.known
  have hversion : index.toMeta.version = metaVersion := rfl
  have hdim : index.toMeta.dim = index.dim := rfl
  have hidMap : index.toMeta.idMap = index.idMap := rfl
  simp only [loadOrEmpty, save, hinner, Option.map_some, Option.some_or, hversion, hdim, hshape,
    hfaithful.loadHnsw_fileDump, hidMap, hgraph]
  simp [toMeta]

theorem loadOrEmpty_save_oversized {graph : Graph} (hinner : index.inner = some graph)
    (hsize : u32Max < index.idMap.length) (files : Files Dump) :
    loadOrEmpty hnsw (index.save hnsw files).1 index.projectHash index.dim =
      empty index.projectHash index.dim := by
  have hshape : metaSidecarShapeIsValid index.toMeta = false := by
    have hsizes : index.toMeta.size ≠ index.toMeta.idMap.length := by
      show min index.idMap.length u32Max ≠ index.idMap.length
      omega
    simp [metaSidecarShapeIsValid, hsizes]
  simp [loadOrEmpty, save, hinner, hshape]

theorem loadOrEmpty_save_idMap (hidMap : index.idMap = []) (files : Files Dump) :
    (loadOrEmpty hnsw (index.save hnsw files).1 index.projectHash index.dim).idMap = [] ∧
      (loadOrEmpty hnsw (index.save hnsw files).1 index.projectHash index.dim).reverse = ∅ := by
  unfold loadOrEmpty
  split
  next sidecar dump hsidecar _ =>
    have hempty : sidecar.idMap = [] := by
      rw [← Option.some.inj hsidecar]
      exact hidMap
    split
    next => exact ⟨rfl, rfl⟩
    next =>
      split
      next => exact ⟨rfl, rfl⟩
      next =>
        split
        next => exact ⟨rfl, rfl⟩
        next => exact ⟨hempty, by rw [hempty]; rfl⟩
  next => exact ⟨rfl, rfl⟩

theorem search_of_idMap_nil (hidMap : index.idMap = []) (query : List Scalar) (topK : Nat) :
    index.search hnsw query topK = [] := by
  simp [search, hidMap]

end AnnIndex

/-- Saved and loaded again under its own dimension, the index has the same live
chunks and answers every search alike. -/
def RoundTrips (files : Files Dump) (index : AnnIndex Graph) : Prop :=
  let loaded := loadOrEmpty hnsw (index.save hnsw files).1 index.projectHash index.dim
  (∀ chunkId, chunkId ∈ loaded.reverse ↔ chunkId ∈ index.reverse) ∧
    ∀ query topK, loaded.search hnsw query topK = index.search hnsw query topK

/-- No chunk that still has a slot was removed; an index too large for its
sidecar has no live chunk at all. -/
def NothingRemoved (index : AnnIndex Graph) : Prop :=
  if index.idMap.length ≤ u32Max then ∀ chunkId ∈ index.idMap, chunkId ∈ index.reverse
  else ∀ chunkId ∈ index.idMap, chunkId ∉ index.reverse

variable {hnsw}

theorem AnnIndex.WellFormed.roundTrips_iff (hfaithful : hnsw.Faithful) {index : AnnIndex Graph}
    (hwf : index.WellFormed hnsw) (files : Files Dump) :
    RoundTrips hnsw files index ↔ NothingRemoved index := by
  have hgraph := hwf.graph
  unfold RoundTrips NothingRemoved
  cases hinner : index.inner with
  | none =>
    rw [hinner] at hgraph
    obtain ⟨hidMap, hreverse⟩ := AnnIndex.loadOrEmpty_save_idMap hgraph files
    constructor
    · intro _
      simp [hgraph]
    · intro _
      refine ⟨fun chunkId => ?_, fun query topK => ?_⟩
      · rw [hreverse]
        refine ⟨fun hmem => absurd hmem (AList.notMem_empty chunkId), fun hmem => ?_⟩
        have hstored := hwf.mem_idMap hmem
        simp [hgraph] at hstored
      · rw [AnnIndex.search_of_idMap_nil hidMap, AnnIndex.search_of_idMap_nil hgraph]
  | some graph =>
    by_cases hsize : index.idMap.length ≤ u32Max
    · rw [if_pos hsize, hwf.loadOrEmpty_save hfaithful hinner hsize files]
      constructor
      · rintro ⟨hlive, _⟩ chunkId hmem
        exact (hlive chunkId).mp (mem_latestIndex.mpr hmem)
      · intro hall
        have hlookup : ∀ chunkId, (latestIndex index.idMap).lookup chunkId =
            index.reverse.lookup chunkId := by
          intro chunkId
          by_cases hmem : chunkId ∈ index.reverse
          · obtain ⟨slot, hslot⟩ := Option.isSome_iff_exists.mp (AList.lookup_isSome.mpr hmem)
            rw [hslot, hwf.current chunkId slot hslot]
          · have hfresh : chunkId ∉ latestIndex index.idMap :=
              fun hstored => hmem (hall chunkId (mem_latestIndex.mp hstored))
            rw [AList.lookup_eq_none.mpr hmem, AList.lookup_eq_none.mpr hfresh]
        refine ⟨fun chunkId => ?_, fun query topK => ?_⟩
        · rw [← AList.lookup_isSome, ← AList.lookup_isSome, hlookup]
        · exact AnnIndex.search_congr index
            { index with reverse := latestIndex index.idMap, dirty := false }
            rfl rfl hlookup rfl rfl query topK
    · rw [if_neg hsize, AnnIndex.loadOrEmpty_save_oversized hinner (by omega) files]
      constructor
      · rintro ⟨hlive, _⟩ chunkId _ hmem
        exact AList.notMem_empty chunkId ((hlive chunkId).mpr hmem)
      · intro hnone
        have hdead : ∀ chunkId, chunkId ∉ index.reverse :=
          fun chunkId hmem => hnone chunkId (hwf.mem_idMap hmem) hmem
        refine ⟨fun chunkId => ?_, fun query topK => ?_⟩
        · exact ⟨fun hmem => absurd hmem (AList.notMem_empty chunkId),
            fun hmem => absurd hmem (hdead chunkId)⟩
        · rw [hwf.search_eq_nil hdead]
          exact AnnIndex.search_of_idMap_nil rfl query topK

/-- After any history of builds, upserts and removals, the round trip through
the files is exact if and only if no stored chunk is a removed one. -/
theorem roundTrips_iff_nothingRemoved (hfaithful : hnsw.Faithful)
    (schemaHash : List ChunkId → Nat → Text) (projectHash : Text) (dim : Nat)
    (operations : List (Operation Scalar)) (files : Files Dump) :
    RoundTrips hnsw files
        (operations.foldl (AnnIndex.apply hnsw schemaHash) (.empty projectHash dim)) ↔
      NothingRemoved
        (operations.foldl (AnnIndex.apply hnsw schemaHash)
          (.empty projectHash dim : AnnIndex Graph)) :=
  ((AnnIndex.wellFormed_empty projectHash dim).foldl_apply hfaithful schemaHash operations
    ).roundTrips_iff hfaithful files

/-- A graph that scans its points. Only equal and orthogonal vectors are told
apart, as cosine distances 0 and 1. -/
def scanHnsw : Hnsw Int Nat (List (List Int × Nat)) (List (List Int × Nat)) where
  new := []
  insert graph vector id := graph ++ [(vector, id)]
  search graph query knbn _ := ((graph.map fun point : List Int × Nat =>
      (point.2, if point.1 = query then 0 else 1)).insertionSort
      fun left right => left.2 ≤ right.2).take knbn
  nbPoint graph := graph.length
  fileDump graph := graph
  loadHnsw dump := some dump

theorem scanHnsw_faithful : scanHnsw.Faithful where
  nbPoint_new := rfl
  nbPoint_insert graph vector id := by simp [scanHnsw]
  loadHnsw_fileDump graph := rfl

def noFiles : Files (List (List Int × Nat)) := ⟨none, none⟩

/-- Two chunks, one of them replaced, and removed and inserted again. -/
def churn : List (Operation Int) := [ .buildFromChunks [("a", [1, 0]), ("b", [0, 1])],
    .upsert "a" [0, 1],
    .remove "a",
    .upsert "a" [1, 0] ]

theorem roundTrips_churn : RoundTrips scanHnsw noFiles
      (churn.foldl (AnnIndex.apply scanHnsw fun _ _ => []) (.empty "p" 2)) :=
  (roundTrips_iff_nothingRemoved scanHnsw_faithful (fun _ _ => []) "p" 2 churn noFiles).mpr
    (by unfold NothingRemoved; decide)

/-- One chunk is built and removed; the loaded index has it back. -/
theorem removed_chunk_returns : ¬ RoundTrips scanHnsw noFiles
      (([.buildFromChunks [("a", [1, 0])], .remove "a"] : List (Operation Int)).foldl
        (AnnIndex.apply scanHnsw fun _ _ => []) (.empty "p" 2)) := by
  rintro ⟨_, hsearch⟩
  exact absurd (hsearch [1, 0] 1) (by decide)

end Difflore.Context.Ann

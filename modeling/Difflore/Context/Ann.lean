import Difflore.Foundation.OrderedMap
import Difflore.Foundation.Text

/-! # The per-project ANN index

The graph library only appends. Which of its slots are live is tracked here:
`idMap` names the chunk of every slot, `reverse` the current slot of every live
chunk, and `tombstones` the chunks that have stale slots.
-/

namespace Difflore.Context.Ann

open Foundation

abbrev ChunkId := Text

def metaVersion : Nat := 1

def maxSearchTopK : Nat := 50

def maxRawSearchCandidates : Nat := 150

def baseRawSearchMultiplier : Nat := 3

def defaultEfSearch : Nat := 64

def u32Max : Nat := 2 ^ 32 - 1

/-- The graph library: points are stored under the internal ids they are
inserted with, and a search returns internal ids with distances. -/
structure Hnsw (Scalar Distance Graph Dump : Type) where
  new : Graph
  insert : Graph → List Scalar → Nat → Graph
  search : Graph → List Scalar → (knbn ef : Nat) → List (Nat × Distance)
  nbPoint : Graph → Nat
  fileDump : Graph → Dump
  loadHnsw : Dump → Option Graph

/-- What the index relies on: insertion adds one point, and a dumped graph is
reloaded as it was. -/
structure Hnsw.Faithful {Scalar Distance Graph Dump : Type}
    (hnsw : Hnsw Scalar Distance Graph Dump) : Prop where
  nbPoint_new : hnsw.nbPoint hnsw.new = 0
  nbPoint_insert : ∀ graph vector id,
    hnsw.nbPoint (hnsw.insert graph vector id) = hnsw.nbPoint graph + 1
  loadHnsw_fileDump : ∀ graph, hnsw.loadHnsw (hnsw.fileDump graph) = some graph

structure AnnMeta where
  version : Nat
  dim : Nat
  size : Nat
  schemaHash : Text
  idMap : List ChunkId
  tombstones : List ChunkId

structure AnnIndex (Graph : Type) where
  inner : Option Graph
  idMap : List ChunkId
  reverse : IndexMap ChunkId
  tombstones : List ChunkId
  dim : Nat
  dirty : Bool
  projectHash : Text
  schemaHash : Text

/-- The files of one project: the sidecar, when it parses, and the dumped graph. -/
structure Files (Dump : Type) where
  metaFile : Option AnnMeta
  graphFile : Option Dump

variable {Scalar Distance Graph Dump : Type} (hnsw : Hnsw Scalar Distance Graph Dump)

namespace AnnIndex

def empty (projectHash : Text) (dim : Nat) : AnnIndex Graph where
  inner := none
  idMap := []
  reverse := ∅
  tombstones := []
  dim := dim
  dirty := false
  projectHash := projectHash
  schemaHash := []

def append (index : AnnIndex Graph) (graph : Graph) (chunkId : ChunkId) (embedding : List Scalar) :
    AnnIndex Graph :=
  { index with
    inner := some (hnsw.insert graph embedding index.idMap.length)
    idMap := index.idMap ++ [chunkId]
    reverse := index.reverse.insert chunkId index.idMap.length
    dirty := true }

/-- Build a fresh index. Chunks of another dimension than the first non-empty
one are dropped. `schemaHash` is the digest of the chunk ids and the dimension. -/
def buildFromChunks (schemaHash : List ChunkId → Nat → Text) (projectHash : Text)
    (chunks : List (ChunkId × List Scalar)) : AnnIndex Graph :=
  match chunks.find? fun chunk => chunk.2 ≠ [] with
  | none => empty projectHash 0
  | some (_, first) =>
    let dim := first.length
    let fresh : AnnIndex Graph :=
      { (empty projectHash dim : AnnIndex Graph) with
        inner := some hnsw.new
        dirty := true
        schemaHash := schemaHash ((chunks.take 64).map Prod.fst) dim }
    (chunks.filter fun chunk => chunk.2.length = dim).foldl
      (fun index chunk => index.append hnsw (index.inner.getD hnsw.new) chunk.1 chunk.2) fresh

/-- An index without a graph takes its dimension from the first vector. -/
def adoptDim (index : AnnIndex Graph) (dim : Nat) : AnnIndex Graph :=
  if index.inner.isNone && index.dim = 0 then { index with dim := dim } else index

def tombstoneIfLive (index : AnnIndex Graph) (chunkId : ChunkId) : AnnIndex Graph :=
  if (index.reverse.lookup chunkId).isSome then
    { index with tombstones := index.tombstones.insert chunkId }
  else index

/-- Insert or replace one chunk. A replaced chunk gets a tombstone, so that its
older slots no longer surface. Vectors of another dimension are ignored. -/
def upsert (index : AnnIndex Graph) (chunkId : ChunkId) (embedding : List Scalar) :
    AnnIndex Graph :=
  if embedding = [] then index
  else
    let index := index.adoptDim embedding.length
    if embedding.length ≠ index.dim then index
    else
      (index.tombstoneIfLive chunkId).append hnsw (index.inner.getD hnsw.new) chunkId embedding

def remove (index : AnnIndex Graph) (chunkId : ChunkId) : AnnIndex Graph :=
  if (index.reverse.lookup chunkId).isSome then
    { index with
      reverse := index.reverse.erase chunkId
      tombstones := index.tombstones.insert chunkId
      dirty := true }
  else index

/-- Over-fetch so that stale and repeated slots leave enough survivors. -/
def rawSearchCandidateCount (index : AnnIndex Graph) (topK : Nat) : Nat :=
  let total := index.idMap.length
  if total = 0 then 0
  else
    let live := max index.reverse.keys.length 1
    let base := topK * baseRawSearchMultiplier
    let scaled := (base * total + live - 1) / live
    min (min (max scaled (min topK total)) maxRawSearchCandidates) total

/-- A slot of a tombstoned chunk is stale unless it is the current one; a
removed chunk has no current slot. -/
def hidden (index : AnnIndex Graph) (chunkId : ChunkId) (internalId : Nat) : Bool :=
  chunkId ∈ index.tombstones &&
    match index.reverse.lookup chunkId with
    | some current => current ≠ internalId
    | none => true

/-- The hits that survive filtering, first slot of each chunk first, up to `topK`. -/
def survivors (index : AnnIndex Graph) (topK : Nat) :
    List (Nat × Distance) → List ChunkId → List (ChunkId × Distance)
  | [], _ => []
  | (internalId, distance) :: rest, seen =>
    match index.idMap[internalId]? with
    | none => survivors index topK rest seen
    | some chunkId =>
      if index.hidden chunkId internalId || chunkId ∈ seen then survivors index topK rest seen
      else
        (chunkId, distance) ::
          if seen.length + 1 ≥ topK then [] else survivors index topK rest (chunkId :: seen)

def search (index : AnnIndex Graph) (query : List Scalar) (topK : Nat) :
    List (ChunkId × Distance) :=
  if topK = 0 || query = [] || index.idMap = [] then []
  else
    let topK := min topK maxSearchTopK
    if query.length ≠ index.dim then []
    else
      match index.inner with
      | none => []
      | some graph =>
        let raw := hnsw.search graph query (index.rawSearchCandidateCount topK)
          (max defaultEfSearch (topK * 2))
        index.survivors topK raw []

def toMeta (index : AnnIndex Graph) : AnnMeta where
  version := metaVersion
  dim := index.dim
  size := min index.idMap.length u32Max
  schemaHash := index.schemaHash
  idMap := index.idMap
  tombstones := index.tombstones

def save (index : AnnIndex Graph) (files : Files Dump) : Files Dump × AnnIndex Graph :=
  ({ metaFile := some index.toMeta
     graphFile := (index.inner.map hnsw.fileDump).or files.graphFile },
    { index with dirty := false })

end AnnIndex

def metaSidecarShapeIsValid (sidecar : AnnMeta) : Bool :=
  sidecar.size = sidecar.idMap.length && sidecar.tombstones.all (· ∈ sidecar.idMap)

/-- Load from disk. `reverse` is not stored: it is rebuilt from `idMap`. Anything
missing or out of line gives an empty index. -/
def loadOrEmpty (files : Files Dump) (projectHash : Text) (dim : Nat) : AnnIndex Graph :=
  match files.metaFile, files.graphFile with
  | some sidecar, some dump =>
    if sidecar.version ≠ metaVersion || sidecar.dim ≠ dim ||
        !metaSidecarShapeIsValid sidecar then
      .empty projectHash dim
    else
      match hnsw.loadHnsw dump with
      | none => .empty projectHash dim
      | some graph =>
        if hnsw.nbPoint graph ≠ sidecar.idMap.length then .empty projectHash dim
        else
          { inner := some graph
            idMap := sidecar.idMap
            reverse := latestIndex sidecar.idMap
            tombstones := sidecar.tombstones
            dim := dim
            dirty := false
            projectHash := projectHash
            schemaHash := sidecar.schemaHash }
  | _, _ => .empty projectHash dim

inductive Operation (Scalar : Type)
  | buildFromChunks (chunks : List (ChunkId × List Scalar))
  | upsert (chunkId : ChunkId) (embedding : List Scalar)
  | remove (chunkId : ChunkId)

def AnnIndex.apply (schemaHash : List ChunkId → Nat → Text) (index : AnnIndex Graph) :
    Operation Scalar → AnnIndex Graph
  | .buildFromChunks chunks => buildFromChunks hnsw schemaHash index.projectHash chunks
  | .upsert chunkId embedding => index.upsert hnsw chunkId embedding
  | .remove chunkId => index.remove chunkId

end Difflore.Context.Ann

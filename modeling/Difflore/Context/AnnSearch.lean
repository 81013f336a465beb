import Difflore.Context.Ann

/-! # What a search of the ANN index returns

The graph keeps every point it was ever given. A shelf says which embedding each chunk has after a
history of calls, and which ones a later chunk of the same build list superseded. A search returns
live chunks with the distance of their embedding, unless such a superseded embedding is in the way.
-/

namespace Difflore.Context.Ann

open Foundation

/-- What the documentation of the graph library promises: a point keeps the place it was inserted
at, and a hit is a stored point with its distance from the query. Which points are found is left
open. -/
structure Hnsw.Genuine {Scalar Distance Graph Dump : Type} (hnsw : Hnsw Scalar Distance Graph Dump)
    (points : Graph → List (List Scalar)) (distance : List Scalar → List Scalar → Distance) :
    Prop where
  points_new : points hnsw.new = []
  points_insert : ∀ graph vector,
    points (hnsw.insert graph vector (points graph).length) = points graph ++ [vector]
  search_mem : ∀ graph query knbn ef, ∀ hit ∈ hnsw.search graph query knbn ef,
    ∃ vector, (points graph)[hit.1]? = some vector ∧ hit.2 = distance query vector

variable {Scalar : Type}

/-- The embedding of every live chunk, and those superseded within the last build list. -/
structure Shelf (Scalar : Type) where
  dim : Nat
  live : ChunkId → Option (List Scalar)
  superseded : ChunkId → List (List Scalar)

namespace Shelf

def empty (dim : Nat) : Shelf Scalar := ⟨dim, fun _ => none, fun _ => []⟩

def put (shelf : Shelf Scalar) (chunkId : ChunkId) (embedding : List Scalar)
    (superseded : List (List Scalar)) : Shelf Scalar :=
  { shelf with
    live := Function.update shelf.live chunkId (some embedding)
    superseded := Function.update shelf.superseded chunkId superseded }

def buildFromChunks (chunks : List (ChunkId × List Scalar)) : Shelf Scalar :=
  match chunks.find? fun chunk => chunk.2 ≠ [] with
  | none => empty 0
  | some (_, first) =>
    (chunks.filter fun chunk => chunk.2.length = first.length).foldl
      (fun shelf chunk => shelf.put chunk.1 chunk.2
        ((shelf.live chunk.1).toList ++ shelf.superseded chunk.1))
      (empty first.length)

def upsert (shelf : Shelf Scalar) (chunkId : ChunkId) (embedding : List Scalar) : Shelf Scalar :=
  let dim := if shelf.dim = 0 then embedding.length else shelf.dim
  if embedding = [] || embedding.length ≠ dim then shelf
  else { shelf.put chunkId embedding [] with dim := dim }

def remove (shelf : Shelf Scalar) (chunkId : ChunkId) : Shelf Scalar :=
  { shelf with
    live := Function.update shelf.live chunkId none
    superseded := Function.update shelf.superseded chunkId [] }

def apply (shelf : Shelf Scalar) : Operation Scalar → Shelf Scalar
  | .buildFromChunks chunks => buildFromChunks chunks
  | .upsert chunkId embedding => shelf.upsert chunkId embedding
  | .remove chunkId => shelf.remove chunkId

/-- No live chunk was given another embedding earlier in the last build list. -/
def Settled (shelf : Shelf Scalar) : Prop :=
  ∀ chunkId, ∀ embedding ∈ shelf.superseded chunkId, shelf.live chunkId = some embedding

end Shelf

def lastRemoved (chunkId : ChunkId) (operations : List (Operation Scalar)) : Prop :=
  operations.foldl (fun removed operation =>
    match operation with
    | .buildFromChunks chunks => removed ∧ chunkId ∉ chunks.map Prod.fst
    | .upsert other _ => removed ∧ other ≠ chunkId
    | .remove other => removed ∨ other = chunkId) False

/-- Live chunks at the distance of their embedding, no chunk twice, and no more than asked for. -/
structure FreshHits {Distance : Type} (operations : List (Operation Scalar)) (shelf : Shelf Scalar)
    (distance : List Scalar → Distance) (topK : Nat) (hits : List (ChunkId × Distance)) : Prop where
  removed : ∀ hit ∈ hits, ¬ lastRemoved hit.1 operations
  live : ∀ hit ∈ hits, ∃ embedding, shelf.live hit.1 = some embedding ∧ hit.2 = distance embedding
  nodup : (hits.map Prod.fst).Nodup
  length : hits.length ≤ min topK maxSearchTopK

/-! ## The index behind the shelf -/

section Refinement

variable {Distance Graph Dump : Type} (hnsw : Hnsw Scalar Distance Graph Dump)
  (points : Graph → List (List Scalar))

def AnnIndex.stored (index : AnnIndex Graph) : List (List Scalar) :=
  points (index.inner.getD hnsw.new)

/-- The maps of the index tell the live slot of every chunk from its other slots, except for the
slots superseded within a build list. -/
structure Shelves (index : AnnIndex Graph) (shelf : Shelf Scalar) : Prop where
  dim : index.dim = shelf.dim
  dim_ne : index.inner.isSome → index.dim ≠ 0
  slots : (index.stored hnsw points).length = index.idMap.length
  current : ∀ chunkId slot, index.reverse.lookup chunkId = some slot →
    index.idMap[slot]? = some chunkId ∧ (index.stored hnsw points)[slot]? = shelf.live chunkId
  absent : ∀ chunkId, index.reverse.lookup chunkId = none →
    shelf.live chunkId = none ∧ (chunkId ∈ index.idMap → chunkId ∈ index.tombstones)
  visible : ∀ chunkId (slot : Nat), index.idMap[slot]? = some chunkId → chunkId ∉ index.tombstones →
    ∀ embedding, (index.stored hnsw points)[slot]? = some embedding →
      embedding ∈ shelf.superseded chunkId ∨ shelf.live chunkId = some embedding
  superseded : ∀ chunkId, ∀ embedding ∈ shelf.superseded chunkId,
    chunkId ∉ index.tombstones ∧ (index.reverse.lookup chunkId).isSome ∧
      ∃ slot : Nat, index.idMap[slot]? = some chunkId ∧
        (index.stored hnsw points)[slot]? = some embedding

variable {hnsw points} {distance : List Scalar → List Scalar → Distance}
  {index : AnnIndex Graph} {shelf : Shelf Scalar}

namespace Shelves

theorem empty (hgenuine : hnsw.Genuine points distance) (projectHash : Text) (dim : Nat) :
    Shelves hnsw points (.empty projectHash dim) (.empty dim) where
  dim := rfl
  dim_ne := by simp [AnnIndex.empty]
  slots := by simp [AnnIndex.stored, AnnIndex.empty, hgenuine.points_new]
  current := by simp [AnnIndex.empty]
  absent := by simp [AnnIndex.empty, Shelf.empty]
  visible := by simp [AnnIndex.empty]
  superseded := by simp [Shelf.empty]

theorem exists_slot (hshelves : Shelves hnsw points index shelf) {chunkId : ChunkId}
    {embedding : List Scalar} (hlive : shelf.live chunkId = some embedding) :
    ∃ slot : Nat, index.reverse.lookup chunkId = some slot ∧ index.idMap[slot]? = some chunkId ∧
      (index.stored hnsw points)[slot]? = some embedding := by
  cases hlookup : index.reverse.lookup chunkId with
  | none =>
    rw [(hshelves.absent chunkId hlookup).1] at hlive
    contradiction
  | some slot =>
    obtain ⟨hid, hstored⟩ := hshelves.current chunkId slot hlookup
    exact ⟨slot, rfl, hid, hstored.trans hlive⟩

theorem stored_append (hgenuine : hnsw.Genuine points distance)
    (hslots : (index.stored hnsw points).length = index.idMap.length) (chunkId : ChunkId)
    (embedding : List Scalar) :
    (index.append hnsw (index.inner.getD hnsw.new) chunkId embedding).stored hnsw points =
      index.stored hnsw points ++ [embedding] := by
  unfold AnnIndex.stored at hslots
  simp only [AnnIndex.stored, AnnIndex.append, Option.getD_some]
  rw [← hslots, hgenuine.points_insert]

theorem getElem?_concat_of_some {α : Type} {items : List α} {slot : Nat} {item : α}
    (hitem : items[slot]? = some item) (last : α) : (items ++ [last])[slot]? = some item := by
  rw [List.getElem?_append_left (List.getElem?_eq_some_iff.mp hitem).1, hitem]

/-- A new slot becomes the live one of its chunk. The superseded embeddings are those that stay
visible in its older slots. -/
theorem append (hgenuine : hnsw.Genuine points distance)
    (hshelves : Shelves hnsw points index shelf) (hdim : index.dim ≠ 0) (chunkId : ChunkId)
    (embedding : List Scalar) {superseded : List (List Scalar)}
    (hsuperseded : ∀ old, old ∈ superseded ↔ chunkId ∉ index.tombstones ∧
      (old ∈ shelf.superseded chunkId ∨ shelf.live chunkId = some old)) :
    Shelves hnsw points (index.append hnsw (index.inner.getD hnsw.new) chunkId embedding)
      (shelf.put chunkId embedding superseded) := by
  have hstored := stored_append hgenuine hshelves.slots chunkId embedding
  have hlast : (index.stored hnsw points ++ [embedding])[index.idMap.length]? = some embedding := by
    rw [← hshelves.slots, List.getElem?_concat_length]
  constructor
  · exact hshelves.dim
  · exact fun _ => hdim
  · rw [hstored, List.length_append, hshelves.slots]
    simp [AnnIndex.append]
  · intro other slot hlookup
    rw [hstored]
    simp only [AnnIndex.append, Shelf.put] at hlookup ⊢
    by_cases hsame : other = chunkId
    · subst hsame
      rw [AList.lookup_insert, Option.some.injEq] at hlookup
      subst hlookup
      rw [List.getElem?_concat_length, hlast, Function.update_self]
      exact ⟨rfl, rfl⟩
    · rw [AList.lookup_insert_ne hsame] at hlookup
      obtain ⟨hid, hold⟩ := hshelves.current other slot hlookup
      have hslot := (List.getElem?_eq_some_iff.mp hid).1
      rw [Function.update_of_ne hsame, ← hold, List.getElem?_append_left hslot,
        List.getElem?_append_left (hshelves.slots ▸ hslot)]
      exact ⟨hid, rfl⟩
  · intro other hlookup
    simp only [AnnIndex.append, Shelf.put] at hlookup ⊢
    have hsame : other ≠ chunkId := by
      rintro rfl
      rw [AList.lookup_insert] at hlookup
      contradiction
    rw [AList.lookup_insert_ne hsame] at hlookup
    rw [Function.update_of_ne hsame]
    refine ⟨(hshelves.absent other hlookup).1, fun hmem => ?_⟩
    rcases List.mem_append.mp hmem with hold | hnew
    · exact (hshelves.absent other hlookup).2 hold
    · exact absurd (List.mem_singleton.mp hnew) hsame
  · intro other slot hid hvisible old hold
    rw [hstored] at hold
    simp only [AnnIndex.append, Shelf.put] at hid hvisible ⊢
    by_cases hslot : slot < index.idMap.length
    · rw [List.getElem?_append_left hslot] at hid
      rw [List.getElem?_append_left (hshelves.slots ▸ hslot)] at hold
      have hseen := hshelves.visible other slot hid hvisible old hold
      by_cases hsame : other = chunkId
      · subst hsame
        rw [Function.update_self]
        exact .inl ((hsuperseded old).mpr ⟨hvisible, hseen⟩)
      · rw [Function.update_of_ne hsame, Function.update_of_ne hsame]
        exact hseen
    · have hlength := (List.getElem?_eq_some_iff.mp hid).1
      rw [List.length_append, List.length_singleton] at hlength
      obtain rfl : slot = index.idMap.length := by omega
      rw [List.getElem?_concat_length, Option.some.injEq] at hid
      subst hid
      rw [hlast] at hold
      rw [Function.update_self, Function.update_self]
      exact .inr hold
  · intro other old hold
    rw [hstored]
    simp only [AnnIndex.append, Shelf.put] at hold ⊢
    by_cases hsame : other = chunkId
    · subst hsame
      rw [Function.update_self] at hold
      obtain ⟨hvisible, hseen⟩ := (hsuperseded old).mp hold
      refine ⟨hvisible, by simp, ?_⟩
      have hslot : ∃ slot : Nat, index.idMap[slot]? = some other ∧
          (index.stored hnsw points)[slot]? = some old := by
        rcases hseen with hshadow | hlive
        · exact (hshelves.superseded other old hshadow).2.2
        · obtain ⟨slot, _, hfound⟩ := hshelves.exists_slot hlive
          exact ⟨slot, hfound⟩
      obtain ⟨slot, hid, hpoint⟩ := hslot
      exact ⟨slot, getElem?_concat_of_some hid _, getElem?_concat_of_some hpoint _⟩
    · rw [Function.update_of_ne hsame] at hold
      obtain ⟨hvisible, hlive, slot, hid, hpoint⟩ := hshelves.superseded other old hold
      rw [AList.lookup_insert_ne hsame]
      exact ⟨hvisible, hlive, slot, getElem?_concat_of_some hid _, getElem?_concat_of_some hpoint _⟩

theorem buildFromChunks (hgenuine : hnsw.Genuine points distance)
    (schemaHash : List ChunkId → Nat → Text) (projectHash : Text)
    (chunks : List (ChunkId × List Scalar)) :
    Shelves hnsw points (AnnIndex.buildFromChunks hnsw schemaHash projectHash chunks)
      (.buildFromChunks chunks) := by
  unfold AnnIndex.buildFromChunks Shelf.buildFromChunks
  cases hfirst : chunks.find? fun chunk => chunk.2 ≠ [] with
  | none => exact .empty hgenuine projectHash 0
  | some found =>
    obtain ⟨_, first⟩ := found
    dsimp only
    have hfold : ∀ (kept : List (ChunkId × List Scalar)) (built : AnnIndex Graph)
        (shelf : Shelf Scalar), Shelves hnsw points built shelf → built.dim ≠ 0 →
        built.tombstones = [] →
        Shelves hnsw points
          (kept.foldl (fun index chunk =>
            index.append hnsw (index.inner.getD hnsw.new) chunk.1 chunk.2) built)
          (kept.foldl (fun shelf chunk => shelf.put chunk.1 chunk.2
            ((shelf.live chunk.1).toList ++ shelf.superseded chunk.1)) shelf) := by
      intro kept
      induction kept with
      | nil => exact fun _ _ hbuilt _ _ => hbuilt
      | cons chunk rest ih =>
        intro built shelf hbuilt hdim htombstones
        apply ih _ _ (hbuilt.append hgenuine hdim chunk.1 chunk.2 _) hdim htombstones
        intro old
        simp [htombstones, or_comm]
    have hlength : first.length ≠ 0 := by
      simpa using List.find?_some hfirst
    apply hfold _ _ _ _ hlength rfl
    have hempty := empty hgenuine projectHash first.length
    constructor
    · rfl
    · exact fun _ => hlength
    · simp [AnnIndex.stored, AnnIndex.empty, hgenuine.points_new]
    · exact hempty.current
    · exact hempty.absent
    · exact fun chunkId slot hid => absurd hid (by simp [AnnIndex.empty])
    · exact fun chunkId old hold => absurd hold (by simp [Shelf.empty])

theorem superseded_of_absent (hshelves : Shelves hnsw points index shelf) {chunkId : ChunkId}
    (hdead : ¬ (index.reverse.lookup chunkId).isSome) : shelf.superseded chunkId = [] := by
  apply List.eq_nil_iff_forall_not_mem.mpr
  intro old hold
  exact hdead (hshelves.superseded chunkId old hold).2.1

theorem tombstoneIfLive (hshelves : Shelves hnsw points index shelf) (chunkId : ChunkId) :
    Shelves hnsw points (index.tombstoneIfLive chunkId)
      { shelf with superseded := Function.update shelf.superseded chunkId [] } := by
  unfold AnnIndex.tombstoneIfLive
  split
  next hlive =>
    constructor
    · exact hshelves.dim
    · exact hshelves.dim_ne
    · exact hshelves.slots
    · exact hshelves.current
    · intro other hlookup
      obtain ⟨hnone, hstale⟩ := hshelves.absent other hlookup
      exact ⟨hnone, fun hmem => List.mem_insert_of_mem (hstale hmem)⟩
    · intro other slot hid hvisible old hold
      simp only [List.mem_insert_iff, not_or] at hvisible ⊢
      rw [Function.update_of_ne hvisible.1]
      exact hshelves.visible other slot hid hvisible.2 old hold
    · intro other old hold
      simp only [List.mem_insert_iff, not_or] at hold ⊢
      by_cases hsame : other = chunkId
      · subst hsame
        simp at hold
      · rw [Function.update_of_ne hsame] at hold
        obtain ⟨hvisible, hrest⟩ := hshelves.superseded other old hold
        exact ⟨⟨hsame, hvisible⟩, hrest⟩
  next hdead =>
    rw [← hshelves.superseded_of_absent hdead, Function.update_eq_self]
    exact hshelves

theorem mem_tombstones_of_live {chunkId : ChunkId} (hlive : (index.reverse.lookup chunkId).isSome) :
    chunkId ∈ (index.tombstoneIfLive chunkId).tombstones := by
  rw [AnnIndex.tombstoneIfLive, if_pos hlive]
  exact List.mem_insert_self

theorem adoptDim (hshelves : Shelves hnsw points index shelf) (dim : Nat) :
    Shelves hnsw points (index.adoptDim dim)
      { shelf with dim := if shelf.dim = 0 then dim else shelf.dim } := by
  unfold AnnIndex.adoptDim
  rw [← hshelves.dim]
  split
  next hfresh =>
    rw [Bool.and_eq_true, decide_eq_true_iff, Option.isNone_iff_eq_none] at hfresh
    rw [if_pos hfresh.2]
    exact ⟨rfl, by simp [hfresh.1], hshelves.slots, hshelves.current, hshelves.absent,
      hshelves.visible, hshelves.superseded⟩
  next hkept =>
    have hdim : index.dim ≠ 0 := by
      intro hzero
      rw [Bool.and_eq_true, decide_eq_true_iff, not_and', Option.isNone_iff_eq_none] at hkept
      exact hshelves.dim_ne (Option.isSome_iff_ne_none.mpr (hkept hzero)) hzero
    rw [if_neg hdim]
    exact ⟨rfl, hshelves.dim_ne, hshelves.slots, hshelves.current, hshelves.absent,
      hshelves.visible, hshelves.superseded⟩

theorem upsert (hgenuine : hnsw.Genuine points distance)
    (hshelves : Shelves hnsw points index shelf) (chunkId : ChunkId) (embedding : List Scalar) :
    Shelves hnsw points (index.upsert hnsw chunkId embedding) (shelf.upsert chunkId embedding) := by
  have hadopted := hshelves.adoptDim embedding.length
  unfold AnnIndex.upsert Shelf.upsert
  by_cases hempty : embedding = []
  · simpa [hempty] using hshelves
  · simp only [hempty, decide_false, Bool.false_or, decide_eq_true_eq]
    rw [hadopted.dim]
    by_cases hdim : embedding.length = if shelf.dim = 0 then embedding.length else shelf.dim
    · rw [if_neg (not_not.mpr hdim), if_neg (not_not.mpr hdim)]
      have hmarked := hadopted.tombstoneIfLive chunkId
      have hinner : ((index.adoptDim embedding.length).tombstoneIfLive chunkId).inner =
          (index.adoptDim embedding.length).inner := by
        unfold AnnIndex.tombstoneIfLive
        split <;> rfl
      have hsized : ((index.adoptDim embedding.length).tombstoneIfLive chunkId).dim ≠ 0 := by
        rw [hmarked.dim]
        exact fun hzero => hempty (List.length_eq_zero_iff.mp (hdim.trans hzero))
      have hnone : ∀ old, old ∈ ([] : List (List Scalar)) ↔
          chunkId ∉ ((index.adoptDim embedding.length).tombstoneIfLive chunkId).tombstones ∧
            (old ∈ Function.update shelf.superseded chunkId [] chunkId ∨
              shelf.live chunkId = some old) := by
        intro old
        rw [Function.update_self]
        simp only [List.not_mem_nil, false_or, false_iff, not_and]
        intro hvisible hlive
        obtain ⟨slot, hlookup, _⟩ := hadopted.exists_slot hlive
        exact hvisible (mem_tombstones_of_live (Option.isSome_of_eq_some hlookup))
      have hput := hmarked.append hgenuine hsized chunkId embedding hnone
      rw [hinner] at hput
      simpa [Shelf.put] using hput
    · rw [if_pos hdim, if_pos hdim]
      have hkept : shelf.dim ≠ 0 := fun hzero => hdim (if_pos hzero).symm
      rwa [if_neg hkept] at hadopted

theorem remove (hshelves : Shelves hnsw points index shelf) (chunkId : ChunkId) :
    Shelves hnsw points (index.remove chunkId) (shelf.remove chunkId) := by
  unfold AnnIndex.remove
  split
  next hlive =>
    constructor
    · exact hshelves.dim
    · exact hshelves.dim_ne
    · exact hshelves.slots
    · intro other slot hlookup
      simp only [Shelf.remove] at hlookup ⊢
      have hsame : other ≠ chunkId := by
        rintro rfl
        simp at hlookup
      rw [AList.lookup_erase_ne hsame] at hlookup
      rw [Function.update_of_ne hsame]
      exact hshelves.current other slot hlookup
    · intro other hlookup
      simp only [Shelf.remove] at hlookup ⊢
      by_cases hsame : other = chunkId
      · subst hsame
        exact ⟨Function.update_self .., fun _ => List.mem_insert_self⟩
      · rw [AList.lookup_erase_ne hsame] at hlookup
        rw [Function.update_of_ne hsame]
        obtain ⟨hnone, hstale⟩ := hshelves.absent other hlookup
        exact ⟨hnone, fun hmem => List.mem_insert_of_mem (hstale hmem)⟩
    · intro other slot hid hvisible old hold
      simp only [Shelf.remove, List.mem_insert_iff, not_or] at hvisible ⊢
      rw [Function.update_of_ne hvisible.1, Function.update_of_ne hvisible.1]
      exact hshelves.visible other slot hid hvisible.2 old hold
    · intro other old hold
      simp only [Shelf.remove, List.mem_insert_iff, not_or] at hold ⊢
      by_cases hsame : other = chunkId
      · subst hsame
        simp at hold
      · rw [Function.update_of_ne hsame] at hold
        rw [AList.lookup_erase_ne hsame]
        obtain ⟨hvisible, hrest⟩ := hshelves.superseded other old hold
        exact ⟨⟨hsame, hvisible⟩, hrest⟩
  next hdead =>
    have hlive := (hshelves.absent chunkId (Option.not_isSome_iff_eq_none.mp hdead)).1
    have hsame : shelf.remove chunkId = shelf := by
      rw [Shelf.remove, ← hlive, Function.update_eq_self, ← hshelves.superseded_of_absent hdead,
        Function.update_eq_self]
    rw [hsame]
    exact hshelves

theorem foldl_apply (hgenuine : hnsw.Genuine points distance)
    (schemaHash : List ChunkId → Nat → Text) (operations : List (Operation Scalar))
    (hshelves : Shelves hnsw points index shelf) :
    Shelves hnsw points (operations.foldl (AnnIndex.apply hnsw schemaHash) index)
      (operations.foldl Shelf.apply shelf) := by
  induction operations generalizing index shelf with
  | nil => exact hshelves
  | cons operation rest ih =>
    apply ih
    cases operation with
    | buildFromChunks chunks => exact .buildFromChunks hgenuine schemaHash _ chunks
    | upsert chunkId embedding => exact hshelves.upsert hgenuine chunkId embedding
    | remove chunkId => exact hshelves.remove chunkId

theorem survivors_cons (index : AnnIndex Graph) (topK : Nat) (raw : Nat × Distance)
    (rest : List (Nat × Distance)) (seen : List ChunkId) :
    index.survivors topK (raw :: rest) seen = index.survivors topK rest seen ∨
      ∃ chunkId, index.idMap[raw.1]? = some chunkId ∧ index.hidden chunkId raw.1 = false ∧
        chunkId ∉ seen ∧ index.survivors topK (raw :: rest) seen = (chunkId, raw.2) ::
          if seen.length + 1 ≥ topK then [] else index.survivors topK rest (chunkId :: seen) := by
  obtain ⟨slot, distance⟩ := raw
  cases hid : index.idMap[slot]? with
  | none => simp [AnnIndex.survivors, hid]
  | some chunkId =>
    by_cases hskipped : index.hidden chunkId slot || chunkId ∈ seen
    · left
      simp only [AnnIndex.survivors, hid]
      rw [if_pos hskipped]
    · right
      simp only [Bool.or_eq_true, decide_eq_true_eq, not_or, Bool.not_eq_true] at hskipped
      refine ⟨chunkId, rfl, hskipped.1, hskipped.2, ?_⟩
      simp [AnnIndex.survivors, hid, hskipped.1, hskipped.2]

theorem exists_raw_of_mem_survivors {topK : Nat} {raw : List (Nat × Distance)}
    {seen : List ChunkId} {hit : ChunkId × Distance} (hhit : hit ∈ index.survivors topK raw seen) :
    ∃ slot, (slot, hit.2) ∈ raw ∧ index.idMap[slot]? = some hit.1 ∧
      index.hidden hit.1 slot = false := by
  induction raw generalizing seen with
  | nil => contradiction
  | cons first rest ih =>
    have hlater : ∀ seen, hit ∈ index.survivors topK rest seen → ∃ slot,
        (slot, hit.2) ∈ first :: rest ∧ index.idMap[slot]? = some hit.1 ∧
          index.hidden hit.1 slot = false := by
      intro seen hmem
      obtain ⟨slot, hslot, hrest⟩ := ih hmem
      exact ⟨slot, .tail _ hslot, hrest⟩
    rcases survivors_cons index topK first rest seen with heq | ⟨chunkId, hid, hvisible, _, heq⟩
    · exact hlater seen (heq ▸ hhit)
    · rw [heq] at hhit
      rcases List.mem_cons.mp hhit with rfl | hmem
      · exact ⟨first.1, .head _, hid, hvisible⟩
      · split at hmem
        next => contradiction
        next => exact hlater _ hmem

theorem nodup_survivors (index : AnnIndex Graph) (topK : Nat) (raw : List (Nat × Distance))
    (seen : List ChunkId) : ((index.survivors topK raw seen).map Prod.fst).Nodup ∧
      ∀ chunkId ∈ seen, chunkId ∉ (index.survivors topK raw seen).map Prod.fst := by
  induction raw generalizing seen with
  | nil => exact ⟨List.nodup_nil, fun _ _ => List.not_mem_nil⟩
  | cons first rest ih =>
    rcases survivors_cons index topK first rest seen with heq | ⟨chunkId, _, _, hfresh, heq⟩
    · rw [heq]
      exact ih seen
    · rw [heq]
      split
      next =>
        refine ⟨List.nodup_singleton _, ?_⟩
        intro other hother hmem
        obtain rfl := List.mem_singleton.mp hmem
        exact hfresh hother
      next =>
        obtain ⟨hnodup, hunseen⟩ := ih (chunkId :: seen)
        refine ⟨List.nodup_cons.mpr ⟨hunseen chunkId (.head _), hnodup⟩, ?_⟩
        intro other hother hmem
        rcases List.mem_cons.mp hmem with rfl | hrest
        · exact hfresh hother
        · exact hunseen other (.tail _ hother) hrest

theorem length_survivors_le (index : AnnIndex Graph) {topK : Nat} (raw : List (Nat × Distance))
    {seen : List ChunkId} (hseen : seen.length < topK) :
    (index.survivors topK raw seen).length + seen.length ≤ topK := by
  induction raw generalizing seen with
  | nil => simpa [AnnIndex.survivors] using hseen.le
  | cons first rest ih =>
    rcases survivors_cons index topK first rest seen with heq | ⟨chunkId, _, _, _, heq⟩
    · rw [heq]
      exact ih hseen
    · rw [heq]
      split
      next =>
        rw [List.length_singleton]
        omega
      next hroom =>
        have hnext : (chunkId :: seen).length < topK := not_le.mp hroom
        have hrest := ih hnext
        simp only [List.length_cons] at hrest ⊢
        omega

theorem live_of_mem_survivors (hgenuine : hnsw.Genuine points distance)
    (hshelves : Shelves hnsw points index shelf) (hsettled : shelf.Settled) {graph : Graph}
    (hinner : index.inner = some graph) {query : List Scalar} {topK knbn ef : Nat}
    {seen : List ChunkId} {hit : ChunkId × Distance}
    (hhit : hit ∈ index.survivors topK (hnsw.search graph query knbn ef) seen) :
    ∃ embedding, shelf.live hit.1 = some embedding ∧ hit.2 = distance query embedding := by
  obtain ⟨slot, hraw, hid, hvisible⟩ := exists_raw_of_mem_survivors hhit
  obtain ⟨vector, hvector, hdistance⟩ := hgenuine.search_mem graph query knbn ef _ hraw
  have hstored : (index.stored hnsw points)[slot]? = some vector := by
    rw [AnnIndex.stored, hinner]
    exact hvector
  refine ⟨vector, ?_, hdistance⟩
  by_cases htombstone : hit.1 ∈ index.tombstones
  · -- The slot shows through a tombstone, so it is the current one.
    unfold AnnIndex.hidden at hvisible
    simp only [htombstone, decide_true, Bool.true_and] at hvisible
    split at hvisible
    next current hlookup =>
      obtain rfl : current = slot := by simpa using hvisible
      rw [← (hshelves.current hit.1 current hlookup).2, hstored]
    next => contradiction
  · rcases hshelves.visible hit.1 slot hid htombstone vector hstored with hold | hlive
    · exact hsettled hit.1 vector hold
    · exact hlive

end Shelves

end Refinement

/-! ## Histories -/

namespace Shelf

theorem live_foldl_put {chunks : List (ChunkId × List Scalar)} {chunkId : ChunkId}
    (habsent : chunkId ∉ chunks.map Prod.fst) (shelf : Shelf Scalar) :
    (chunks.foldl (fun shelf chunk => shelf.put chunk.1 chunk.2
      ((shelf.live chunk.1).toList ++ shelf.superseded chunk.1)) shelf).live chunkId =
        shelf.live chunkId := by
  induction chunks generalizing shelf with
  | nil => rfl
  | cons chunk rest ih =>
    rw [List.map_cons, List.mem_cons, not_or] at habsent
    rw [List.foldl_cons, ih habsent.2]
    exact Function.update_of_ne habsent.1 _ _

theorem live_buildFromChunks {chunks : List (ChunkId × List Scalar)} {chunkId : ChunkId}
    (habsent : chunkId ∉ chunks.map Prod.fst) : (buildFromChunks chunks).live chunkId = none := by
  unfold buildFromChunks
  split
  next => rfl
  next _ first _ =>
    apply live_foldl_put
    intro hmem
    exact habsent ((List.filter_sublist.map Prod.fst).subset hmem)

theorem live_upsert_of_ne {shelf : Shelf Scalar} {chunkId other : ChunkId} (hne : other ≠ chunkId)
    (embedding : List Scalar) :
    (shelf.upsert other embedding).live chunkId = shelf.live chunkId := by
  unfold upsert
  extract_lets dim
  split
  next => rfl
  next => exact Function.update_of_ne hne.symm _ _

theorem live_of_lastRemoved {chunkId : ChunkId} {operations : List (Operation Scalar)} {dim : Nat}
    (hremoved : lastRemoved chunkId operations) :
    (operations.foldl apply (empty dim)).live chunkId = none := by
  have hfold : ∀ (operations : List (Operation Scalar)) (shelf : Shelf Scalar) (removed : Prop),
      (removed → shelf.live chunkId = none) →
      operations.foldl (fun removed operation =>
        match operation with
        | .buildFromChunks chunks => removed ∧ chunkId ∉ chunks.map Prod.fst
        | .upsert other _ => removed ∧ other ≠ chunkId
        | .remove other => removed ∨ other = chunkId) removed →
      (operations.foldl apply shelf).live chunkId = none := by
    intro operations
    induction operations with
    | nil => exact fun _ _ hstart hremoved => hstart hremoved
    | cons operation rest ih =>
      intro shelf removed hstart
      apply ih
      cases operation with
      | buildFromChunks chunks => exact fun hboth => live_buildFromChunks hboth.2
      | upsert other embedding =>
        intro hboth
        exact (live_upsert_of_ne hboth.2 embedding).trans (hstart hboth.1)
      | remove other =>
        intro heither
        simp only [apply, remove]
        by_cases hsame : chunkId = other
        · rw [hsame, Function.update_self]
        · rw [Function.update_of_ne hsame]
          exact hstart (heither.resolve_right (Ne.symm hsame))
  exact hfold operations _ False False.elim hremoved

/-- Every embedding on the shelf has its dimension, and none is empty. -/
def Sized (shelf : Shelf Scalar) : Prop :=
  ∀ chunkId embedding, embedding ∈ shelf.superseded chunkId ∨ shelf.live chunkId = some embedding →
    embedding.length = shelf.dim ∧ shelf.dim ≠ 0

theorem sized_empty (dim : Nat) : (empty dim : Shelf Scalar).Sized := by
  simp [Sized, empty]

theorem Sized.put {shelf : Shelf Scalar} (hsized : shelf.Sized) {chunkId : ChunkId}
    {embedding : List Scalar} {superseded : List (List Scalar)} (hdim : shelf.dim ≠ 0)
    (hlength : embedding.length = shelf.dim)
    (hsuperseded : ∀ old ∈ superseded, old.length = shelf.dim) :
    (shelf.put chunkId embedding superseded).Sized := by
  intro other old hold
  simp only [Shelf.put] at hold ⊢
  by_cases hsame : other = chunkId
  · subst hsame
    rw [Function.update_self, Function.update_self, Option.some.injEq] at hold
    rcases hold with hold | rfl
    · exact ⟨hsuperseded old hold, hdim⟩
    · exact ⟨hlength, hdim⟩
  · rw [Function.update_of_ne hsame, Function.update_of_ne hsame] at hold
    exact hsized other old hold

theorem sized_buildFromChunks (chunks : List (ChunkId × List Scalar)) :
    (buildFromChunks chunks).Sized := by
  unfold buildFromChunks
  split
  next => exact sized_empty 0
  next _ first hfirst =>
    have hfold : ∀ (kept : List (ChunkId × List Scalar)) (shelf : Shelf Scalar), shelf.Sized →
        shelf.dim ≠ 0 → (∀ chunk ∈ kept, chunk.2.length = shelf.dim) →
        (kept.foldl (fun shelf chunk => shelf.put chunk.1 chunk.2
          ((shelf.live chunk.1).toList ++ shelf.superseded chunk.1)) shelf).Sized := by
      intro kept
      induction kept with
      | nil => exact fun _ hsized _ _ => hsized
      | cons chunk rest ih =>
        intro shelf hsized hdim hkept
        refine ih _ ?_ hdim fun other hother => hkept other (.tail _ hother)
        apply hsized.put hdim (hkept chunk (.head _))
        intro old hold
        rw [List.mem_append, Option.mem_toList, or_comm] at hold
        exact (hsized chunk.1 old hold).1
    have hlength : first.length ≠ 0 := by
      simpa using List.find?_some hfirst
    apply hfold _ _ (sized_empty first.length) hlength
    intro chunk hchunk
    exact of_decide_eq_true (List.mem_filter.mp hchunk).2

theorem Sized.upsert {shelf : Shelf Scalar} (hsized : shelf.Sized) (chunkId : ChunkId)
    (embedding : List Scalar) : (shelf.upsert chunkId embedding).Sized := by
  unfold Shelf.upsert
  extract_lets dim
  split
  next => exact hsized
  next haccepted =>
    simp only [Bool.or_eq_true, decide_eq_true_eq, not_or, not_not] at haccepted
    have hdim : dim ≠ 0 := haccepted.2 ▸ fun hzero => haccepted.1 (List.length_eq_zero_iff.mp hzero)
    have hresized : ({ shelf with dim := dim } : Shelf Scalar).Sized := by
      intro other old hold
      obtain ⟨hlength, hne⟩ := hsized other old hold
      exact ⟨hlength.trans (if_neg hne).symm, hdim⟩
    exact hresized.put hdim haccepted.2 (by simp)

theorem Sized.remove {shelf : Shelf Scalar} (hsized : shelf.Sized) (chunkId : ChunkId) :
    (shelf.remove chunkId).Sized := by
  intro other old hold
  simp only [Shelf.remove] at hold ⊢
  by_cases hsame : other = chunkId
  · subst hsame
    simp at hold
  · rw [Function.update_of_ne hsame, Function.update_of_ne hsame] at hold
    exact hsized other old hold

theorem Sized.foldl_apply (operations : List (Operation Scalar)) {shelf : Shelf Scalar}
    (hsized : shelf.Sized) : (operations.foldl apply shelf).Sized := by
  induction operations generalizing shelf with
  | nil => exact hsized
  | cons operation rest ih =>
    apply ih
    cases operation with
    | buildFromChunks chunks => exact sized_buildFromChunks chunks
    | upsert chunkId embedding => exact hsized.upsert chunkId embedding
    | remove chunkId => exact hsized.remove chunkId

end Shelf

/-! ## Freshness -/

/-- A library that finds the point inserted as `slot`, and gives it for its distance. -/
def findSlot (Scalar : Type) (slot : Nat) :
    Hnsw Scalar (List Scalar) (List (List Scalar)) Unit where
  new := []
  insert graph vector _ := graph ++ [vector]
  search graph _ _ _ := graph[slot]?.toList.map fun vector => (slot, vector)
  nbPoint := List.length
  fileDump _ := ⟨⟩
  loadHnsw _ := none

theorem findSlot_genuine (slot : Nat) :
    (findSlot Scalar slot).Genuine (fun graph => graph) fun _ vector => vector where
  points_new := rfl
  points_insert _ _ := rfl
  search_mem graph query knbn ef hit hhit := by
    obtain ⟨vector, hvector, rfl⟩ := List.mem_map.mp hhit
    exact ⟨vector, Option.mem_toList.mp hvector, rfl⟩

theorem apply_findSlot (schemaHash : List ChunkId → Nat → Text) (slot other : Nat) :
    AnnIndex.apply (findSlot Scalar slot) schemaHash =
      AnnIndex.apply (findSlot Scalar other) schemaHash := by
  funext index operation
  cases operation with
  | buildFromChunks chunks => rfl
  | upsert chunkId embedding => rfl
  | remove chunkId => rfl

section Search

variable {Distance Graph Dump : Type} {hnsw : Hnsw Scalar Distance Graph Dump}
  {points : Graph → List (List Scalar)} {distance : List Scalar → List Scalar → Distance}
  {index : AnnIndex Graph} {shelf : Shelf Scalar}

theorem search_cases (index : AnnIndex Graph) (query : List Scalar) (topK : Nat) :
    index.search hnsw query topK = [] ∨ 0 < topK ∧ ∃ graph knbn ef, index.inner = some graph ∧
        index.search hnsw query topK =
          index.survivors (min topK maxSearchTopK) (hnsw.search graph query knbn ef) [] := by
  unfold AnnIndex.search
  split
  next => exact .inl rfl
  next hasked =>
    simp only [Bool.or_eq_true, decide_eq_true_eq, not_or] at hasked
    extract_lets limit
    split
    next => exact .inl rfl
    next =>
      split
      next => exact .inl rfl
      next graph hgraph =>
        exact .inr ⟨Nat.pos_of_ne_zero hasked.1.1, graph, _, _, hgraph, rfl⟩

theorem Shelves.freshHits (hgenuine : hnsw.Genuine points distance)
    (hshelves : Shelves hnsw points index shelf) (hsettled : shelf.Settled)
    {operations : List (Operation Scalar)}
    (hremoved : ∀ chunkId, lastRemoved chunkId operations → shelf.live chunkId = none)
    (query : List Scalar) (topK : Nat) :
    FreshHits operations shelf (distance query) topK (index.search hnsw query topK) := by
  rcases search_cases index query topK with hnil | ⟨hpos, graph, knbn, ef, hinner, heq⟩
  · rw [hnil]
    exact ⟨by simp, by simp, List.nodup_nil, Nat.zero_le _⟩
  · have hlive : ∀ hit ∈ index.search hnsw query topK, ∃ embedding,
        shelf.live hit.1 = some embedding ∧ hit.2 = distance query embedding := by
      intro hit hhit
      rw [heq] at hhit
      exact hshelves.live_of_mem_survivors hgenuine hsettled hinner hhit
    constructor
    · intro hit hhit hlast
      obtain ⟨embedding, hsome, _⟩ := hlive hit hhit
      rw [hremoved hit.1 hlast] at hsome
      contradiction
    · exact hlive
    · rw [heq]
      exact (Shelves.nodup_survivors index _ _ []).1
    · have hroom : ([] : List ChunkId).length < min topK maxSearchTopK := lt_min hpos (by decide)
      rw [heq]
      exact Shelves.length_survivors_le index _ hroom

theorem search_findSlot {index : AnnIndex (List (List Scalar))} {slot : Nat}
    {embedding : List Scalar} {chunkId : ChunkId} (hid : index.idMap[slot]? = some chunkId)
    (hstored : (index.stored (findSlot Scalar slot) fun graph => graph)[slot]? = some embedding)
    (hvisible : chunkId ∉ index.tombstones) (hlength : embedding.length = index.dim)
    (hdim : index.dim ≠ 0) :
    index.search (findSlot Scalar slot) embedding 1 = [(chunkId, embedding)] := by
  have hne : embedding ≠ [] := by
    rintro rfl
    exact hdim hlength.symm
  have hslots : index.idMap ≠ [] := by
    intro hnil
    simp [hnil] at hid
  cases hinner : index.inner with
  | none => simp [AnnIndex.stored, hinner, findSlot] at hstored
  | some graph =>
    have hpoint : graph[slot]? = some embedding := by
      simpa [AnnIndex.stored, hinner] using hstored
    have hhidden : index.hidden chunkId slot = false := by
      simp [AnnIndex.hidden, hvisible]
    simp [AnnIndex.search, hne, hslots, hlength, hinner, findSlot, hpoint, AnnIndex.survivors,
      hid, hhidden]

end Search

/-- After every history of builds, upserts and removals, searches are fresh whatever points the
library finds if and only if no live chunk was given two embeddings in the last build list and
neither upserted nor removed since. -/
theorem search_fresh_iff (schemaHash : List ChunkId → Nat → Text) (projectHash : Text) (dim : Nat)
    (operations : List (Operation Scalar)) :
    (∀ (Distance Graph Dump : Type) (hnsw : Hnsw Scalar Distance Graph Dump)
        (points : Graph → List (List Scalar)) (distance : List Scalar → List Scalar → Distance),
      hnsw.Genuine points distance → ∀ query topK,
        FreshHits operations (operations.foldl Shelf.apply (.empty dim)) (distance query) topK
          ((operations.foldl (AnnIndex.apply hnsw schemaHash) (.empty projectHash dim)).search hnsw
            query topK)) ↔
      (operations.foldl Shelf.apply (.empty dim)).Settled := by
  constructor
  · intro hfresh chunkId embedding hsuperseded
    have hbehind : ∀ slot, Shelves (findSlot Scalar slot) (fun graph => graph)
        (operations.foldl (AnnIndex.apply (findSlot Scalar slot) schemaHash)
          (.empty projectHash dim)) (operations.foldl Shelf.apply (.empty dim)) := fun slot =>
      (Shelves.empty (findSlot_genuine slot) projectHash dim).foldl_apply (findSlot_genuine slot)
        schemaHash operations
    obtain ⟨hvisible, _, slot, hid, hstored⟩ := (hbehind 0).superseded chunkId embedding hsuperseded
    rw [apply_findSlot schemaHash 0 slot] at hvisible hid hstored
    obtain ⟨hlength, hdim⟩ := (Shelf.sized_empty dim).foldl_apply operations chunkId embedding
      (.inl hsuperseded)
    rw [← (hbehind slot).dim] at hlength hdim
    have hfound := search_findSlot hid hstored hvisible hlength hdim
    have hlive := (hfresh _ _ _ _ _ _ (findSlot_genuine slot) embedding 1).live
      (chunkId, embedding) (hfound ▸ List.mem_singleton_self _)
    obtain ⟨current, hcurrent, rfl⟩ := hlive
    exact hcurrent
  · intro hsettled Distance Graph Dump hnsw points distance hgenuine query topK
    apply Shelves.freshHits hgenuine _ hsettled
    · intro chunkId hremoved
      exact Shelf.live_of_lastRemoved hremoved
    · exact (Shelves.empty hgenuine projectHash dim).foldl_apply hgenuine schemaHash operations

/-- A build list that names a chunk twice leaves both its points in sight. -/
def repeatedChunk : List (Operation Int) := [.buildFromChunks [("a", [1]), ("a", [2])]]

/-- The search then returns the chunk at the distance of the embedding that was superseded. -/
theorem repeated_chunk_is_stale : ¬ ∀ (schemaHash : List ChunkId → Nat → Text) (projectHash : Text)
    (dim : Nat) (operations : List (Operation Int)) (Distance Graph Dump : Type)
    (hnsw : Hnsw Int Distance Graph Dump) (points : Graph → List (List Int))
    (distance : List Int → List Int → Distance), hnsw.Genuine points distance → ∀ query topK,
      FreshHits operations (operations.foldl Shelf.apply (.empty dim)) (distance query) topK
        ((operations.foldl (AnnIndex.apply hnsw schemaHash) (.empty projectHash dim)).search hnsw
          query topK) := by
  intro hclaim
  have hlive := (hclaim (fun _ _ => []) [] 0 repeatedChunk _ _ _ _ _ _ (findSlot_genuine 0)
    [1] 1).live ("a", [1]) (by decide)
  obtain ⟨embedding, hcurrent, hdistance⟩ := hlive
  have hlatest : (repeatedChunk.foldl Shelf.apply (.empty 0)).live "a" = some [2] := by
    decide
  rw [hlatest] at hcurrent
  obtain rfl := Option.some.inj hcurrent
  exact absurd hdistance (by decide)

end Difflore.Context.Ann

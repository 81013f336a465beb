import Difflore.Foundation.Text
import Mathlib.Data.List.Dedup
import Mathlib.Data.List.Perm.Subperm

/-! # Merging recall pools

Pools are merged round-robin: in a round every pool seats its next item that is not merged yet.
Items are told apart by their `source_id`. A pool that still has a new item to offer is never
behind another pool by more than the seat that is being given.
-/

namespace Difflore.Review

open Foundation

variable {Item : Type} (sourceId : Item → Text)

/-- The state of the merge; of each pool the part that was not looked at yet. -/
structure RecallMerge (Item : Type) where
  seen : List Text
  merged : List Item
  iters : List (List Item)
  exhausted : Bool

def takeUnseen (seen : List Text) : List Item → Option (Item × List Item)
  | [] => none
  | item :: rest => if sourceId item ∈ seen then takeUnseen seen rest else some (item, rest)

/-- One pool's turn. Once the cap is reached no turn does anything. -/
def visitPool (cap : Nat) (state : RecallMerge Item) (pool : Nat) : RecallMerge Item :=
  if cap ≤ state.merged.length then state
  else
    match takeUnseen sourceId state.seen (state.iters.getD pool []) with
    | none => { state with iters := state.iters.set pool [] }
    | some (item, rest) =>
      { seen := sourceId item :: state.seen
        merged := state.merged ++ [item]
        iters := state.iters.set pool rest
        exhausted := false }

def mergeRound (cap : Nat) (state : RecallMerge Item) : RecallMerge Item :=
  (List.range state.iters.length).foldl (visitPool sourceId cap) { state with exhausted := true }

/-! ## A round ends the merge or adds to it -/

section Growth

variable {sourceId} {cap : Nat} {state : RecallMerge Item}

theorem length_le_visitPool (pool : Nat) :
    state.merged.length ≤ (visitPool sourceId cap state pool).merged.length := by
  unfold visitPool
  split
  next => exact le_refl _
  next =>
    split
    next => exact le_refl _
    next => simp

theorem visitPool_grows {size : Nat} (pool : Nat)
    (hstate : state.exhausted = true ∨ size < state.merged.length)
    (hsize : size ≤ state.merged.length) :
    (visitPool sourceId cap state pool).exhausted = true ∨
      size < (visitPool sourceId cap state pool).merged.length := by
  unfold visitPool
  split
  next => exact hstate
  next =>
    split
    next => exact hstate
    next =>
      right
      simp only [List.length_append, List.length_singleton]
      omega

theorem foldl_visitPool_grows {size : Nat} (turns : List Nat)
    (hstate : state.exhausted = true ∨ size < state.merged.length)
    (hsize : size ≤ state.merged.length) :
    (turns.foldl (visitPool sourceId cap) state).exhausted = true ∨
      size < (turns.foldl (visitPool sourceId cap) state).merged.length := by
  induction turns generalizing state with
  | nil => exact hstate
  | cons pool rest ih =>
    exact ih (visitPool_grows pool hstate hsize) (hsize.trans (length_le_visitPool pool))

theorem mergeRound_grows (hround : (mergeRound sourceId cap state).exhausted = false) :
    state.merged.length < (mergeRound sourceId cap state).merged.length := by
  have hgrows := @foldl_visitPool_grows _ sourceId cap { state with exhausted := true }
    state.merged.length (List.range state.iters.length) (.inl rfl) (le_refl _)
  rcases hgrows with hidle | hmore
  · rw [mergeRound] at hround
    rw [hround] at hidle
    contradiction
  · exact hmore

end Growth

def mergeLoop (cap : Nat) (state : RecallMerge Item) : List Item :=
  if state.merged.length < cap ∧ state.exhausted = false then
    mergeLoop cap (mergeRound sourceId cap state)
  else state.merged
termination_by if state.exhausted then 0 else cap + 1 - state.merged.length
decreasing_by
  obtain ⟨hroom, hgoes⟩ := ‹state.merged.length < cap ∧ state.exhausted = false›
  rw [hgoes]
  cases hround : (mergeRound sourceId cap state).exhausted with
  | true =>
    simp only [if_true]
    exact Nat.sub_pos_of_lt (Nat.lt_succ_of_lt hroom)
  | false =>
    have hgrows := mergeRound_grows hround
    simp only [Bool.false_eq_true, if_false]
    omega

theorem mergeLoop_goes {cap : Nat} {state : RecallMerge Item}
    (hgoes : state.merged.length < cap ∧ state.exhausted = false) :
    mergeLoop sourceId cap state = mergeLoop sourceId cap (mergeRound sourceId cap state) := by
  rw [mergeLoop, if_pos hgoes]

theorem mergeLoop_stops {cap : Nat} {state : RecallMerge Item}
    (hstops : ¬(state.merged.length < cap ∧ state.exhausted = false)) :
    mergeLoop sourceId cap state = state.merged := by
  rw [mergeLoop, if_neg hstops]

def mergeRecallPools (pools : List (List Item)) (cap : Nat) : List Item :=
  mergeLoop sourceId cap { seen := [], merged := [], iters := pools, exhausted := false }

def tagPools (pools : List (List Item)) : List (List (Nat × Item)) :=
  pools.zipIdx.map fun pool => pool.1.map (pool.2, ·)

def seating (pools : List (List Item)) (cap : Nat) : List (Nat × Item) :=
  mergeRecallPools (fun seat : Nat × Item => sourceId seat.2) (tagPools pools) cap

def seatsOf (pool : Nat) (seats : List (Nat × Item)) : Nat := seats.countP (·.1 = pool)

def Fair (pools : List (List Item)) (seats : List (Nat × Item)) : Prop :=
  ∀ front pool item back, seats = front ++ (pool, item) :: back →
    ∀ other, ∀ unseen ∈ pools.getD other [],
      sourceId unseen ∉ front.map (fun seat => sourceId seat.2) →
        seatsOf pool front ≤ seatsOf other front

theorem getD_tagPools (pools : List (List Item)) (pool : Nat) :
    (tagPools pools).getD pool [] = (pools.getD pool []).map (pool, ·) := by
  unfold tagPools
  rw [List.getD_eq_getElem?_getD, List.getElem?_map, List.getElem?_zipIdx,
    List.getD_eq_getElem?_getD]
  cases pools[pool]? with
  | none => rfl
  | some items => simp

theorem map_tagPools (pools : List (List Item)) :
    (tagPools pools).map (List.map Prod.snd) = pools := by
  unfold tagPools
  rw [List.map_map]
  have hpool : (List.map Prod.snd ∘ fun pool : List Item × Nat => pool.1.map (pool.2, ·)) =
      Prod.fst := by
    funext pool
    exact (List.map_map ..).trans (List.map_id' _)
  rw [hpool, List.zipIdx_map_fst]

section Natural

variable {Tagged : Type} (untag : Tagged → Item)

def RecallMerge.map (state : RecallMerge Tagged) : RecallMerge Item where
  seen := state.seen
  merged := state.merged.map untag
  iters := state.iters.map (List.map untag)
  exhausted := state.exhausted

theorem takeUnseen_map (seen : List Text) (items : List Tagged) :
    takeUnseen sourceId seen (items.map untag) =
      (takeUnseen (sourceId ∘ untag) seen items).map fun taken =>
        (untag taken.1, taken.2.map untag) := by
  induction items with
  | nil => rfl
  | cons item rest ih =>
    simp only [List.map_cons, takeUnseen, Function.comp_apply, ih]
    split
    next => rfl
    next => rfl

theorem visitPool_map (cap : Nat) (state : RecallMerge Tagged) (pool : Nat) :
    visitPool sourceId cap (state.map untag) pool =
      (visitPool (sourceId ∘ untag) cap state pool).map untag := by
  have hiter : (state.iters.map (List.map untag)).getD pool [] =
      (state.iters.getD pool []).map untag := by
    rw [List.getD_eq_getElem?_getD, List.getElem?_map, List.getD_eq_getElem?_getD]
    cases state.iters[pool]? <;> rfl
  unfold visitPool
  simp only [RecallMerge.map, List.length_map, hiter, takeUnseen_map]
  split
  next => rfl
  next =>
    cases takeUnseen (sourceId ∘ untag) state.seen (state.iters.getD pool []) with
    | none => simp
    | some taken => simp

theorem mergeRound_map (cap : Nat) (state : RecallMerge Tagged) :
    mergeRound sourceId cap (state.map untag) =
      (mergeRound (sourceId ∘ untag) cap state).map untag := by
  have hturns : ∀ (turns : List Nat) (state : RecallMerge Tagged),
      turns.foldl (visitPool sourceId cap) (state.map untag) =
        (turns.foldl (visitPool (sourceId ∘ untag) cap) state).map untag := by
    intro turns
    induction turns with
    | nil => exact fun _ => rfl
    | cons pool rest ih =>
      intro state
      rw [List.foldl_cons, visitPool_map, ih]
      rfl
  have hlength : (state.map untag).iters.length = state.iters.length := List.length_map _
  rw [mergeRound, hlength]
  exact hturns _ { state with exhausted := true }

theorem mergeLoop_map (cap : Nat) (state : RecallMerge Tagged) :
    mergeLoop sourceId cap (state.map untag) =
      (mergeLoop (sourceId ∘ untag) cap state).map untag := by
  induction state using mergeLoop.induct (sourceId ∘ untag) cap with
  | case1 state hgoes ih =>
    have hmapped : (state.map untag).merged.length < cap ∧ (state.map untag).exhausted = false := by
      simpa [RecallMerge.map] using hgoes
    rw [mergeLoop_goes _ hgoes, mergeLoop_goes _ hmapped, mergeRound_map, ih]
  | case2 state hstops =>
    have hmapped : ¬((state.map untag).merged.length < cap ∧
        (state.map untag).exhausted = false) := by
      simpa [RecallMerge.map] using hstops
    rw [mergeLoop_stops _ hstops, mergeLoop_stops _ hmapped]
    rfl

end Natural

theorem map_seating (pools : List (List Item)) (cap : Nat) :
    (seating sourceId pools cap).map Prod.snd = mergeRecallPools sourceId pools cap := by
  have hnatural := mergeLoop_map sourceId (Prod.snd : Nat × Item → Item) cap
    { seen := [], merged := [], iters := tagPools pools, exhausted := false }
  rw [RecallMerge.map, map_tagPools] at hnatural
  exact hnatural.symm

end Difflore.Review

import Difflore.Review.RecallPools
import Mathlib.Data.List.GetD

/-! # The merge is complete and fair

In a round all pools that still have items get the same number of seats. What a pool has passed
over was seen before, so an item that was not seen is still in front of its pool.
-/

namespace Difflore.Review

open Foundation

variable {Item : Type} (sourceId : Item → Text)

def seatIds (seats : List (Nat × Item)) : List Text := seats.map fun seat => sourceId seat.2

variable (pools : List (List Item)) (cap : Nat)

structure Sound (state : RecallMerge (Nat × Item)) : Prop where
  seen_iff : ∀ id, id ∈ state.seen ↔ id ∈ seatIds sourceId state.merged
  distinct : (seatIds sourceId state.merged).Nodup
  width : state.iters.length = pools.length
  left : ∀ pool, ∀ seat ∈ state.iters.getD pool [], seat.1 = pool ∧ seat.2 ∈ pools.getD pool []
  passed : ∀ pool, ∀ item ∈ pools.getD pool [],
    (pool, item) ∈ state.iters.getD pool [] ∨ sourceId item ∈ state.seen
  origin : ∀ seat ∈ state.merged, seat.2 ∈ pools.getD seat.1 []
  capped : state.merged.length ≤ cap
  fair : Fair sourceId pools state.merged

def Level (state : RecallMerge (Nat × Item)) (seats pool : Nat) : Prop :=
  seatsOf pool state.merged = seats ∨
    (state.iters.getD pool [] = [] ∧ seatsOf pool state.merged ≤ seats)

/-- In the middle of a round the pools up to the next one are a seat ahead. -/
structure Midway (round next : Nat) (state : RecallMerge (Nat × Item)) : Prop where
  sound : Sound sourceId pools cap state
  visited : state.merged.length < cap → ∀ pool < next, Level state (round + 1) pool
  waiting : state.merged.length < cap → ∀ pool, next ≤ pool → Level state round pool

variable {sourceId pools cap} {state : RecallMerge (Nat × Item)} {round next : Nat}

/-! ## One turn -/

theorem takeUnseen_eq_none {seen : List Text} {items : List (Nat × Item)}
    (hnone : takeUnseen (fun seat : Nat × Item => sourceId seat.2) seen items = none) :
    ∀ seat ∈ items, sourceId seat.2 ∈ seen := by
  induction items with
  | nil => simp
  | cons item rest ih =>
    unfold takeUnseen at hnone
    split at hnone
    next hseen =>
      intro seat hseat
      rcases List.mem_cons.mp hseat with rfl | hseat
      · exact hseen
      · exact ih hnone seat hseat
    next => contradiction

theorem takeUnseen_eq_some {seen : List Text} {items rest : List (Nat × Item)} {seat : Nat × Item}
    (hsome : takeUnseen (fun seat : Nat × Item => sourceId seat.2) seen items = some (seat, rest)) :
    sourceId seat.2 ∉ seen ∧ ∃ skipped, items = skipped ++ seat :: rest ∧
      ∀ other ∈ skipped, sourceId other.2 ∈ seen := by
  induction items with
  | nil => contradiction
  | cons item items ih =>
    unfold takeUnseen at hsome
    split at hsome
    next hseen =>
      obtain ⟨hnew, skipped, rfl, hskipped⟩ := ih hsome
      refine ⟨hnew, item :: skipped, rfl, ?_⟩
      intro other hother
      rcases List.mem_cons.mp hother with rfl | hother
      · exact hseen
      · exact hskipped other hother
    next hnew =>
      obtain ⟨rfl, rfl⟩ := Prod.mk.inj (Option.some.inj hsome)
      exact ⟨hnew, [], rfl, by simp⟩

theorem getD_set_self {iters : List (List (Nat × Item))} {pool : Nat} (hpool : pool < iters.length)
    (items : List (Nat × Item)) : (iters.set pool items).getD pool [] = items := by
  simp [List.getD_eq_getElem?_getD, hpool]

theorem getD_set_of_ne {iters : List (List (Nat × Item))} {pool other : Nat} (hne : other ≠ pool)
    (items : List (Nat × Item)) : (iters.set pool items).getD other [] = iters.getD other [] := by
  simp [List.getD_eq_getElem?_getD, Ne.symm hne]

theorem seatsOf_concat (pool : Nat) (seats : List (Nat × Item)) (seat : Nat × Item) :
    seatsOf pool (seats ++ [seat]) = seatsOf pool seats + if seat.1 = pool then 1 else 0 := by
  unfold seatsOf
  rw [List.countP_append]
  by_cases hpool : seat.1 = pool <;> simp [hpool]

theorem Sound.dry (hsound : Sound sourceId pools cap state) (hnext : next < pools.length)
    (hseen : ∀ seat ∈ state.iters.getD next [], sourceId seat.2 ∈ state.seen) :
    Sound sourceId pools cap { state with iters := state.iters.set next [] } where
  seen_iff := hsound.seen_iff
  distinct := hsound.distinct
  width := (List.length_set ..).trans hsound.width
  left pool seat hseat := by
    rcases eq_or_ne pool next with rfl | hne
    · rw [getD_set_self (hsound.width ▸ hnext)] at hseat
      cases hseat
    · rw [getD_set_of_ne hne] at hseat
      exact hsound.left pool seat hseat
  passed pool item hitem := by
    rcases eq_or_ne pool next with rfl | hne
    · right
      rcases hsound.passed pool item hitem with hleft | hpast
      · exact hseen (pool, item) hleft
      · exact hpast
    · rw [getD_set_of_ne hne]
      exact hsound.passed pool item hitem
  origin := hsound.origin
  capped := hsound.capped
  fair := hsound.fair

theorem Sound.seat (hsound : Sound sourceId pools cap state) (hnext : next < pools.length)
    (hroom : state.merged.length < cap) {skipped rest : List (Nat × Item)} {seat : Nat × Item}
    (hiter : state.iters.getD next [] = skipped ++ seat :: rest)
    (hskipped : ∀ other ∈ skipped, sourceId other.2 ∈ state.seen)
    (hnew : sourceId seat.2 ∉ state.seen) (hlevel : ∀ other, state.iters.getD other [] ≠ [] →
      seatsOf next state.merged ≤ seatsOf other state.merged) :
    Sound sourceId pools cap
      { seen := sourceId seat.2 :: state.seen
        merged := state.merged ++ [seat]
        iters := state.iters.set next rest
        exhausted := false } := by
  have hseat : seat ∈ state.iters.getD next [] := by
    rw [hiter]
    exact List.mem_append_right _ (.head _)
  obtain ⟨htag, hmem⟩ := hsound.left next seat hseat
  have hids : seatIds sourceId (state.merged ++ [seat]) =
      seatIds sourceId state.merged ++ [sourceId seat.2] := List.map_append
  constructor
  · intro id
    rw [hids, List.mem_cons, List.mem_append, List.mem_singleton, hsound.seen_iff]
    exact Or.comm
  · rw [hids, List.nodup_append]
    refine ⟨hsound.distinct, List.nodup_singleton _, ?_⟩
    intro id hid other hother
    rw [List.mem_singleton.mp hother]
    rintro rfl
    exact hnew ((hsound.seen_iff _).mpr hid)
  · exact (List.length_set ..).trans hsound.width
  · intro pool other hother
    rcases eq_or_ne pool next with rfl | hne
    · rw [getD_set_self (hsound.width ▸ hnext)] at hother
      apply hsound.left
      rw [hiter]
      exact List.mem_append_right _ (.tail _ hother)
    · rw [getD_set_of_ne hne] at hother
      exact hsound.left pool other hother
  · intro pool item hitem
    rw [List.mem_cons]
    rcases eq_or_ne pool next with rfl | hne
    · rw [getD_set_self (hsound.width ▸ hnext)]
      rcases hsound.passed pool item hitem with hleft | hpast
      · rw [hiter, List.mem_append, List.mem_cons] at hleft
        rcases hleft with hskip | rfl | hrest
        · exact .inr (.inr (hskipped _ hskip))
        · exact .inr (.inl rfl)
        · exact .inl hrest
      · exact .inr (.inr hpast)
    · rw [getD_set_of_ne hne]
      exact (hsound.passed pool item hitem).imp_right .inr
  · intro other hother
    rcases List.mem_append.mp hother with hold | hlast
    · exact hsound.origin other hold
    · rw [List.mem_singleton.mp hlast, htag]
      exact hmem
  · rw [List.length_append, List.length_singleton]
    exact hroom
  · intro front pool item back hsplit other unseen hunseen hfresh
    rcases List.eq_nil_or_concat back with rfl | ⟨more, last, rfl⟩
    · -- the seat that is being given
      obtain ⟨rfl, hlast⟩ := List.append_inj' hsplit rfl
      obtain rfl := (List.cons.inj hlast).1
      obtain rfl : pool = next := htag
      apply hlevel
      have hstill : (other, unseen) ∈ state.iters.getD other [] := by
        rcases hsound.passed other unseen hunseen with hleft | hpast
        · exact hleft
        · exact absurd ((hsound.seen_iff _).mp hpast) hfresh
      exact List.ne_nil_of_mem hstill
    · have hold : state.merged = front ++ (pool, item) :: more := by
        have hsplit' : state.merged ++ [seat] = (front ++ (pool, item) :: more) ++ [last] := by
          refine hsplit.trans ?_
          simp
        exact (List.append_inj' hsplit' rfl).1
      exact hsound.fair front pool item more hold other unseen hunseen hfresh

theorem Level.seats_le {seats pool : Nat} (hlevel : Level state seats pool) :
    seatsOf pool state.merged ≤ seats := by
  rcases hlevel with heq | ⟨_, hle⟩
  · exact le_of_eq heq
  · exact hle

theorem Level.of_ne_nil {seats pool : Nat} (hlevel : Level state seats pool)
    (hiter : state.iters.getD pool [] ≠ []) : seatsOf pool state.merged = seats := by
  rcases hlevel with heq | ⟨hdry, _⟩
  · exact heq
  · exact absurd hdry hiter

theorem Midway.visit (hmidway : Midway sourceId pools cap round next state)
    (hnext : next < pools.length) :
    Midway sourceId pools cap round (next + 1)
      (visitPool (fun seat : Nat × Item => sourceId seat.2) cap state next) := by
  have hsound := hmidway.sound
  unfold visitPool
  split
  next hfull => exact ⟨hsound, fun hroom => absurd hroom (not_lt.mpr hfull),
    fun hroom => absurd hroom (not_lt.mpr hfull)⟩
  next hroom =>
    have hroom := not_le.mp hroom
    have hvisited := hmidway.visited hroom
    have hwaiting := hmidway.waiting hroom
    split
    next hnone =>
      refine ⟨hsound.dry hnext (takeUnseen_eq_none hnone), ?_, ?_⟩
      · intro _ pool hpool
        rcases Nat.lt_succ_iff_lt_or_eq.mp hpool with hbefore | rfl
        · unfold Level
          rw [getD_set_of_ne (Nat.ne_of_lt hbefore)]
          exact hvisited pool hbefore
        · have hseats := (hwaiting pool (le_refl _)).seats_le
          exact .inr ⟨getD_set_self (hsound.width ▸ hnext) _, Nat.le_succ_of_le hseats⟩
      · intro _ pool hpool
        unfold Level
        rw [getD_set_of_ne (Nat.ne_of_gt hpool)]
        exact hwaiting pool (Nat.le_of_succ_le hpool)
    next seat rest hsome =>
      obtain ⟨hnew, skipped, hiter, hskipped⟩ := takeUnseen_eq_some hsome
      have hne : state.iters.getD next [] ≠ [] := by
        rw [hiter]
        simp
      have hown := (hwaiting next (le_refl _)).of_ne_nil hne
      have htag : seat.1 = next := by
        have hin : seat ∈ state.iters.getD next [] := by
          rw [hiter]
          exact List.mem_append_right _ (.head _)
        exact (hsound.left next seat hin).1
      have hother : ∀ pool, pool ≠ next →
          seatsOf pool (state.merged ++ [seat]) = seatsOf pool state.merged := by
        intro pool hpool
        rw [seatsOf_concat, htag, if_neg (Ne.symm hpool), Nat.add_zero]
      refine ⟨hsound.seat hnext hroom hiter hskipped hnew ?_, ?_, ?_⟩
      · intro other hstill
        rw [hown]
        rcases Nat.lt_or_ge other next with hbefore | hafter
        · rw [(hvisited other hbefore).of_ne_nil hstill]
          exact Nat.le_succ round
        · rw [(hwaiting other hafter).of_ne_nil hstill]
      · intro _ pool hpool
        rcases Nat.lt_succ_iff_lt_or_eq.mp hpool with hbefore | rfl
        · unfold Level
          rw [getD_set_of_ne (Nat.ne_of_lt hbefore), hother pool (Nat.ne_of_lt hbefore)]
          exact hvisited pool hbefore
        · left
          rw [seatsOf_concat, htag, if_pos rfl, hown]
      · intro _ pool hpool
        unfold Level
        rw [getD_set_of_ne (Nat.ne_of_gt hpool), hother pool (Nat.ne_of_gt hpool)]
        exact hwaiting pool (Nat.le_of_succ_le hpool)

/-- An idle round leaves what was merged, and every pool it came to dry. -/
structure Idle (start state : RecallMerge (Nat × Item)) (cap next : Nat) : Prop where
  merged : state.merged = start.merged
  dry : state.merged.length < cap → ∀ pool < next, state.iters.getD pool [] = []

theorem Idle.visit {start : RecallMerge (Nat × Item)} {cap next : Nat}
    (hidle : state.exhausted = true → Idle start state cap next) (hnext : next < state.iters.length)
    (hstill : (visitPool (fun seat : Nat × Item => sourceId seat.2) cap state next).exhausted =
      true) :
    Idle start (visitPool (fun seat : Nat × Item => sourceId seat.2) cap state next) cap
      (next + 1) := by
  unfold visitPool at hstill ⊢
  split at hstill
  next hfull =>
    rw [if_pos hfull]
    exact ⟨(hidle hstill).merged, fun hroom => absurd hroom (not_lt.mpr hfull)⟩
  next hroom =>
    rw [if_neg hroom]
    split at hstill
    next hnone =>
      refine ⟨(hidle hstill).merged, ?_⟩
      intro hroom pool hpool
      rcases Nat.lt_succ_iff_lt_or_eq.mp hpool with hbefore | rfl
      · rw [getD_set_of_ne (Nat.ne_of_lt hbefore)]
        exact (hidle hstill).dry hroom pool hbefore
      · exact getD_set_self hnext _
    next => contradiction

theorem midway_foldl (hstart : Midway sourceId pools cap round 0 state) {turns : Nat}
    (hturns : turns ≤ pools.length) :
    Midway sourceId pools cap round turns
        ((List.range turns).foldl (visitPool (fun seat : Nat × Item => sourceId seat.2) cap)
          { state with exhausted := true }) ∧
      (((List.range turns).foldl (visitPool (fun seat : Nat × Item => sourceId seat.2) cap)
          { state with exhausted := true }).exhausted = true →
        Idle state ((List.range turns).foldl
          (visitPool (fun seat : Nat × Item => sourceId seat.2) cap)
            { state with exhausted := true }) cap turns) := by
  induction turns with
  | zero =>
    constructor
    · have hsound := hstart.sound
      exact ⟨⟨hsound.seen_iff, hsound.distinct, hsound.width, hsound.left, hsound.passed,
        hsound.origin, hsound.capped, hsound.fair⟩, hstart.visited, hstart.waiting⟩
    · exact fun _ => ⟨rfl, fun _ pool hpool => absurd hpool (Nat.not_lt_zero pool)⟩
  | succ turns ih =>
    obtain ⟨hmidway, hidle⟩ := ih (Nat.le_of_succ_le hturns)
    rw [List.range_succ, List.foldl_append]
    constructor
    · exact hmidway.visit hturns
    · intro hstill
      exact Idle.visit hidle (hmidway.sound.width ▸ hturns) hstill

theorem Sound.seatsOf_eq_zero (hsound : Sound sourceId pools cap state) {pool : Nat}
    (hpool : pools.length ≤ pool) : seatsOf pool state.merged = 0 := by
  unfold seatsOf
  rw [List.countP_eq_zero]
  intro seat hseat htag
  have horigin := hsound.origin seat hseat
  rw [of_decide_eq_true htag, List.getD_eq_default _ _ hpool] at horigin
  cases horigin

theorem Midway.next_round (hmidway : Midway sourceId pools cap round pools.length state) :
    Midway sourceId pools cap (round + 1) 0 state := by
  refine ⟨hmidway.sound, fun _ pool hpool => absurd hpool (Nat.not_lt_zero pool), ?_⟩
  intro hroom pool _
  rcases Nat.lt_or_ge pool pools.length with hin | hout
  · exact hmidway.visited hroom pool hin
  · right
    constructor
    · apply List.getD_eq_default
      rw [hmidway.sound.width]
      exact hout
    · rw [hmidway.sound.seatsOf_eq_zero hout]
      exact Nat.zero_le _

theorem mergeRound_midway (hstart : Midway sourceId pools cap round 0 state) :
    Midway sourceId pools cap (round + 1) 0
        (mergeRound (fun seat : Nat × Item => sourceId seat.2) cap state) ∧
      ((mergeRound (fun seat : Nat × Item => sourceId seat.2) cap state).exhausted = true →
        Idle state (mergeRound (fun seat : Nat × Item => sourceId seat.2) cap state) cap
          pools.length) := by
  have hround := midway_foldl hstart (le_refl pools.length)
  rw [← hstart.sound.width] at hround
  unfold mergeRound
  constructor
  · have hmidway := hround.1
    rw [hstart.sound.width] at hmidway ⊢
    exact hmidway.next_round
  · rw [← hstart.sound.width]
    exact hround.2

/-! ## The whole merge -/

structure Finished (sourceId : Item → Text) (pools : List (List Item)) (cap : Nat)
    (seats : List (Nat × Item)) : Prop where
  distinct : (seatIds sourceId seats).Nodup
  origin : ∀ seat ∈ seats, seat.2 ∈ pools.getD seat.1 []
  capped : seats.length ≤ cap
  complete : seats.length < cap → ∀ pool, ∀ item ∈ pools.getD pool [],
    sourceId item ∈ seatIds sourceId seats
  fair : Fair sourceId pools seats

theorem Sound.finished (hsound : Sound sourceId pools cap state)
    (hdry : state.merged.length < cap → ∀ pool < pools.length, state.iters.getD pool [] = []) :
    Finished sourceId pools cap state.merged where
  distinct := hsound.distinct
  origin := hsound.origin
  capped := hsound.capped
  complete hroom pool item hitem := by
    have hpool : pool < pools.length := by
      by_contra hout
      rw [List.getD_eq_default _ _ (not_lt.mp hout)] at hitem
      cases hitem
    rw [← hsound.seen_iff]
    rcases hsound.passed pool item hitem with hleft | hpast
    · rw [hdry hroom pool hpool] at hleft
      cases hleft
    · exact hpast
  fair := hsound.fair

theorem mergeLoop_finished (hstart : Midway sourceId pools cap round 0 state)
    (hdry : state.exhausted = true → state.merged.length < cap →
      ∀ pool < pools.length, state.iters.getD pool [] = []) :
    Finished sourceId pools cap
      (mergeLoop (fun seat : Nat × Item => sourceId seat.2) cap state) := by
  induction state using mergeLoop.induct (fun seat : Nat × Item => sourceId seat.2) cap
    generalizing round with
  | case1 state hgoes ih =>
    rw [mergeLoop_goes _ hgoes]
    obtain ⟨hmidway, hidle⟩ := mergeRound_midway hstart
    exact ih hmidway fun hstill => (hidle hstill).dry
  | case2 state hstops =>
    rw [mergeLoop_stops _ hstops]
    apply hstart.sound.finished
    intro hroom
    have hexhausted : state.exhausted = true := by
      by_contra hgoes
      exact hstops ⟨hroom, Bool.not_eq_true _ ▸ hgoes⟩
    exact hdry hexhausted hroom

theorem midway_start (sourceId : Item → Text) (pools : List (List Item)) (cap : Nat) :
    Midway sourceId pools cap 0 0
      { seen := [], merged := [], iters := tagPools pools, exhausted := false } where
  sound :=
    { seen_iff := fun id => by simp [seatIds]
      distinct := List.nodup_nil
      width := by simp [tagPools]
      left := fun pool seat hseat => by
        rw [getD_tagPools] at hseat
        obtain ⟨item, hitem, rfl⟩ := List.mem_map.mp hseat
        exact ⟨rfl, hitem⟩
      passed := fun pool item hitem => by
        left
        rw [getD_tagPools]
        exact List.mem_map_of_mem hitem
      origin := fun seat hseat => by cases hseat
      capped := Nat.zero_le _
      fair := fun front pool item back hsplit => by simp at hsplit }
  visited _ pool hpool := absurd hpool (Nat.not_lt_zero pool)
  waiting _ pool _ := .inl rfl

theorem seating_finished (sourceId : Item → Text) (pools : List (List Item)) (cap : Nat) :
    Finished sourceId pools cap (seating sourceId pools cap) :=
  mergeLoop_finished (midway_start sourceId pools cap) (fun hexhausted => by contradiction)

theorem mem_flatten_of_mem_getD {pool : Nat} {item : Item} (hitem : item ∈ pools.getD pool []) :
    item ∈ pools.flatten := by
  rw [List.getD_eq_getElem?_getD] at hitem
  cases hpool : pools[pool]? with
  | none =>
    rw [hpool] at hitem
    cases hitem
  | some items =>
    rw [hpool] at hitem
    exact List.mem_flatten.mpr ⟨items, List.mem_of_getElem? hpool, hitem⟩

theorem Finished.length_eq {seats : List (Nat × Item)}
    (hfinished : Finished sourceId pools cap seats) :
    seats.length = min cap ((pools.flatten.map sourceId).dedup).length := by
  have hlength : seats.length = (seatIds sourceId seats).length := (List.length_map _).symm
  have hsubset : seatIds sourceId seats ⊆ (pools.flatten.map sourceId).dedup := by
    intro id hid
    obtain ⟨seat, hseat, rfl⟩ := List.mem_map.mp hid
    rw [List.mem_dedup]
    exact List.mem_map_of_mem (mem_flatten_of_mem_getD (hfinished.origin seat hseat))
  have hle := (hfinished.distinct.subperm hsubset).length_le
  rw [← hlength] at hle
  apply le_antisymm
  · exact le_min hfinished.capped hle
  · rcases Nat.lt_or_ge seats.length cap with hroom | hfull
    · refine (min_le_right _ _).trans ?_
      have hall : (pools.flatten.map sourceId).dedup ⊆ seatIds sourceId seats := by
        intro id hid
        obtain ⟨item, hitem, rfl⟩ := List.mem_map.mp (List.mem_dedup.mp hid)
        obtain ⟨items, hitems, hin⟩ := List.mem_flatten.mp hitem
        obtain ⟨pool, hpool, rfl⟩ := List.getElem_of_mem hitems
        apply hfinished.complete hroom pool
        rw [List.getD_eq_getElem _ _ hpool]
        exact hin
      rw [hlength]
      exact ((List.nodup_dedup _).subperm hall).length_le
    · exact (min_le_left _ _).trans hfull

/-- The merge has as many different items as the cap allows, and seats them fairly. -/
theorem mergeRecallPools_fair (sourceId : Item → Text) (pools : List (List Item)) (cap : Nat) :
    (mergeRecallPools sourceId pools cap).length =
        min cap ((pools.flatten.map sourceId).dedup).length ∧
      ((mergeRecallPools sourceId pools cap).map sourceId).Nodup ∧
      mergeRecallPools sourceId pools cap = (seating sourceId pools cap).map Prod.snd ∧
      (∀ seat ∈ seating sourceId pools cap, seat.2 ∈ pools.getD seat.1 []) ∧
      Fair sourceId pools (seating sourceId pools cap) := by
  have hfinished := seating_finished sourceId pools cap
  have hmerged := map_seating sourceId pools cap
  refine ⟨?_, ?_, hmerged.symm, hfinished.origin, hfinished.fair⟩
  · rw [← hmerged, List.length_map]
    exact hfinished.length_eq
  · rw [← hmerged, List.map_map]
    exact hfinished.distinct

end Difflore.Review

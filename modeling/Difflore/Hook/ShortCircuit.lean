import Difflore.Foundation.Occurrence
import Mathlib.Logic.Function.Basic

/-! # Does the short circuit let an extension recover?

The outcomes of the recall are kept per file extension in a ring of fifty. While at least
nine in ten of them are empty, no recall is made for the extension, so that no outcome is
recorded either.
-/

namespace Difflore.Hook

open Foundation Text

/-! ## The ring of outcomes -/

def window : Nat := 50

def minObservations : Nat := 10

structure WindowStats where
  len : Nat
  cursor : Nat
  slots : List Bool
  empties : Nat

def WindowStats.fresh : WindowStats := ⟨0, 0, List.replicate window false, 0⟩

def WindowStats.record (wasEmpty : Bool) (stats : WindowStats) : WindowStats where
  len := if stats.len = window then stats.len else stats.len + 1
  cursor := (stats.cursor + 1) % window
  slots := stats.slots.set stats.cursor wasEmpty
  empties := (if stats.len = window ∧ stats.slots[stats.cursor]? = some true then
    stats.empties - 1 else stats.empties) + wasEmpty.toNat

/-- The quotient of two numbers up to 50 is on the same side of `0.9` as a float. -/
def WindowStats.shouldShortCircuit (stats : WindowStats) : Bool :=
  minObservations ≤ stats.len && 9 * stats.len ≤ 10 * stats.empties

def lastWindow (recorded : List Bool) : List Bool := recorded.drop (recorded.length - window)

structure WindowStats.Tracks (recorded : List Bool) (stats : WindowStats) : Prop where
  len : stats.len = min recorded.length window
  cursor : stats.cursor = recorded.length % window
  capacity : stats.slots.length = window
  slots : ∀ index, recorded.length ≤ index + window → index < recorded.length →
    stats.slots[index % window]? = recorded[index]?
  empties : stats.empties = (lastWindow recorded).count true

variable {stats : WindowStats} {recorded : List Bool}

theorem tracks_fresh : WindowStats.fresh.Tracks [] where
  len := rfl
  cursor := rfl
  capacity := rfl
  slots _ _ hlt := absurd hlt (Nat.not_lt_zero _)
  empties := rfl

theorem WindowStats.Tracks.oldest (htracks : stats.Tracks recorded)
    (hfull : window ≤ recorded.length) :
    stats.slots[stats.cursor]? = recorded[recorded.length - window]? := by
  have hpos : 0 < window := by decide
  rw [htracks.cursor, Nat.mod_eq_sub_mod hfull]
  exact htracks.slots _ (by omega) (by omega)

theorem WindowStats.Tracks.empties_record (htracks : stats.Tracks recorded) (wasEmpty : Bool) :
    (stats.record wasEmpty).empties = (lastWindow (recorded ++ [wasEmpty])).count true := by
  have hbool : wasEmpty.toNat = List.count true [wasEmpty] := by cases wasEmpty <;> rfl
  rw [WindowStats.record, htracks.empties, htracks.len, lastWindow, lastWindow,
    List.length_append, List.length_singleton, hbool]
  by_cases hfull : window ≤ recorded.length
  · have hlt : recorded.length - window < recorded.length := by
      have hpos : 0 < window := by decide
      omega
    have hnext : recorded.length + 1 - window = recorded.length - window + 1 := by omega
    rw [Nat.min_eq_right hfull, htracks.oldest hfull, List.getElem?_eq_getElem hlt, hnext,
      List.drop_append_of_le_length (by omega), List.drop_eq_getElem_cons hlt, List.count_append]
    cases recorded[recorded.length - window] <;> simp
  · have hfew : recorded.length - window = 0 := by omega
    have hnone : recorded.length + 1 - window = 0 := by omega
    have hroom : min recorded.length window ≠ window := by omega
    simp only [hfew, hnone, hroom, false_and, if_false, List.drop_zero, List.count_append]

theorem WindowStats.Tracks.record (htracks : stats.Tracks recorded) (wasEmpty : Bool) :
    (stats.record wasEmpty).Tracks (recorded ++ [wasEmpty]) where
  len := by
    have hlen := htracks.len
    simp only [WindowStats.record, List.length_append, List.length_singleton]
    split <;> omega
  cursor := by
    simp [WindowStats.record, htracks.cursor]
  capacity := by
    rw [WindowStats.record, List.length_set, htracks.capacity]
  slots index hrecent hlt := by
    rw [List.length_append, List.length_singleton] at hrecent hlt
    have hcursor : stats.cursor < stats.slots.length := by
      rw [htracks.cursor, htracks.capacity]
      exact Nat.mod_lt _ (by decide)
    rw [WindowStats.record, List.getElem?_set]
    by_cases hnew : index = recorded.length
    · subst hnew
      rw [if_pos htracks.cursor, if_pos hcursor, List.getElem?_concat_length]
    · -- Fewer than fifty places back, the index falls on another slot.
      have hold : index < recorded.length := by omega
      have hother : stats.cursor ≠ index % window := by
        rw [htracks.cursor]
        unfold window at hrecent ⊢
        omega
      rw [if_neg hother, List.getElem?_append_left hold]
      exact htracks.slots index (by omega) hold
  empties := htracks.empties_record wasEmpty

theorem WindowStats.Tracks.empties_le (htracks : stats.Tracks recorded) :
    stats.empties ≤ stats.len := by
  have hcount := List.count_le_length (a := true) (l := lastWindow recorded)
  rw [lastWindow, List.length_drop] at hcount
  rw [htracks.empties, htracks.len, lastWindow]
  omega

/-- `"src/foo/bar.TS"` gives `".ts"`; a file without an extension gives the empty text. -/
def extensionKey (file : Text) : Text :=
  match rsplitOnce ['.'] ((trim file).rtakeWhile fun c => c ≠ '/' && c ≠ '\\') with
  | none => []
  | some (stem, ext) => if stem = [] ∨ ext = [] then [] else '.' :: toAsciiLowercase ext

/-- `wasEmpty` is what a recall would end with, if it does not fail. -/
structure HookCall where
  file : Text
  isBashError : Bool
  wasEmpty : Option Bool

structure HookState where
  cache : Text → WindowStats
  recorded : Text → List Bool

def HookState.start : HookState := ⟨fun _ => .fresh, fun _ => []⟩

def HookState.record (ext : Text) (wasEmpty : Bool) (state : HookState) : HookState where
  cache := Function.update state.cache ext ((state.cache ext).record wasEmpty)
  recorded := Function.update state.recorded ext (state.recorded ext ++ [wasEmpty])

def HookState.call (state : HookState) (call : HookCall) : HookState :=
  if call.isBashError || extensionKey call.file = [] ||
      (state.cache (extensionKey call.file)).shouldShortCircuit then state
  else match call.wasEmpty with
    | none => state
    | some wasEmpty => state.record (extensionKey call.file) wasEmpty

def runCalls (calls : List HookCall) : HookState := calls.foldl HookState.call .start

structure HookCall.FindsRules (ext : Text) (call : HookCall) : Prop where
  postEdit : call.isBashError = false
  key : extensionKey call.file = ext
  rules : call.wasEmpty = some false

structure HookState.Tracks (state : HookState) : Prop where
  stats : ∀ ext, (state.cache ext).Tracks (state.recorded ext)
  unnamed : state.recorded [] = []

theorem HookState.Tracks.call {state : HookState} (htracks : state.Tracks) (call : HookCall) :
    (state.call call).Tracks := by
  unfold HookState.call
  split
  next => exact htracks
  next hopen =>
    split
    next => exact htracks
    next wasEmpty _ =>
      have hext : extensionKey call.file ≠ [] := by simp_all
      refine ⟨fun ext => ?_, ?_⟩
      · by_cases hsame : ext = extensionKey call.file
        · subst hsame
          simp only [HookState.record, Function.update_self]
          exact (htracks.stats _).record wasEmpty
        · simp only [HookState.record, Function.update_of_ne hsame]
          exact htracks.stats ext
      · exact (Function.update_of_ne hext.symm _ _).trans htracks.unnamed

theorem tracks_runCalls (calls : List HookCall) : (runCalls calls).Tracks := by
  have hrun : ∀ (state : HookState), state.Tracks → (calls.foldl HookState.call state).Tracks := by
    induction calls with
    | nil => exact fun _ htracks => htracks
    | cons call rest ih => exact fun state htracks => ih _ (htracks.call call)
  exact hrun .start ⟨fun _ => tracks_fresh, rfl⟩

/-! ## Recovery -/

abbrev MostlyEmpty (outcomes : List Bool) : Prop :=
  9 ≤ outcomes.length ∧ 9 * outcomes.length ≤ 10 * outcomes.count true

/-- Another outcome that is not empty lets the short circuit begin. -/
def WindowStats.Stuck (stats : WindowStats) : Prop :=
  9 ≤ stats.len ∧ 9 * stats.len ≤ 10 * stats.empties

theorem WindowStats.Tracks.stuck_iff (htracks : stats.Tracks recorded) :
    stats.Stuck ↔ MostlyEmpty (lastWindow recorded) := by
  have hlen : (lastWindow recorded).length = stats.len := by
    rw [lastWindow, List.length_drop, htracks.len]
    omega
  rw [WindowStats.Stuck, MostlyEmpty, hlen, htracks.empties]

theorem WindowStats.shouldShortCircuit_iff :
    stats.shouldShortCircuit = true ↔ 10 ≤ stats.len ∧ 9 * stats.len ≤ 10 * stats.empties := by
  rw [WindowStats.shouldShortCircuit, Bool.and_eq_true, decide_eq_true_eq, decide_eq_true_eq]
  rfl

theorem WindowStats.stuck_of_shouldShortCircuit (hshort : stats.shouldShortCircuit = true) :
    stats.Stuck := by
  obtain ⟨hlen, hrate⟩ := shouldShortCircuit_iff.mp hshort
  exact ⟨Nat.le_of_succ_le hlen, hrate⟩

theorem WindowStats.Tracks.stuck_record (htracks : stats.Tracks recorded)
    (hopen : ¬ stats.shouldShortCircuit = true) :
    ((stats.record false).shouldShortCircuit = true ↔ stats.Stuck) ∧
      ((stats.record false).Stuck ↔ stats.Stuck) := by
  have hle := htracks.empties_le
  have hcap : stats.len ≤ 50 := by
    rw [htracks.len]
    exact Nat.min_le_right _ _
  rw [shouldShortCircuit_iff] at hopen ⊢
  unfold WindowStats.Stuck
  have hlen : (stats.record false).len = if stats.len = 50 then 50 else stats.len + 1 := by
    rw [WindowStats.record]
    split <;> simp_all [window]
  have hempties : (stats.record false).empties ≤ stats.empties ∧
      (stats.len ≠ 50 → (stats.record false).empties = stats.empties) := by
    by_cases hevict : stats.len = window ∧ stats.slots[stats.cursor]? = some true
    · simp [WindowStats.record, hevict, window]
    · simp [WindowStats.record, hevict]
  obtain ⟨hfewer, hsame⟩ := hempties
  split at hlen <;> omega

theorem HookState.Tracks.stuck_call {state : HookState} (htracks : state.Tracks) {ext : Text}
    {call : HookCall} (hfinds : call.FindsRules ext) :
    (((state.call call).cache ext).shouldShortCircuit = true ↔ (state.cache ext).Stuck) ∧
      (((state.call call).cache ext).Stuck ↔ (state.cache ext).Stuck) := by
  obtain ⟨hedit, rfl, hrules⟩ := hfinds
  by_cases hext : extensionKey call.file = []
  · -- Nothing is recorded without an extension.
    have hlen := (htracks.stats []).len
    rw [htracks.unnamed] at hlen
    have hfree : ¬ (state.cache []).Stuck := by
      rw [WindowStats.Stuck, hlen]
      exact fun hstuck => absurd hstuck.1 (by decide)
    have hsame : state.call call = state := by simp [HookState.call, hext]
    rw [hsame, hext]
    exact ⟨⟨WindowStats.stuck_of_shouldShortCircuit, fun hstuck => absurd hstuck hfree⟩, Iff.rfl⟩
  · by_cases hshort : (state.cache (extensionKey call.file)).shouldShortCircuit = true
    · have hsame : state.call call = state := by simp [HookState.call, hshort]
      rw [hsame]
      exact ⟨⟨WindowStats.stuck_of_shouldShortCircuit, fun _ => hshort⟩, Iff.rfl⟩
    · have hrecord : state.call call = state.record (extensionKey call.file) false := by
        simp [HookState.call, hedit, hext, hshort, hrules]
      have hcache : (state.call call).cache (extensionKey call.file) =
          (state.cache (extensionKey call.file)).record false := by
        rw [hrecord]
        exact Function.update_self ..
      rw [hcache]
      exact (htracks.stats _).stuck_record hshort

theorem stuck_foldl_call {ext : Text} {calls : List HookCall} {state : HookState}
    (htracks : state.Tracks) (hfinds : ∀ call ∈ calls, call.FindsRules ext) :
    ((calls.foldl HookState.call state).cache ext).Stuck ↔ (state.cache ext).Stuck := by
  induction calls generalizing state with
  | nil => rfl
  | cons call rest ih =>
    rw [List.foldl_cons, ih (htracks.call call) fun next hnext => hfinds next (.tail _ hnext)]
    exact (htracks.stuck_call (hfinds call (.head _))).2

/-- The counter counts the last fifty outcomes, and the extension recovers exactly if these
were not mostly empty when rules could be found again. -/
theorem recovers_iff (before after : List HookCall) (ext : Text) (hafter : after.length = window)
    (hfinds : ∀ call ∈ after, call.FindsRules ext) :
    ((runCalls before).cache ext).empties =
        (lastWindow ((runCalls before).recorded ext)).count true ∧
      (((runCalls (before ++ after)).cache ext).shouldShortCircuit = false ↔
        ¬ MostlyEmpty (lastWindow ((runCalls before).recorded ext))) := by
  have htracks := tracks_runCalls before
  refine ⟨(htracks.stats ext).empties, ?_⟩
  obtain rfl | ⟨front, last, rfl⟩ := List.eq_nil_or_concat after
  · cases hafter
  · rw [← (htracks.stats ext).stuck_iff, ← Bool.not_eq_true, not_iff_not, runCalls,
      List.foldl_append, List.concat_eq_append, List.foldl_append, List.foldl_cons, List.foldl_nil]
    have hfront : ∀ call ∈ front, call.FindsRules ext :=
      fun call hcall => hfinds call (by simp [hcall])
    rw [← stuck_foldl_call htracks hfront]
    have hreached := tracks_runCalls (before ++ front)
    rw [runCalls, List.foldl_append] at hreached
    exact (hreached.stuck_call (hfinds last (by simp))).1

def emptyCall : HookCall := ⟨"src/a.ts", false, some true⟩

def servedCall : HookCall := ⟨"src/a.ts", false, some false⟩

theorem recovers_iff_fresh :
    (((runCalls ([emptyCall] ++ List.replicate 50 servedCall)).cache ".ts").shouldShortCircuit
      = false) :=
  (recovers_iff [emptyCall] (List.replicate 50 servedCall) ".ts" List.length_replicate
    fun call hcall => by
      rw [(List.mem_replicate.mp hcall).2]
      exact ⟨rfl, by decide +kernel, rfl⟩).2.mpr (by decide +kernel)

/-- After ten empty recalls the rules of fifty calls are never looked for. -/
theorem never_recovers : ¬ ∀ (before after : List HookCall) (ext : Text), after.length = window →
    (∀ call ∈ after, call.FindsRules ext) →
      ((runCalls (before ++ after)).cache ext).shouldShortCircuit = false := by
  intro hclaim
  refine absurd (hclaim (List.replicate 10 emptyCall) (List.replicate 50 servedCall) ".ts"
    List.length_replicate fun call hcall => ?_) (by decide +kernel)
  rw [(List.mem_replicate.mp hcall).2]
  exact ⟨rfl, by decide +kernel, rfl⟩

end Difflore.Hook

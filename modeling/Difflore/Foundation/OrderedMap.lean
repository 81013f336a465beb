import Mathlib.Data.List.AList
import Mathlib.Data.List.Induction
import Mathlib.Data.List.Lex
import Mathlib.Data.List.Perm.Basic
import Mathlib.Data.List.Perm.Lattice
import Mathlib.Order.Lattice

/-! # Latest indices

An append-only log of keys, and the map from each key to the position of its
last entry. Scanning the log and overwriting yields the same map as keeping it
up to date entry by entry.
-/

namespace Difflore.Foundation

universe uKey

variable {Key : Type uKey} [DecidableEq Key]

abbrev IndexMap (Key : Type uKey) [DecidableEq Key] := AList fun _ : Key => Nat

/-- Scan a log front to back; later entries overwrite earlier ones. -/
def latestIndex (log : List Key) : IndexMap Key :=
  log.zipIdx.foldl (fun latest entry => latest.insert entry.1 entry.2) ∅

theorem latestIndex_nil : latestIndex ([] : List Key) = ∅ := rfl

theorem latestIndex_concat (log : List Key) (key : Key) :
    latestIndex (log ++ [key]) = (latestIndex log).insert key log.length := by
  simp [latestIndex, List.zipIdx_append]

theorem mem_latestIndex {log : List Key} {key : Key} : key ∈ latestIndex log ↔ key ∈ log := by
  induction log using List.reverseRecOn with
  | nil => simp [latestIndex_nil]
  | append_singleton log last ih =>
    rw [latestIndex_concat, AList.mem_insert, ih, List.mem_append, List.mem_singleton, or_comm]

theorem length_keys_eq_of_lookup {left right : IndexMap Key}
    (hlookup : ∀ key, left.lookup key = right.lookup key) :
    left.keys.length = right.keys.length := by
  have hmem : ∀ key, key ∈ left.keys ↔ key ∈ right.keys := by
    intro key
    rw [← AList.mem_keys, ← AList.mem_keys, ← AList.lookup_isSome, ← AList.lookup_isSome, hlookup]
  exact ((List.perm_ext_iff_of_nodup left.keys_nodup right.keys_nodup).mpr hmem).length_eq

universe uValue

structure OrderedMap (Key : Type uKey) (Value : Type uValue) [LinearOrder Key] where
  entries : List (Key × Value)
  ordered : (entries.map Prod.fst).Pairwise (· < ·)

namespace OrderedMap

variable {Key : Type uKey} {Value : Type uValue} [LinearOrder Key]

def empty : OrderedMap Key Value := ⟨[], List.Pairwise.nil⟩

def find (map : OrderedMap Key Value) (key : Key) : Option Value :=
  (map.entries.find? fun entry => entry.1 = key).map Prod.snd

theorem nodup (map : OrderedMap Key Value) : (map.entries.map Prod.fst).Nodup :=
  map.ordered.imp fun hlt => ne_of_lt hlt

theorem find_eq_some {map : OrderedMap Key Value} {key : Key} {value : Value} :
    map.find key = some value ↔ (key, value) ∈ map.entries := by
  unfold find
  constructor
  · intro hfind
    obtain ⟨entry, hentry, rfl⟩ := Option.map_eq_some_iff.mp hfind
    have hkey : entry.1 = key := by simpa using List.find?_some hentry
    rw [← hkey]
    exact List.mem_of_find?_eq_some hentry
  · intro hmem
    cases hfind : map.entries.find? fun entry => entry.1 = key with
    | none => exact absurd (List.find?_eq_none.mp hfind _ hmem) (by simp)
    | some entry =>
      have hkey : entry.1 = key := by simpa using List.find?_some hfind
      have hsame : entry = (key, value) :=
        List.inj_on_of_nodup_map map.nodup (List.mem_of_find?_eq_some hfind) hmem hkey
      rw [hsame]
      rfl

theorem ext_find {map other : OrderedMap Key Value} (hfind : ∀ key, map.find key = other.find key) :
    map = other := by
  obtain ⟨entries, hordered⟩ := map
  obtain ⟨others, hothers⟩ := other
  have hmem : ∀ entry, entry ∈ entries ↔ entry ∈ others := by
    rintro ⟨key, value⟩
    have hleft : find ⟨entries, hordered⟩ key = some value ↔ (key, value) ∈ entries := find_eq_some
    have hright : find ⟨others, hothers⟩ key = some value ↔ (key, value) ∈ others := find_eq_some
    rw [← hleft, ← hright, hfind key]
  have hsorted : ∀ list : List (Key × Value), (list.map Prod.fst).Pairwise (· < ·) →
      list.Pairwise fun a b => a.1 < b.1 := fun list hlist => List.pairwise_map.mp hlist
  have hdistinct : ∀ list : List (Key × Value), (list.map Prod.fst).Pairwise (· < ·) →
      list.Nodup := fun list hlist => (hsorted list hlist).imp fun hlt heq => by
    rw [heq] at hlt
    exact lt_irrefl _ hlt
  have hperm : entries.Perm others :=
    (List.perm_ext_iff_of_nodup (hdistinct _ hordered) (hdistinct _ hothers)).mpr hmem
  have hsame : entries = others := hperm.eq_of_pairwise
    (fun a b _ _ hab hba => absurd (lt_trans hab hba) (lt_irrefl _))
    (hsorted _ hordered) (hsorted _ hothers)
  subst hsame
  rfl

/-! ## Writing -/

def insertEntry (key : Key) (value : Value) : List (Key × Value) → List (Key × Value)
  | [] => [(key, value)]
  | entry :: rest =>
    if key < entry.1 then (key, value) :: entry :: rest
    else if key = entry.1 then (key, value) :: rest
    else entry :: insertEntry key value rest

theorem mem_keys_insertEntry {key other : Key} {value : Value} {entries : List (Key × Value)}
    (hmem : other ∈ (insertEntry key value entries).map Prod.fst) :
    other = key ∨ other ∈ entries.map Prod.fst := by
  induction entries with
  | nil => simpa [insertEntry] using hmem
  | cons entry rest ih =>
    unfold insertEntry at hmem
    split at hmem
    next => simpa using hmem
    next =>
      split at hmem
      next => simp_all
      next =>
        rcases List.mem_cons.mp hmem with rfl | hrest
        · simp
        · rcases ih hrest with rfl | hold
          · exact .inl rfl
          · exact .inr (.tail _ hold)

theorem ordered_insertEntry {key : Key} {value : Value} {entries : List (Key × Value)}
    (hordered : (entries.map Prod.fst).Pairwise (· < ·)) :
    ((insertEntry key value entries).map Prod.fst).Pairwise (· < ·) := by
  induction entries with
  | nil => simp [insertEntry]
  | cons entry rest ih =>
    rw [List.map_cons, List.pairwise_cons] at hordered
    obtain ⟨hhead, hrest⟩ := hordered
    unfold insertEntry
    split
    next hlt =>
      simp only [List.map_cons, List.pairwise_cons, List.mem_cons]
      refine ⟨?_, hhead, hrest⟩
      rintro other (rfl | hother)
      · exact hlt
      · exact lt_trans hlt (hhead other hother)
    next hnotlt =>
      split
      next heq =>
        subst heq
        exact List.pairwise_cons.mpr ⟨hhead, hrest⟩
      next hne =>
        refine List.pairwise_cons.mpr ⟨?_, ih hrest⟩
        intro other hother
        rcases mem_keys_insertEntry hother with rfl | hold
        · exact lt_of_le_of_ne (not_lt.mp hnotlt) (Ne.symm hne)
        · exact hhead other hold

def insert (map : OrderedMap Key Value) (key : Key) (value : Value) : OrderedMap Key Value where
  entries := insertEntry key value map.entries
  ordered := ordered_insertEntry map.ordered

theorem find?_insertEntry (key other : Key) (value : Value) (entries : List (Key × Value)) :
    ((insertEntry key value entries).find? fun entry => entry.1 = other).map Prod.snd =
      if other = key then some value
      else (entries.find? fun entry => entry.1 = other).map Prod.snd := by
  induction entries with
  | nil => by_cases hkey : key = other <;> simp [insertEntry, hkey, eq_comm]
  | cons entry rest ih =>
    unfold insertEntry
    split
    next => by_cases hkey : key = other <;> simp [hkey, eq_comm]
    next =>
      split
      next heq => by_cases hkey : key = other <;> simp_all [eq_comm]
      next hne =>
        by_cases hentry : entry.1 = other
        · have hother : other ≠ key := fun heq => hne (heq ▸ hentry).symm
          simp [hentry, hother]
        · simpa [List.find?_cons, hentry] using ih

theorem find_insert (map : OrderedMap Key Value) (key other : Key) (value : Value) :
    (map.insert key value).find other = if other = key then some value else map.find other :=
  find?_insertEntry key other value map.entries

def setEntry (set : Key → Value → Option Value) (entry : Key × Value) : Option (Key × Value) :=
  (set entry.1 entry.2).map (entry.1, ·)

omit [LinearOrder Key] in
theorem setEntry_eq_some {set : Key → Value → Option Value} {entry : Key × Value} {key : Key}
    {value : Value} :
    setEntry set entry = some (key, value) ↔ entry.1 = key ∧ set entry.1 entry.2 = some value := by
  simp [setEntry, and_comm]

theorem ordered_filterMap {set : Key → Value → Option Value} {entries : List (Key × Value)}
    (hordered : (entries.map Prod.fst).Pairwise (· < ·)) :
    ((entries.filterMap (setEntry set)).map Prod.fst).Pairwise (· < ·) := by
  rw [List.pairwise_map] at hordered ⊢
  refine hordered.filterMap _ fun entry other hlt => ?_
  rintro ⟨key, value⟩ hkept ⟨otherKey, otherValue⟩ hother
  rw [← (setEntry_eq_some.mp hkept).1, ← (setEntry_eq_some.mp hother).1]
  exact hlt

def filterMap (map : OrderedMap Key Value) (set : Key → Value → Option Value) :
    OrderedMap Key Value where
  entries := map.entries.filterMap (setEntry set)
  ordered := ordered_filterMap map.ordered

theorem find_filterMap (map : OrderedMap Key Value) (set : Key → Value → Option Value) (key : Key) :
    (map.filterMap set).find key = (map.find key).bind (set key) := by
  apply Option.ext
  intro value
  rw [find_eq_some, Option.bind_eq_some_iff]
  constructor
  · intro hmem
    obtain ⟨⟨other, old⟩, hold, hsome⟩ := List.mem_filterMap.mp hmem
    obtain ⟨rfl, hset⟩ := setEntry_eq_some.mp hsome
    exact ⟨old, find_eq_some.mpr hold, hset⟩
  · rintro ⟨old, hold, hset⟩
    exact List.mem_filterMap.mpr
      ⟨(key, old), find_eq_some.mp hold, setEntry_eq_some.mpr ⟨rfl, hset⟩⟩

def erase (map : OrderedMap Key Value) (key : Key) : OrderedMap Key Value :=
  map.filterMap fun other value => if other = key then none else some value

theorem find_erase (map : OrderedMap Key Value) (key other : Key) :
    (map.erase key).find other = if other = key then none else map.find other := by
  rw [erase, find_filterMap]
  by_cases hkey : other = key
  · simp [hkey]
  · simp [hkey]

def assign (map : OrderedMap Key Value) (key : Key) : Option Value → OrderedMap Key Value
  | some value => map.insert key value
  | none => map.erase key

theorem find_assign (map : OrderedMap Key Value) (key other : Key) (value : Option Value) :
    (map.assign key value).find other = if other = key then value else map.find other := by
  cases value with
  | none => exact find_erase map key other
  | some value => exact find_insert map key other value

end OrderedMap

end Difflore.Foundation

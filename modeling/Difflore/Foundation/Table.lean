import Mathlib.Data.List.Perm.Basic
import Mathlib.Data.List.Sort

/-! # Tables with an autoincremented key

A table is the list of its rows in insertion order, together with the next key
to hand out. Keys are distinct and never reused. `UPDATE … WHERE`,
`DELETE … WHERE` and `INSERT` act on whole tables; the lemmas say what each of
them does to the row stored under one key.
-/

namespace Difflore.Foundation

universe uRow

structure AutoTable (Row : Type uRow) (key : Row → Nat) where
  rows : List Row
  nextKey : Nat
  nodup : (rows.map key).Nodup
  below : ∀ row ∈ rows, key row < nextKey

namespace AutoTable

variable {Row : Type uRow} {key : Row → Nat}

def empty (firstKey : Nat) : AutoTable Row key := ⟨[], firstKey, by simp, by simp⟩

def find (table : AutoTable Row key) (id : Nat) : Option Row :=
  table.rows.find? fun row => key row = id

/-- `UPDATE … SET … WHERE`: rewrite exactly the rows that meet the condition. -/
def update (table : AutoTable Row key) (condition : Row → Bool) (set : Row → Row)
    (hset : ∀ row, key (set row) = key row) : AutoTable Row key where
  rows := table.rows.map fun row => if condition row then set row else row
  nextKey := table.nextKey
  nodup := by
    have hkeys : (table.rows.map fun row => if condition row then set row else row).map key =
        table.rows.map key := by
      rw [List.map_map]
      apply List.map_congr_left
      intro row _
      simp only [Function.comp_apply]
      split
      · exact hset row
      · rfl
    rw [hkeys]
    exact table.nodup
  below := by
    intro row hrow
    obtain ⟨old, hold, rfl⟩ := List.mem_map.mp hrow
    split
    · rw [hset]
      exact table.below old hold
    · exact table.below old hold

/-- `DELETE … WHERE`. -/
def delete (table : AutoTable Row key) (condition : Row → Bool) : AutoTable Row key where
  rows := table.rows.filter fun row => !condition row
  nextKey := table.nextKey
  nodup := table.nodup.sublist (List.filter_sublist.map key)
  below := fun row hrow => table.below row (List.mem_of_mem_filter hrow)

def insert (table : AutoTable Row key) (build : Nat → Row)
    (hbuild : ∀ id, key (build id) = id) : AutoTable Row key where
  rows := table.rows ++ [build table.nextKey]
  nextKey := table.nextKey + 1
  nodup := by
    rw [List.map_append, List.nodup_append]
    refine ⟨table.nodup, List.nodup_singleton _, ?_⟩
    intro id hid other hother
    obtain ⟨row, hrow, rfl⟩ := List.mem_map.mp hid
    simp only [List.map_cons, List.map_nil, List.mem_singleton, hbuild] at hother
    have hlt := table.below row hrow
    omega
  below := by
    intro row hrow
    rcases List.mem_append.mp hrow with hold | hnew
    · exact Nat.lt_succ_of_lt (table.below row hold)
    · rw [List.mem_singleton.mp hnew, hbuild]
      exact Nat.lt_succ_self _

theorem find_key {table : AutoTable Row key} {id : Nat} {row : Row}
    (hfind : table.find id = some row) : key row = id := by
  simpa using List.find?_some hfind

theorem find_mem {table : AutoTable Row key} {id : Nat} {row : Row}
    (hfind : table.find id = some row) : row ∈ table.rows :=
  List.mem_of_find?_eq_some hfind

theorem find_lt {table : AutoTable Row key} {id : Nat} {row : Row}
    (hfind : table.find id = some row) : id < table.nextKey :=
  find_key hfind ▸ table.below row (find_mem hfind)

theorem find?_of_nodup {rows : List Row} (hnodup : (rows.map key).Nodup) {row : Row}
    (hmem : row ∈ rows) : rows.find? (fun other => key other = key row) = some row := by
  induction rows with
  | nil => simp at hmem
  | cons head tail ih =>
    rw [List.map_cons, List.nodup_cons] at hnodup
    rcases List.mem_cons.mp hmem with rfl | htail
    · simp
    · have hne : key head ≠ key row := fun heq =>
        hnodup.1 (heq ▸ List.mem_map_of_mem htail)
      simpa [hne] using ih hnodup.2 htail

theorem find_of_mem {table : AutoTable Row key} {row : Row} (hmem : row ∈ table.rows) :
    table.find (key row) = some row :=
  find?_of_nodup table.nodup hmem

theorem find_empty (firstKey id : Nat) : (empty firstKey : AutoTable Row key).find id = none := rfl

theorem find_update (table : AutoTable Row key) (condition : Row → Bool) {set : Row → Row}
    (hset : ∀ row, key (set row) = key row) (id : Nat) :
    (table.update condition set hset).find id =
      (table.find id).map fun row => if condition row then set row else row := by
  have hkey : ∀ row, key (if condition row then set row else row) = key row := by
    intro row
    split
    · exact hset row
    · rfl
  unfold find update
  rw [List.find?_map]
  congr 2
  funext row
  simp only [Function.comp_apply, hkey]

theorem find_delete (table : AutoTable Row key) (condition : Row → Bool) (id : Nat) :
    (table.delete condition).find id = (table.find id).filter fun row => !condition row := by
  cases hfind : table.find id with
  | none =>
    rw [find, List.find?_eq_none] at hfind
    rw [find, Option.filter_none, List.find?_eq_none]
    exact fun row hrow => hfind row (List.mem_of_mem_filter hrow)
  | some row =>
    rw [Option.filter_some]
    split
    next hkept =>
      have hmem : row ∈ (table.delete condition).rows := List.mem_filter.mpr ⟨find_mem hfind, hkept⟩
      rw [← find_key hfind]
      exact find_of_mem hmem
    next hdropped =>
      rw [find, List.find?_eq_none]
      intro other hother hid
      obtain ⟨hmem, hkept⟩ := List.mem_filter.mp hother
      have hsame : table.find (key other) = some other := find_of_mem hmem
      rw [show key other = id by simpa using hid, hfind] at hsame
      exact hdropped (Option.some.inj hsame ▸ hkept)

theorem find_insert (table : AutoTable Row key) {build : Nat → Row}
    (hbuild : ∀ id, key (build id) = id) (id : Nat) :
    (table.insert build hbuild).find id =
      if id = table.nextKey then some (build table.nextKey) else table.find id := by
  simp only [find, insert, List.find?_append]
  split
  next hnew =>
    subst id
    have hold : table.rows.find? (fun row => key row = table.nextKey) = none := by
      rw [List.find?_eq_none]
      intro row hrow
      have hlt := table.below row hrow
      simp only [decide_eq_true_eq]
      omega
    simp [hold, hbuild]
  next hold =>
    simp [hbuild, Ne.symm hold]

end AutoTable

/-! ## Shedding the first rows of a class -/

universe uAge

namespace AutoTable

variable {Row : Type uRow} {key : Row → Nat} {Age : Type uAge} [LinearOrder Age]

/-- `SELECT … WHERE condition ORDER BY age LIMIT limit`. -/
def first (condition : Row → Bool) (age : Row → Age) (limit : Nat) (table : AutoTable Row key) :
    List Row :=
  ((table.rows.filter condition).insertionSort fun left right => age left ≤ age right).take limit

/-- `DELETE … WHERE key IN (SELECT …)`. -/
def shed (condition : Row → Bool) (age : Row → Age) (limit : Nat) (table : AutoTable Row key) :
    AutoTable Row key :=
  table.delete fun row => key row ∈ (table.first condition age limit).map key

def shedOver (cap : Nat) (condition : Row → Bool) (age : Row → Age) (table : AutoTable Row key) :
    AutoTable Row key :=
  table.shed condition age (table.rows.length - cap)

variable {condition : Row → Bool} {age : Row → Age} {limit cap : Nat} {table : AutoTable Row key}

theorem nodup_rows (table : AutoTable Row key) : table.rows.Nodup := table.nodup.of_map key

theorem eq_of_key_eq {row other : Row} (hrow : row ∈ table.rows) (hother : other ∈ table.rows)
    (hkey : key row = key other) : row = other :=
  List.inj_on_of_nodup_map table.nodup hrow hother hkey

theorem mem_of_mem_first {row : Row} (hrow : row ∈ table.first condition age limit) :
    row ∈ table.rows ∧ condition row := by
  have hsorted := List.mem_of_mem_take hrow
  rw [List.mem_insertionSort, List.mem_filter] at hsorted
  exact hsorted

theorem length_first : (table.first condition age limit).length =
    min limit (table.rows.countP condition) := by
  rw [first, List.length_take, List.length_insertionSort, List.countP_eq_length_filter]

theorem nodup_first : (table.first condition age limit).Nodup := by
  apply List.Nodup.sublist (List.take_sublist _ _)
  rw [(List.perm_insertionSort _ _).nodup_iff]
  exact table.nodup_rows.filter _

theorem key_mem_first {row : Row} (hrow : row ∈ table.rows) :
    key row ∈ (table.first condition age limit).map key ↔
      row ∈ table.first condition age limit := by
  constructor
  · intro hkey
    obtain ⟨other, hother, hsame⟩ := List.mem_map.mp hkey
    rw [eq_of_key_eq hrow (mem_of_mem_first hother).1 hsame.symm]
    exact hother
  · exact List.mem_map_of_mem

theorem mem_shed {row : Row} : row ∈ (table.shed condition age limit).rows ↔
    row ∈ table.rows ∧ row ∉ table.first condition age limit := by
  unfold shed delete
  rw [List.mem_filter]
  apply and_congr_right
  intro hrow
  simp only [Bool.not_eq_true', decide_eq_false_iff_not, key_mem_first hrow]

theorem shed_sublist : (table.shed condition age limit).rows.Sublist table.rows :=
  List.filter_sublist

theorem length_shed : (table.shed condition age limit).rows.length +
    min limit (table.rows.countP condition) = table.rows.length := by
  have hdropped : (table.rows.filter fun row =>
      key row ∈ (table.first condition age limit).map key).Perm
        (table.first condition age limit) := by
    apply (List.perm_ext_iff_of_nodup (table.nodup_rows.filter _) nodup_first).mpr
    intro row
    rw [List.mem_filter, decide_eq_true_iff]
    constructor
    · intro hrow
      exact (key_mem_first hrow.1).mp hrow.2
    · intro hrow
      have hmem := (mem_of_mem_first hrow).1
      exact ⟨hmem, (key_mem_first hmem).mpr hrow⟩
  have hsplit := List.length_eq_length_filter_add (l := table.rows)
    fun row => decide (key row ∈ (table.first condition age limit).map key)
  rw [hdropped.length_eq, length_first] at hsplit
  have hkept : (table.shed condition age limit).rows = table.rows.filter fun row =>
      !decide (key row ∈ (table.first condition age limit).map key) := rfl
  rw [hkept]
  omega

theorem age_le_of_shed {row other : Row} (hrow : row ∈ table.first condition age limit)
    (hother : other ∈ (table.shed condition age limit).rows) (hcondition : condition other) :
    age row ≤ age other := by
  obtain ⟨hmem, hkept⟩ := mem_shed.mp hother
  have hsorted := List.pairwise_insertionSort (fun left right => age left ≤ age right)
    (table.rows.filter condition)
  rw [← List.take_append_drop limit (List.insertionSort _ _), List.pairwise_append] at hsorted
  apply hsorted.2.2 row hrow other
  have hlast : other ∈ (table.rows.filter condition).insertionSort
      fun left right => age left ≤ age right :=
    (List.mem_insertionSort _).mpr (List.mem_filter.mpr ⟨hmem, hcondition⟩)
  rw [← List.take_append_drop limit (List.insertionSort _ _)] at hlast
  exact (List.mem_append.mp hlast).resolve_left hkept

theorem length_shedOver : (table.shedOver cap condition age).rows.length +
    min (table.rows.length - cap) (table.rows.countP condition) = table.rows.length :=
  length_shed

theorem min_le_length_shedOver :
    min table.rows.length cap ≤ (table.shedOver cap condition age).rows.length := by
  have hlength : (table.shedOver cap condition age).rows.length + _ = _ := length_shedOver
  omega

theorem length_shedOver_of_all (hall : ∀ row ∈ table.rows, condition row) :
    (table.shedOver cap condition age).rows.length = min table.rows.length cap := by
  have hlength : (table.shedOver cap condition age).rows.length + _ = _ := length_shedOver
  rw [List.countP_eq_length.mpr hall] at hlength
  omega

theorem shedOver_sublist : (table.shedOver cap condition age).rows.Sublist table.rows :=
  shed_sublist

theorem mem_shedOver_of_not {row : Row} (hrow : row ∈ table.rows) (hnot : condition row = false) :
    row ∈ (table.shedOver cap condition age).rows := by
  apply mem_shed.mpr
  refine ⟨hrow, fun hfirst => ?_⟩
  simp [(mem_of_mem_first hfirst).2] at hnot

theorem not_of_mem_shedOver (hover : cap < (table.shedOver cap condition age).rows.length)
    {row : Row} (hrow : row ∈ (table.shedOver cap condition age).rows) : condition row = false := by
  obtain ⟨hmem, hkept⟩ := mem_shed.mp hrow
  rw [Bool.eq_false_iff]
  intro hcondition
  have hlength : (table.shedOver cap condition age).rows.length + _ = _ := length_shedOver
  have hall : (table.rows.filter condition).length ≤ table.rows.length - cap := by
    rw [← List.countP_eq_length_filter]
    omega
  apply hkept
  unfold first
  rw [List.take_of_length_le (by simpa using hall), List.mem_insertionSort, List.mem_filter]
  exact ⟨hmem, hcondition⟩

theorem of_not_mem_shedOver {row : Row} (hrow : row ∈ table.rows)
    (hgone : row ∉ (table.shedOver cap condition age).rows) :
    cap < table.rows.length ∧ condition row ∧
      ∀ other ∈ (table.shedOver cap condition age).rows, condition other → age row ≤ age other := by
  have hfirst : row ∈ table.first condition age (table.rows.length - cap) := by
    by_contra hnot
    exact hgone (mem_shed.mpr ⟨hrow, hnot⟩)
  refine ⟨?_, (mem_of_mem_first hfirst).2, fun other hother => age_le_of_shed hfirst hother⟩
  have hpos := List.length_pos_of_mem hfirst
  rw [length_first] at hpos
  omega

theorem shedOver_of_le (hle : table.rows.length ≤ cap) :
    table.shedOver cap condition age = table := by
  have hnone : table.rows.length - cap = 0 := by omega
  simp [shedOver, shed, delete, first, hnone]

end AutoTable

end Difflore.Foundation

import Mathlib.Data.List.Perm.Lattice

/-! # Tables with a primary key

A table is the list of its rows, no two of which share a key. The operations are
`INSERT OR IGNORE`, `INSERT … ON CONFLICT DO UPDATE`, `UPDATE … WHERE` and
`DELETE … WHERE`. Up to the order of its rows, an upsert drops the row with the
key and appends the new one.
-/

namespace Difflore.Foundation

universe uRow uKey

structure KeyedTable (Row : Type uRow) {Key : Type uKey} (key : Row → Key) where
  rows : List Row
  nodup : (rows.map key).Nodup

namespace KeyedTable

variable {Row : Type uRow} {Key : Type uKey} {key : Row → Key}

def empty : KeyedTable Row key := ⟨[], List.nodup_nil⟩

def keys (table : KeyedTable Row key) : List Key := table.rows.map key

theorem mem_keys {table : KeyedTable Row key} {id : Key} :
    id ∈ table.keys ↔ ∃ row ∈ table.rows, key row = id :=
  List.mem_map

theorem eq_of_key {table : KeyedTable Row key} {row other : Row} (hrow : row ∈ table.rows)
    (hother : other ∈ table.rows) (hkey : key row = key other) : row = other :=
  List.inj_on_of_nodup_map table.nodup hrow hother hkey

/-- `DELETE … WHERE`. -/
def delete (table : KeyedTable Row key) (condition : Row → Bool) : KeyedTable Row key where
  rows := table.rows.filter fun row => !condition row
  nodup := table.nodup.sublist (List.filter_sublist.map key)

theorem mem_delete {table : KeyedTable Row key} {condition : Row → Bool} {row : Row} :
    row ∈ (table.delete condition).rows ↔ row ∈ table.rows ∧ condition row = false := by
  simp [delete, List.mem_filter]

theorem map_key_update {condition : Row → Bool} {set : Row → Row}
    (hset : ∀ row, key (set row) = key row) (rows : List Row) :
    (rows.map fun row => if condition row then set row else row).map key = rows.map key := by
  rw [List.map_map]
  apply List.map_congr_left
  intro row _
  simp only [Function.comp_apply]
  split
  · exact hset row
  · rfl

/-- `UPDATE … SET … WHERE`, of columns other than the key. -/
def update (table : KeyedTable Row key) (condition : Row → Bool) (set : Row → Row)
    (hset : ∀ row, key (set row) = key row) : KeyedTable Row key where
  rows := table.rows.map fun row => if condition row then set row else row
  nodup := by
    rw [map_key_update hset]
    exact table.nodup

theorem mem_update {table : KeyedTable Row key} {condition : Row → Bool} {set : Row → Row}
    {hset : ∀ row, key (set row) = key row} {row : Row} :
    row ∈ (table.update condition set hset).rows ↔
      ∃ old ∈ table.rows, (if condition old then set old else old) = row :=
  List.mem_map

theorem keys_update {table : KeyedTable Row key} {condition : Row → Bool} {set : Row → Row}
    {hset : ∀ row, key (set row) = key row} :
    (table.update condition set hset).keys = table.keys :=
  map_key_update hset table.rows

section

variable [DecidableEq Key]

def find (table : KeyedTable Row key) (id : Key) : Option Row :=
  table.rows.find? fun row => key row = id

theorem find_eq_some {table : KeyedTable Row key} {id : Key} {row : Row} :
    table.find id = some row ↔ row ∈ table.rows ∧ key row = id := by
  constructor
  · intro hfind
    exact ⟨List.mem_of_find?_eq_some hfind, by simpa using List.find?_some hfind⟩
  · rintro ⟨hmem, rfl⟩
    obtain ⟨found, hfound⟩ := Option.isSome_iff_exists.mp
      (List.find?_isSome (p := fun other => decide (key other = key row)).mpr
        ⟨row, hmem, decide_eq_true rfl⟩)
    have hkey : key found = key row := by simpa using List.find?_some hfound
    rw [find, hfound, eq_of_key (List.mem_of_find?_eq_some hfound) hmem hkey]

theorem find_eq_none {table : KeyedTable Row key} {id : Key} :
    table.find id = none ↔ id ∉ table.keys := by
  simp [find, mem_keys]

/-- `INSERT OR IGNORE`. -/
def insertOrIgnore (table : KeyedTable Row key) (row : Row) : KeyedTable Row key :=
  if hfresh : key row ∈ table.keys then table
  else
    { rows := table.rows ++ [row]
      nodup := by
        rw [List.map_append, List.map_singleton]
        exact table.nodup.append (List.nodup_singleton _)
          (List.disjoint_singleton.mpr hfresh) }

theorem mem_insertOrIgnore {table : KeyedTable Row key} {row other : Row}
    (hmem : other ∈ (table.insertOrIgnore row).rows) : other ∈ table.rows ∨ other = row := by
  unfold insertOrIgnore at hmem
  split at hmem
  next => exact .inl hmem
  next =>
    rcases List.mem_append.mp hmem with hold | hnew
    · exact .inl hold
    · exact .inr (List.mem_singleton.mp hnew)

/-- `UPDATE … SET key = newKey WHERE key = oldKey`: refused if the new key is taken. -/
def rekey (table : KeyedTable Row key) (oldKey newKey : Key) (set : Row → Row)
    (hset : ∀ row, key (set row) = newKey) : KeyedTable Row key :=
  if htaken : newKey ∈ table.keys then table
  else
    { rows := table.rows.map fun row => if key row = oldKey then set row else row
      nodup := by
        rw [List.map_map]
        apply List.Nodup.map_on _ table.nodup.of_map
        intro row hrow other hother hsame
        simp only [Function.comp_apply] at hsame
        have hnew : ∀ row ∈ table.rows, key row ≠ newKey :=
          fun row hrow heq => htaken (mem_keys.mpr ⟨row, hrow, heq⟩)
        by_cases hfirst : key row = oldKey
        · by_cases hsecond : key other = oldKey
          · exact eq_of_key hrow hother (hfirst.trans hsecond.symm)
          · rw [if_pos hfirst, if_neg hsecond, hset] at hsame
            exact absurd hsame.symm (hnew other hother)
        · by_cases hsecond : key other = oldKey
          · rw [if_neg hfirst, if_pos hsecond, hset] at hsame
            exact absurd hsame (hnew row hrow)
          · rw [if_neg hfirst, if_neg hsecond] at hsame
            exact eq_of_key hrow hother hsame }

/-- `INSERT … ON CONFLICT DO UPDATE SET …`. -/
def upsert (table : KeyedTable Row key) (row : Row) (set : Row → Row)
    (hset : ∀ old, key (set old) = key old) : KeyedTable Row key :=
  if key row ∈ table.keys then table.update (fun old => key old = key row) set hset
  else table.insertOrIgnore row

def upserted (table : KeyedTable Row key) (row : Row) (set : Row → Row) : Row :=
  (table.find (key row)).elim row set

theorem upsert_perm (table : KeyedTable Row key) (row : Row) {set : Row → Row}
    (hset : ∀ old, key (set old) = key old) :
    (table.upsert row set hset).rows.Perm
      (table.rows.filter (fun old => !decide (key old = key row)) ++ [table.upserted row set]) := by
  unfold upsert upserted
  split
  next hmem =>
    obtain ⟨old, hold, hkey⟩ := mem_keys.mp hmem
    rw [find_eq_some.mpr ⟨hold, hkey⟩, Option.elim_some]
    -- The updated rows are those with the key, and there is one of them.
    have hsingle : (table.rows.filter fun row' => decide (key row' = key row)) = [old] := by
      have hperm : (table.rows.filter fun row' => decide (key row' = key row)).Perm [old] := by
        apply (List.perm_ext_iff_of_nodup (table.nodup.of_map.filter _)
          (List.nodup_singleton old)).mpr
        intro other
        rw [List.mem_filter, List.mem_singleton, decide_eq_true_eq]
        constructor
        · rintro ⟨hother, hsame⟩
          exact eq_of_key hother hold (hsame.trans hkey.symm)
        · rintro rfl
          exact ⟨hold, hkey⟩
      exact List.perm_singleton.mp hperm
    have hparts := List.filter_append_perm (fun row' => decide (key row' = key row)) table.rows
    rw [hsingle] at hparts
    have hupdated := (hparts.map fun old => if key old = key row then set old else old).symm
    rw [List.map_append, List.map_singleton, if_pos hkey] at hupdated
    have hrest : ((table.rows.filter fun row' => !decide (key row' = key row)).map
        fun old => if key old = key row then set old else old) =
          table.rows.filter fun row' => !decide (key row' = key row) := by
      conv => rhs; rw [← List.map_id (table.rows.filter _)]
      apply List.map_congr_left
      intro other hother
      have hne : ¬ key other = key row := by simpa using (List.mem_filter.mp hother).2
      rw [if_neg hne, id_eq]
    rw [hrest] at hupdated
    have hrows : (table.update (fun old => decide (key old = key row)) set hset).rows =
        table.rows.map fun old => if key old = key row then set old else old := by
      simp [update]
    rw [hrows]
    exact hupdated.trans List.perm_append_comm
  next hmem =>
    rw [find_eq_none.mpr hmem, Option.elim_none, insertOrIgnore, dif_neg hmem,
      List.filter_eq_self.mpr]
    intro old hold
    have hne : key old ≠ key row := fun heq => hmem (mem_keys.mpr ⟨old, hold, heq⟩)
    simpa using hne

theorem mem_upsert {table : KeyedTable Row key} {row other : Row} {set : Row → Row}
    {hset : ∀ old, key (set old) = key old} :
    other ∈ (table.upsert row set hset).rows ↔
      (other ∈ table.rows ∧ key other ≠ key row) ∨ other = table.upserted row set := by
  rw [(table.upsert_perm row hset).mem_iff, List.mem_append, List.mem_filter, List.mem_singleton]
  simp

theorem key_upserted (table : KeyedTable Row key) (row : Row) {set : Row → Row}
    (hset : ∀ old, key (set old) = key old) : key (table.upserted row set) = key row := by
  unfold upserted
  cases hfind : table.find (key row) with
  | none => rfl
  | some old => rw [Option.elim_some, hset, (find_eq_some.mp hfind).2]

theorem mem_foldl_upsert {set : Row → Row → Row} {hset : ∀ row old, key (set row old) = key old}
    (hsame : ∀ row old, key old = key row → set row old = row) {rows : List Row}
    (hnodup : (rows.map key).Nodup) {table : KeyedTable Row key} {other : Row} :
    other ∈ (rows.foldl (fun table row => table.upsert row (set row) (hset row)) table).rows ↔
      other ∈ rows ∨ other ∈ table.rows ∧ key other ∉ rows.map key := by
  induction rows generalizing table with
  | nil => simp
  | cons row rest ih =>
    obtain ⟨hfresh, hrest⟩ := List.nodup_cons.mp hnodup
    have hupserted : table.upserted row (set row) = row := by
      unfold upserted
      cases hfind : table.find (key row) with
      | none => rfl
      | some old => exact hsame row old (find_eq_some.mp hfind).2
    have hrow : other = row → key other ∉ rest.map key := by
      rintro rfl
      exact hfresh
    rw [List.foldl_cons, ih hrest, mem_upsert, hupserted, List.mem_cons, List.map_cons,
      List.mem_cons, not_or]
    tauto

theorem find_upsert (table : KeyedTable Row key) (row : Row) {set : Row → Row}
    (hset : ∀ old, key (set old) = key old) (id : Key) :
    (table.upsert row set hset).find id =
      if id = key row then some (table.upserted row set) else table.find id := by
  split
  next hid =>
    subst id
    exact find_eq_some.mpr ⟨mem_upsert.mpr (.inr rfl), key_upserted table row hset⟩
  next hid =>
    ext other
    rw [find_eq_some, find_eq_some, mem_upsert]
    constructor
    · rintro ⟨⟨hold, _⟩ | rfl, hkey⟩
      · exact ⟨hold, hkey⟩
      · exact absurd (hkey.symm.trans (key_upserted table row hset)) hid
    · rintro ⟨hold, hkey⟩
      exact ⟨.inl ⟨hold, fun heq => hid (hkey.symm.trans heq)⟩, hkey⟩

theorem find_update (table : KeyedTable Row key) (condition : Row → Bool) {set : Row → Row}
    (hset : ∀ row, key (set row) = key row) (id : Key) :
    (table.update condition set hset).find id =
      (table.find id).map fun row => if condition row then set row else row := by
  have hkey : ∀ row, key (if condition row then set row else row) = key row := by
    intro row
    split
    · exact hset row
    · rfl
  ext row
  rw [find_eq_some, mem_update, Option.map_eq_some_iff]
  constructor
  · rintro ⟨⟨old, hold, rfl⟩, hid⟩
    exact ⟨old, find_eq_some.mpr ⟨hold, (hkey old).symm.trans hid⟩, rfl⟩
  · rintro ⟨old, hfind, rfl⟩
    obtain ⟨hold, hid⟩ := find_eq_some.mp hfind
    exact ⟨⟨old, hold, rfl⟩, (hkey old).trans hid⟩

theorem find_insertOrIgnore (table : KeyedTable Row key) (row : Row) (id : Key) :
    (table.insertOrIgnore row).find id =
      if id = key row then some ((table.find id).getD row) else table.find id := by
  by_cases htaken : key row ∈ table.keys
  · rw [insertOrIgnore, dif_pos htaken]
    split
    next hid =>
      obtain ⟨old, hold⟩ := mem_keys.mp htaken
      rw [hid, find_eq_some.mpr hold, Option.getD_some]
    next => rfl
  · have hrows : (table.insertOrIgnore row).rows = table.rows ++ [row] := by
      rw [insertOrIgnore, dif_neg htaken]
    unfold find
    rw [hrows, List.find?_append]
    split
    next hid =>
      rw [hid, ← find, find_eq_none.mpr htaken]
      simp
    next hid =>
      have hother : List.find? (fun other => decide (key other = id)) [row] = none := by
        simp [Ne.symm hid]
      rw [hother, Option.or_none]

theorem find_delete (table : KeyedTable Row key) (condition : Row → Bool) (id : Key) :
    (table.delete condition).find id = (table.find id).filter fun row => !condition row := by
  ext row
  rw [Option.filter_eq_some_iff, find_eq_some, find_eq_some, mem_delete, Bool.not_eq_true']
  tauto

end

end KeyedTable

end Difflore.Foundation

import Mathlib.Data.List.Induction
import Mathlib.Data.List.Perm.Basic
import Mathlib.Order.Lattice

/-! # Grouping by key

Values collected under their keys, one group a key, in key order. Nothing is
lost: flattened, the groups are a permutation of what was put in. A group has the values of
its key in the order they came.
-/

namespace Difflore.Foundation

universe uKey uValue

variable {Key : Type uKey} {Value : Type uValue} [LT Key] [DecidableLT Key] [DecidableEq Key]

def insertGroup (key : Key) (value : Value) : List (Key × List Value) → List (Key × List Value)
  | [] => [(key, [value])]
  | (other, values) :: rest =>
    if key = other then (other, values ++ [value]) :: rest
    else if key < other then (key, [value]) :: (other, values) :: rest
    else (other, values) :: insertGroup key value rest

theorem length_foldl_insertGroup_le (entries : List (Key × Value))
    (groups : List (Key × List Value)) :
    (entries.foldl (fun groups entry => insertGroup entry.1 entry.2 groups) groups).length ≤
      groups.length + entries.length := by
  have hinsert : ∀ key value (groups : List (Key × List Value)),
      (insertGroup key value groups).length ≤ groups.length + 1 := by
    intro key value groups
    induction groups with
    | nil => exact le_refl _
    | cons first rest ih =>
      rw [insertGroup]
      split
      next => exact Nat.le_succ _
      next =>
        split
        next => exact le_refl _
        next => exact Nat.succ_le_succ ih
  induction entries generalizing groups with
  | nil => exact le_refl _
  | cons entry rest ih =>
    have hrest := ih (insertGroup entry.1 entry.2 groups)
    have hfirst := hinsert entry.1 entry.2 groups
    rw [List.foldl_cons, List.length_cons]
    omega

theorem insertGroup_perm (key : Key) (value : Value) (groups : List (Key × List Value)) :
    ((insertGroup key value groups).flatMap Prod.snd).Perm (value :: groups.flatMap Prod.snd) := by
  induction groups with
  | nil => exact .refl _
  | cons group rest ih =>
    obtain ⟨other, values⟩ := group
    unfold insertGroup
    split
    next =>
      simp only [List.flatMap_cons, List.append_assoc]
      exact List.perm_middle
    next =>
      split
      next => exact .refl _
      next =>
        simp only [List.flatMap_cons]
        exact (ih.append_left values).trans List.perm_middle

theorem insertGroup_ne_nil {key : Key} {value : Value} {groups : List (Key × List Value)}
    (hgroups : ∀ group ∈ groups, group.2 ≠ []) :
    ∀ group ∈ insertGroup key value groups, group.2 ≠ [] := by
  induction groups with
  | nil => simp [insertGroup]
  | cons first rest ih =>
    obtain ⟨other, values⟩ := first
    have hrest : ∀ group ∈ rest, group.2 ≠ [] :=
      fun group hgroup => hgroups group (.tail _ hgroup)
    have hfirst : values ≠ [] := hgroups (other, values) (.head _ ..)
    unfold insertGroup
    split
    next =>
      intro group hgroup
      rcases List.mem_cons.mp hgroup with rfl | hgroup
      · simp
      · exact hrest group hgroup
    next =>
      split
      next =>
        intro group hgroup
        rcases List.mem_cons.mp hgroup with rfl | hgroup
        · simp
        · exact hgroups group hgroup
      next =>
        intro group hgroup
        rcases List.mem_cons.mp hgroup with rfl | hgroup
        · exact hfirst
        · exact ih hrest group hgroup

/-! ## Grouping a whole list -/

section Entries

variable {Key : Type uKey} {Value : Type uValue} [LinearOrder Key]

def groupEntries (entries : List (Key × Value)) : List (Key × List Value) :=
  entries.foldl (fun groups entry => insertGroup entry.1 entry.2 groups) []

theorem groupEntries_concat (entries : List (Key × Value)) (entry : Key × Value) :
    groupEntries (entries ++ [entry]) = insertGroup entry.1 entry.2 (groupEntries entries) := by
  unfold groupEntries
  rw [List.foldl_append]
  rfl

theorem groupEntries_perm (entries : List (Key × Value)) :
    ((groupEntries entries).flatMap Prod.snd).Perm (entries.map Prod.snd) := by
  induction entries using List.reverseRecOn with
  | nil => exact .refl _
  | append_singleton entries entry ih =>
    rw [groupEntries_concat, List.map_append]
    refine (insertGroup_perm entry.1 entry.2 _).trans ?_
    refine (ih.cons entry.2).trans ?_
    exact (List.perm_append_singleton entry.2 _).symm

theorem groupEntries_ne_nil (entries : List (Key × Value)) :
    ∀ group ∈ groupEntries entries, group.2 ≠ [] := by
  induction entries using List.reverseRecOn with
  | nil => simp [groupEntries]
  | append_singleton entries entry ih =>
    rw [groupEntries_concat]
    exact insertGroup_ne_nil ih

def KeyOrdered (groups : List (Key × List Value)) : Prop :=
  groups.Pairwise fun left right => left.1 < right.1

theorem mem_keys_insertGroup {key other : Key} {value : Value} {groups : List (Key × List Value)}
    (hother : other ∈ (insertGroup key value groups).map Prod.fst) :
    other = key ∨ other ∈ groups.map Prod.fst := by
  induction groups with
  | nil =>
    rw [insertGroup, List.map_singleton, List.mem_singleton] at hother
    exact .inl hother
  | cons first rest ih =>
    obtain ⟨firstKey, values⟩ := first
    unfold insertGroup at hother
    split at hother
    next => exact .inr hother
    next =>
      split at hother
      next => exact (List.mem_cons.mp hother)
      next =>
        rcases List.mem_cons.mp hother with rfl | hrest
        · exact .inr (.head _)
        · exact (ih hrest).imp_right (List.mem_cons_of_mem _)

theorem keyOrdered_insertGroup {key : Key} {value : Value} {groups : List (Key × List Value)}
    (hgroups : KeyOrdered groups) : KeyOrdered (insertGroup key value groups) := by
  induction groups with
  | nil => exact List.pairwise_singleton _ _
  | cons first rest ih =>
    obtain ⟨firstKey, values⟩ := first
    obtain ⟨hfirst, hrest⟩ := List.pairwise_cons.mp hgroups
    unfold insertGroup
    split
    next => exact List.pairwise_cons.mpr ⟨hfirst, hrest⟩
    next hne =>
      split
      next hlt =>
        apply List.pairwise_cons.mpr
        refine ⟨?_, hgroups⟩
        intro group hgroup
        rcases List.mem_cons.mp hgroup with rfl | hgroup
        · exact hlt
        · exact lt_trans hlt (hfirst group hgroup)
      next hle =>
        apply List.pairwise_cons.mpr
        refine ⟨?_, ih hrest⟩
        intro group hgroup
        rcases mem_keys_insertGroup (List.mem_map_of_mem (f := Prod.fst) hgroup) with hkey | hold
        · rw [hkey]
          exact lt_of_le_of_ne (not_lt.mp hle) (Ne.symm hne)
        · obtain ⟨old, hold, heq⟩ := List.mem_map.mp hold
          rw [← heq]
          exact hfirst old hold

theorem keyOrdered_groupEntries (entries : List (Key × Value)) :
    KeyOrdered (groupEntries entries) := by
  induction entries using List.reverseRecOn with
  | nil => exact List.Pairwise.nil
  | append_singleton entries entry ih =>
    rw [groupEntries_concat]
    exact keyOrdered_insertGroup ih

def valuesAt (key : Key) (groups : List (Key × List Value)) : List Value :=
  (groups.filter (·.1 = key)).flatMap Prod.snd

theorem valuesAt_cons_self (key : Key) (values : List Value) (rest : List (Key × List Value)) :
    valuesAt key ((key, values) :: rest) = values ++ valuesAt key rest := by
  simp [valuesAt]

theorem valuesAt_cons_of_ne {key other : Key} (hne : other ≠ key) (values : List Value)
    (rest : List (Key × List Value)) :
    valuesAt key ((other, values) :: rest) = valuesAt key rest := by
  simp [valuesAt, hne]

theorem valuesAt_eq_nil {key : Key} {groups : List (Key × List Value)}
    (hgroups : ∀ group ∈ groups, key < group.1) : valuesAt key groups = [] := by
  have hnone : groups.filter (·.1 = key) = [] := by
    rw [List.filter_eq_nil_iff]
    intro group hgroup
    simpa using ne_of_gt (hgroups group hgroup)
  rw [valuesAt, hnone]
  rfl

theorem valuesAt_insertGroup {groups : List (Key × List Value)} (hgroups : KeyOrdered groups)
    (key other : Key) (value : Value) :
    valuesAt other (insertGroup key value groups) =
      valuesAt other groups ++ if key = other then [value] else [] := by
  induction groups with
  | nil =>
    unfold insertGroup
    split
    next hkey => simp [hkey, valuesAt]
    next hkey => rw [valuesAt_cons_of_ne hkey, List.append_nil]
  | cons first rest ih =>
    obtain ⟨firstKey, values⟩ := first
    obtain ⟨hfirst, hrest⟩ := List.pairwise_cons.mp hgroups
    unfold insertGroup
    split
    next hsame =>
      subst hsame
      split
      next hkey =>
        subst hkey
        rw [valuesAt_cons_self, valuesAt_cons_self, valuesAt_eq_nil hfirst, List.append_nil,
          List.append_nil]
      next hkey => rw [valuesAt_cons_of_ne hkey, valuesAt_cons_of_ne hkey, List.append_nil]
    next =>
      split
      next hlt =>
        split
        next hkey =>
          subst hkey
          have hlater : ∀ group ∈ (firstKey, values) :: rest, key < group.1 := by
            intro group hgroup
            rcases List.mem_cons.mp hgroup with rfl | hgroup
            · exact hlt
            · exact lt_trans hlt (hfirst group hgroup)
          rw [valuesAt_cons_self, valuesAt_eq_nil hlater, List.append_nil, List.nil_append]
        next hkey => rw [valuesAt_cons_of_ne hkey, List.append_nil]
      next =>
        rcases eq_or_ne firstKey other with rfl | hother
        · rw [valuesAt_cons_self, valuesAt_cons_self, ih hrest, List.append_assoc]
        · rw [valuesAt_cons_of_ne hother, valuesAt_cons_of_ne hother, ih hrest]

theorem valuesAt_groupEntries (entries : List (Key × Value)) (key : Key) :
    valuesAt key (groupEntries entries) = (entries.filter (·.1 = key)).map Prod.snd := by
  induction entries using List.reverseRecOn with
  | nil => rfl
  | append_singleton entries entry ih =>
    rw [groupEntries_concat, valuesAt_insertGroup (keyOrdered_groupEntries entries), ih,
      List.filter_append, List.map_append]
    congr 1
    by_cases hkey : entry.1 = key <;> simp [hkey]

theorem valuesAt_of_mem {groups : List (Key × List Value)} (hgroups : KeyOrdered groups)
    {group : Key × List Value} (hmem : group ∈ groups) : valuesAt group.1 groups = group.2 := by
  induction groups with
  | nil => cases hmem
  | cons first rest ih =>
    obtain ⟨hfirst, hrest⟩ := List.pairwise_cons.mp hgroups
    rcases List.mem_cons.mp hmem with rfl | hlater
    · rw [valuesAt_cons_self, valuesAt_eq_nil hfirst, List.append_nil]
    · rw [valuesAt_cons_of_ne (ne_of_lt (hfirst group hlater)), ih hrest hlater]

theorem group_eq {entries : List (Key × Value)} {group : Key × List Value}
    (hgroup : group ∈ groupEntries entries) :
    group.2 = (entries.filter (·.1 = group.1)).map Prod.snd := by
  rw [← valuesAt_groupEntries, valuesAt_of_mem (keyOrdered_groupEntries entries) hgroup]

theorem mem_group_iff {entries : List (Key × Value)} {group : Key × List Value}
    (hgroup : group ∈ groupEntries entries) {value : Value} :
    value ∈ group.2 ↔ (group.1, value) ∈ entries := by
  rw [group_eq hgroup]
  constructor
  · intro hvalue
    obtain ⟨⟨key, value⟩, hentry, rfl⟩ := List.mem_map.mp hvalue
    obtain ⟨hentry, hkey⟩ := List.mem_filter.mp hentry
    rw [← of_decide_eq_true hkey]
    exact hentry
  · intro hentry
    have hkept : (group.1, value) ∈ entries.filter (·.1 = group.1) :=
      List.mem_filter.mpr ⟨hentry, decide_eq_true rfl⟩
    exact List.mem_map_of_mem (f := Prod.snd) hkept

theorem exists_group {entries : List (Key × Value)} {key : Key} {value : Value}
    (hentry : (key, value) ∈ entries) :
    ∃ values, (key, values) ∈ groupEntries entries ∧ value ∈ values := by
  have hkept : (key, value) ∈ entries.filter (·.1 = key) :=
    List.mem_filter.mpr ⟨hentry, decide_eq_true rfl⟩
  have hvalue := List.mem_map_of_mem (f := Prod.snd) hkept
  rw [← valuesAt_groupEntries, valuesAt, List.mem_flatMap] at hvalue
  obtain ⟨⟨other, values⟩, hin, hmem⟩ := hvalue
  obtain ⟨hgroup, hkey⟩ := List.mem_filter.mp hin
  obtain rfl : other = key := of_decide_eq_true hkey
  exact ⟨values, hgroup, hmem⟩

end Entries

end Difflore.Foundation

import Mathlib.Data.List.Induction
import Mathlib.Data.List.Nodup

/-! # Rows that are stored once

A row arrives with the keys under which it would be taken for known. It is stored unless one of
them is taken. If the keys of different origins are kept apart, every origin is stored exactly
once, in whatever order and however often its rows arrive.
-/

namespace Difflore.Foundation

universe uRow uKey uOrigin

variable {Row : Type uRow} {Key : Type uKey} {Origin : Type uOrigin}

structure Arrival (Row : Type uRow) (Key : Type uKey) where
  lookups : List Key
  row : Row

variable [DecidableEq Key] (key : Row → Key)

def known (rows : List Row) (lookups : List Key) : Bool := rows.any fun row => key row ∈ lookups

def arrive (rows : List Row) (arrival : Arrival Row Key) : List Row :=
  if known key rows arrival.lookups then rows else rows ++ [arrival.row]

/-- A row that arrives later is taken for an earlier one exactly where the origin is the same. -/
def KeysApart (origin : Row → Origin) (arrivals : List (Arrival Row Key)) : Prop :=
  arrivals.Pairwise fun earlier later =>
    key earlier.row ∈ later.lookups ↔ origin earlier.row = origin later.row

structure StoredOnce (origin : Row → Origin) (arrivals : List (Arrival Row Key))
    (rows : List Row) : Prop where
  arrived : ∀ row ∈ rows, ∃ arrival ∈ arrivals, arrival.row = row
  distinct : (rows.map origin).Nodup
  all : ∀ arrival ∈ arrivals, ∃ row ∈ rows, origin row = origin arrival.row

variable {key} {origin : Row → Origin} {arrivals : List (Arrival Row Key)}

theorem StoredOnce.arrive {rows : List Row} {arrival : Arrival Row Key}
    (hstored : StoredOnce origin arrivals rows)
    (hapart : KeysApart key origin (arrivals ++ [arrival])) :
    StoredOnce origin (arrivals ++ [arrival]) (arrive key rows arrival) := by
  have hlast : arrival ∈ arrivals ++ [arrival] := List.mem_append_right _ (.head _)
  have hiff : ∀ row ∈ rows, key row ∈ arrival.lookups ↔ origin row = origin arrival.row := by
    intro row hrow
    obtain ⟨other, hother, rfl⟩ := hstored.arrived row hrow
    exact (List.pairwise_append.mp hapart).2.2 other hother arrival (.head _)
  have hkept : ∀ other ∈ arrivals, ∃ row ∈ Foundation.arrive key rows arrival,
      origin row = origin other.row := by
    intro other hother
    obtain ⟨row, hrow, horigin⟩ := hstored.all other hother
    refine ⟨row, ?_, horigin⟩
    unfold Foundation.arrive
    split
    next => exact hrow
    next => exact List.mem_append_left _ hrow
  unfold Foundation.arrive at hkept ⊢
  split at hkept
  next hknown =>
    rw [if_pos hknown]
    obtain ⟨row, hrow, hkey⟩ := List.any_eq_true.mp hknown
    refine ⟨?_, hstored.distinct, ?_⟩
    · intro row hrow
      obtain ⟨other, hother, heq⟩ := hstored.arrived row hrow
      exact ⟨other, List.mem_append_left _ hother, heq⟩
    · intro other hother
      rcases List.mem_append.mp hother with hother | hother
      · exact hkept other hother
      · obtain rfl := List.mem_singleton.mp hother
        exact ⟨row, hrow, (hiff row hrow).mp (of_decide_eq_true hkey)⟩
  next hunknown =>
    rw [if_neg hunknown]
    refine ⟨?_, ?_, ?_⟩
    · intro row hrow
      rcases List.mem_append.mp hrow with hrow | hrow
      · obtain ⟨other, hother, heq⟩ := hstored.arrived row hrow
        exact ⟨other, List.mem_append_left _ hother, heq⟩
      · exact ⟨arrival, hlast, (List.mem_singleton.mp hrow).symm⟩
    · rw [List.map_append, List.map_singleton]
      refine hstored.distinct.append (List.nodup_singleton _)
        (List.disjoint_singleton.mpr ?_)
      intro hmem
      obtain ⟨row, hrow, horigin⟩ := List.mem_map.mp hmem
      apply hunknown
      exact List.any_eq_true.mpr ⟨row, hrow, decide_eq_true ((hiff row hrow).mpr horigin)⟩
    · intro other hother
      rcases List.mem_append.mp hother with hother | hother
      · exact hkept other hother
      · obtain rfl := List.mem_singleton.mp hother
        exact ⟨_, List.mem_append_right _ (.head _), rfl⟩

theorem arrived_of_mem_foldl {row : Row} (hrow : row ∈ arrivals.foldl (arrive key) []) :
    ∃ arrival ∈ arrivals, arrival.row = row := by
  induction arrivals using List.reverseRecOn with
  | nil => exact absurd hrow List.not_mem_nil
  | append_singleton arrivals last ih =>
    rw [List.foldl_append, List.foldl_cons, List.foldl_nil] at hrow
    have hcases : row ∈ arrivals.foldl (arrive key) [] ∨ row = last.row := by
      unfold arrive at hrow
      split at hrow
      next => exact .inl hrow
      next =>
        rcases List.mem_append.mp hrow with hrow | hrow
        · exact .inl hrow
        · exact .inr (List.mem_singleton.mp hrow)
    rcases hcases with hold | rfl
    · obtain ⟨arrival, harrival, heq⟩ := ih hold
      exact ⟨arrival, List.mem_append_left _ harrival, heq⟩
    · exact ⟨last, List.mem_append_right _ (.head _), rfl⟩

theorem storedOnce_foldl (hapart : KeysApart key origin arrivals) :
    StoredOnce origin arrivals (arrivals.foldl (arrive key) []) := by
  induction arrivals using List.reverseRecOn with
  | nil =>
    refine ⟨?_, List.nodup_nil, ?_⟩ <;> intro row hrow <;> exact absurd hrow List.not_mem_nil
  | append_singleton arrivals arrival ih =>
    rw [List.foldl_append, List.foldl_cons, List.foldl_nil]
    apply StoredOnce.arrive _ hapart
    apply ih
    exact (List.pairwise_append.mp hapart).1

omit [DecidableEq Key] in
theorem StoredOnce.filter_origin [DecidableEq Origin] {rows : List Row}
    (hstored : StoredOnce origin arrivals rows) {row : Row} (hrow : row ∈ rows) :
    rows.filter (fun other => origin other = origin row) = [row] := by
  obtain ⟨before, after, rfl⟩ := List.append_of_mem hrow
  have hdistinct := hstored.distinct
  rw [List.map_append, List.map_cons, List.nodup_append, List.nodup_cons] at hdistinct
  obtain ⟨_, ⟨hafter, _⟩, hbefore⟩ := hdistinct
  have hnone : ∀ part : List Row, (∀ other ∈ part, origin other ≠ origin row) →
      part.filter (fun other => origin other = origin row) = [] := by
    intro part hpart
    apply List.filter_eq_nil_iff.mpr
    intro other hother
    simpa using hpart other hother
  rw [List.filter_append, List.filter_cons_of_pos (by simp), hnone before, hnone after]
  · rfl
  · intro other hother hsame
    exact hafter (List.mem_map.mpr ⟨other, hother, hsame⟩)
  · intro other hother hsame
    exact hbefore _ (List.mem_map_of_mem hother) _ (.head _) hsame

universe u

variable {α : Type u} [DecidableEq α]

def distinct (values : List α) : List α :=
  values.foldl (fun seen value => if value ∈ seen then seen else seen ++ [value]) []

theorem distinct_concat (values : List α) (value : α) : distinct (values ++ [value]) =
      if value ∈ distinct values then distinct values else distinct values ++ [value] := by
  unfold distinct
  rw [List.foldl_append]
  rfl

theorem mem_distinct {values : List α} {value : α} : value ∈ distinct values ↔ value ∈ values := by
  induction values using List.reverseRecOn with
  | nil => rfl
  | append_singleton values last ih =>
    rw [distinct_concat, List.mem_append, List.mem_singleton, ← ih]
    split
    next hlast =>
      constructor
      · exact Or.inl
      · intro hvalue
        rcases hvalue with hvalue | rfl
        · exact hvalue
        · exact hlast
    next => rw [List.mem_append, List.mem_singleton]

theorem nodup_distinct (values : List α) : (distinct values).Nodup := by
  induction values using List.reverseRecOn with
  | nil => exact List.nodup_nil
  | append_singleton values last ih =>
    rw [distinct_concat]
    split
    next => exact ih
    next hnew => exact ih.append (List.nodup_singleton last) (List.disjoint_singleton.mpr hnew)

theorem distinct_prefix_append (front back : List α) :
    distinct front <+: distinct (front ++ back) := by
  induction back using List.reverseRecOn with
  | nil => simp
  | append_singleton back last ih =>
    rw [← List.append_assoc, distinct_concat]
    split
    next => exact ih
    next => exact ih.trans (List.prefix_append _ _)

theorem mem_take_distinct {limit : Nat} {values : List α} {value : α} :
    value ∈ (distinct values).take limit ↔ ∃ front back, values = front ++ value :: back ∧
      value ∉ front ∧ (distinct front).length < limit := by
  have hsplit : ∀ front back : List α, value ∉ front →
      ∃ rest, distinct (front ++ value :: back) = distinct front ++ value :: rest := by
    intro front back hnew
    obtain ⟨rest, hrest⟩ := distinct_prefix_append (front ++ [value]) back
    rw [distinct_concat, if_neg (mt mem_distinct.mp hnew)] at hrest
    refine ⟨rest, ?_⟩
    rw [List.append_cons, ← hrest, List.append_assoc]
    rfl
  constructor
  · intro hmem
    obtain ⟨front, back, rfl, hnew⟩ :=
      List.eq_append_cons_of_mem (mem_distinct.mp (List.mem_of_mem_take hmem))
    obtain ⟨rest, hrest⟩ := hsplit front back hnew
    refine ⟨front, back, rfl, hnew, ?_⟩
    by_contra hlong
    rw [hrest, List.take_append_of_le_length (Nat.le_of_not_lt hlong)] at hmem
    exact hnew (mem_distinct.mp (List.mem_of_mem_take hmem))
  · rintro ⟨front, back, rfl, hnew, hshort⟩
    obtain ⟨rest, hrest⟩ := hsplit front back hnew
    obtain ⟨room, hroom⟩ := Nat.exists_eq_add_of_lt hshort
    rw [hrest, List.take_append, List.take_of_length_le (Nat.le_of_lt hshort), hroom]
    apply List.mem_append_right
    rw [Nat.add_assoc, Nat.add_sub_cancel_left]
    exact .head _

theorem length_distinct_le_one {values : List α} {value : α} (hall : ∀ v ∈ values, v = value) :
    (distinct values).length ≤ 1 := by
  have hkept : distinct values = [] ∨ distinct values = [value] := by
    induction values using List.reverseRecOn with
    | nil => exact .inl rfl
    | append_singleton values last ih =>
      have hlast := hall last (List.mem_append_right _ (.head _))
      subst hlast
      rw [distinct_concat]
      rcases ih fun v hv => hall v (List.mem_append_left _ hv) with hnone | hone
      · exact .inr (by rw [hnone]; rfl)
      · exact .inr (by rw [hone, if_pos (.head _)])
  rcases hkept with hnone | hone
  · rw [hnone]
    exact Nat.zero_le _
  · rw [hone]
    exact Nat.le_refl _

end Difflore.Foundation

import Mathlib.Data.List.Sort

/-! # The first so many of a sorted list

Values are sorted by a key that no two of them share. A value is among the first so many if
fewer have a smaller key, and what a search finds among these is the smallest match.
-/

namespace Difflore.Foundation

universe u v

variable {α : Type u} {β : Type v} [LinearOrder β] {key : α → β}

variable {limit : Nat} {value : α} {p : α → Bool}

def rank (key : α → β) (values : List α) (value : α) : Nat :=
  values.countP fun other => key other < key value

theorem rank_perm {values others : List α} (hperm : values.Perm others) (value : α) :
    rank key values value = rank key others value :=
  hperm.countP_eq _

theorem rank_lt_of_lt {values : List α} {first second : α} (hfirst : first ∈ values)
    (hlt : key first < key second) : rank key values first < rank key values second := by
  obtain ⟨front, back, rfl⟩ := List.append_of_mem hfirst
  have hle : ∀ part : List α, rank key part first ≤ rank key part second := fun part =>
    List.countP_mono_left fun other _ hother => by
      simp only [decide_eq_true_eq] at hother ⊢
      exact hother.trans hlt
  have hfront := hle front
  have hback := hle back
  simp only [rank, List.countP_append, List.countP_cons, lt_self_iff_false, decide_false, hlt,
    decide_true, Bool.false_eq_true, if_false, if_true] at hfront hback ⊢
  omega

section Sorted

variable {r : α → α → Prop} [DecidableRel r] {values : List α}

theorem rank_of_sorted {front back : List α}
    (hsorted : (front ++ value :: back).Pairwise fun a b => key a < key b) :
    rank key (front ++ value :: back) value = front.length := by
  obtain ⟨-, hback, hfront⟩ := List.pairwise_append.mp hsorted
  have hbefore : front.countP (fun other => key other < key value) = front.length := by
    rw [List.countP_eq_length]
    intro other hother
    exact decide_eq_true (hfront other hother value (.head _))
  have hafter : back.countP (fun other => key other < key value) = 0 := by
    rw [List.countP_eq_zero]
    intro other hother
    simpa using ((List.pairwise_cons.mp hback).1 other hother).le
  rw [rank, List.countP_append, List.countP_cons, hbefore, hafter]
  simp

theorem pairwise_lt_insertionSort (hkey : ∀ a b, r a b ↔ key a ≤ key b)
    (hnodup : (values.map key).Nodup) :
    (values.insertionSort r).Pairwise fun a b => key a < key b := by
  have htotal : Std.Total r := ⟨fun a b => by
    rw [hkey, hkey]
    exact le_total _ _⟩
  have htrans : IsTrans α r := ⟨fun a b c hab hbc => by
    rw [hkey] at hab hbc ⊢
    exact hab.trans hbc⟩
  have hsorted := List.pairwise_insertionSort r values
  have hdistinct : (values.insertionSort r).Pairwise fun a b => key a ≠ key b :=
    List.pairwise_map.mp (((List.perm_insertionSort r values).map key).nodup_iff.mpr hnodup)
  refine (hsorted.and hdistinct).imp ?_
  rintro a b ⟨hab, hne⟩
  exact lt_of_le_of_ne ((hkey a b).mp hab) hne

theorem mem_take_insertionSort (hkey : ∀ a b, r a b ↔ key a ≤ key b)
    (hnodup : (values.map key).Nodup) :
    value ∈ (values.insertionSort r).take limit ↔
      value ∈ values ∧ rank key values value < limit := by
  have hsorted := pairwise_lt_insertionSort hkey hnodup
  have hperm := List.perm_insertionSort r values
  rw [← hperm.mem_iff, ← rank_perm hperm]
  generalize values.insertionSort r = sorted at hsorted
  constructor
  · intro hmem
    obtain ⟨front, back, hsplit⟩ := List.append_of_mem hmem
    have hwhole : sorted = front ++ value :: (back ++ sorted.drop limit) := by
      rw [← List.cons_append, ← List.append_assoc, ← hsplit, List.take_append_drop]
    have hlength := congrArg List.length hsplit
    rw [List.length_append, List.length_cons, List.length_take] at hlength
    refine ⟨List.mem_of_mem_take hmem, ?_⟩
    rw [hwhole] at hsorted ⊢
    rw [rank_of_sorted hsorted]
    omega
  · rintro ⟨hmem, hrank⟩
    obtain ⟨front, back, rfl⟩ := List.append_of_mem hmem
    rw [rank_of_sorted hsorted] at hrank
    obtain ⟨room, rfl⟩ := Nat.exists_eq_add_of_lt hrank
    rw [List.take_append, List.take_of_length_le (by omega)]
    apply List.mem_append_right
    rw [Nat.add_assoc, Nat.add_sub_cancel_left]
    exact .head _

theorem find?_of_sorted {sorted : List α} (hsorted : sorted.Pairwise fun a b => key a < key b) :
    sorted.find? p = some value ↔
      value ∈ sorted ∧ p value = true ∧ ∀ other ∈ sorted, p other → key value ≤ key other := by
  constructor
  · intro hfind
    obtain ⟨hmatch, front, back, rfl, hnone⟩ := List.find?_eq_some_iff_append.mp hfind
    refine ⟨List.mem_append_right _ (.head _), hmatch, ?_⟩
    intro other hother hp
    rcases List.mem_append.mp hother with hfront | hback
    · have hfalse := hnone other hfront
      simp [hp] at hfalse
    · rcases List.mem_cons.mp hback with rfl | hback
      · exact le_rfl
      · exact ((List.pairwise_cons.mp (List.pairwise_append.mp hsorted).2.1).1 other hback).le
  · rintro ⟨hmem, hmatch, hleast⟩
    obtain ⟨front, back, rfl⟩ := List.append_of_mem hmem
    refine List.find?_eq_some_iff_append.mpr ⟨hmatch, front, back, rfl, ?_⟩
    intro other hother
    have hlt := (List.pairwise_append.mp hsorted).2.2 other hother value (.head _)
    have hnot : ¬ p other = true := fun hp =>
      absurd (hleast other (List.mem_append_left _ hother) hp) hlt.not_ge
    simpa using hnot

theorem find?_take_insertionSort (hkey : ∀ a b, r a b ↔ key a ≤ key b)
    (hnodup : (values.map key).Nodup) :
    ((values.insertionSort r).take limit).find? p = some value ↔
      (value ∈ values ∧ p value = true ∧ ∀ other ∈ values, p other → key value ≤ key other) ∧
        rank key values value < limit := by
  have hsorted := (pairwise_lt_insertionSort hkey hnodup).sublist (List.take_sublist limit _)
  rw [find?_of_sorted hsorted, mem_take_insertionSort hkey hnodup]
  constructor
  · rintro ⟨⟨hmem, hrank⟩, hmatch, hleast⟩
    refine ⟨⟨hmem, hmatch, ?_⟩, hrank⟩
    intro other hother hp
    by_contra hlt
    have hless := rank_lt_of_lt hother (not_le.mp hlt)
    exact hlt (hleast other
      ((mem_take_insertionSort hkey hnodup).mpr ⟨hother, hless.trans hrank⟩) hp)
  · rintro ⟨⟨hmem, hmatch, hleast⟩, hrank⟩
    exact ⟨⟨hmem, hrank⟩, hmatch, fun other hother hp =>
      hleast other ((mem_take_insertionSort hkey hnodup).mp hother).1 hp⟩

theorem find?_take_insertionSort_eq_none (hkey : ∀ a b, r a b ↔ key a ≤ key b)
    (hnodup : (values.map key).Nodup) :
    ((values.insertionSort r).take limit).find? p = none ↔
      ∀ value ∈ values, p value → limit ≤ rank key values value := by
  rw [List.find?_eq_none]
  simp only [mem_take_insertionSort hkey hnodup, and_imp, Bool.not_eq_true]
  constructor
  · intro hnone value hmem hmatch
    by_contra hrank
    simp [hnone value hmem (not_le.mp hrank)] at hmatch
  · intro hlate value hmem hrank
    by_contra hmatch
    exact absurd (hlate value hmem (by simpa using hmatch)) hrank.not_ge

theorem head?_insertionSort (hkey : ∀ a b, r a b ↔ key a ≤ key b)
    (hnodup : (values.map key).Nodup) :
    (values.insertionSort r).head? = some value ↔
      value ∈ values ∧ ∀ other ∈ values, key value ≤ key other := by
  have hhead : (values.insertionSort r).head? = (values.insertionSort r).find? fun _ => true := by
    cases values.insertionSort r <;> rfl
  rw [hhead, find?_of_sorted (pairwise_lt_insertionSort hkey hnodup)]
  simp [(List.perm_insertionSort r values).mem_iff]

end Sorted

end Difflore.Foundation

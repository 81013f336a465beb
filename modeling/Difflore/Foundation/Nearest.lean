import Mathlib.Data.List.Infix

/-! # The first of the least values, and the windows of a list

A scan that keeps its best value unless a later one is smaller ends with the first of the least
values, also when it scans the best values of several lists.
-/

namespace Difflore.Foundation

variable {α β : Type*}

variable {values : List α} {value : α}

section

variable (measure : α → Nat)

def lesser (best : Option α) (value : α) : α :=
  match best with
  | none => value
  | some prev => if measure value < measure prev then value else prev

def firstLeast (values : List α) : Option α :=
  values.foldl (fun best value => some (lesser measure best value)) none

def IsFirstLeast (values : List α) (value : α) : Prop :=
  ∃ front back, values = front ++ value :: back ∧ (∀ other ∈ front, measure value < measure other) ∧
      ∀ other ∈ back, measure value ≤ measure other

end

variable {measure : α → Nat}

theorem firstLeast_concat (values : List α) (value : α) : firstLeast measure (values ++ [value]) =
      some (lesser measure (firstLeast measure values) value) := by
  unfold firstLeast
  rw [List.foldl_concat]

theorem firstLeast_eq_none : firstLeast measure values = none ↔ values = [] := by
  rcases List.eq_nil_or_concat values with rfl | ⟨init, last, rfl⟩
  · exact ⟨fun _ => rfl, fun _ => rfl⟩
  · rw [List.concat_eq_append, firstLeast_concat]
    simp

theorem isFirstLeast_singleton (value : α) : IsFirstLeast measure [value] value :=
  ⟨[], [], rfl, by simp, by simp⟩

section

variable (hleast : IsFirstLeast measure values value)
include hleast

theorem IsFirstLeast.mem : value ∈ values := by
  obtain ⟨front, back, rfl, _⟩ := hleast
  exact List.mem_append_right _ (.head _)

theorem IsFirstLeast.le {other : α} (hother : other ∈ values) :
    measure value ≤ measure other := by
  obtain ⟨front, back, rfl, hfront, hback⟩ := hleast
  rcases List.mem_append.mp hother with hmem | hmem
  · exact (hfront other hmem).le
  · rcases List.mem_cons.mp hmem with rfl | hmem
    · exact le_rfl
    · exact hback other hmem

theorem IsFirstLeast.append {rest : List α}
    (hrest : ∀ other ∈ rest, measure value ≤ measure other) :
    IsFirstLeast measure (values ++ rest) value := by
  obtain ⟨front, back, rfl, hfront, hback⟩ := hleast
  refine ⟨front, back ++ rest, by simp, hfront, ?_⟩
  intro other hother
  rcases List.mem_append.mp hother with hmem | hmem
  · exact hback other hmem
  · exact hrest other hmem

theorem IsFirstLeast.append_left {start : List α}
    (hstart : ∀ other ∈ start, measure value < measure other) :
    IsFirstLeast measure (start ++ values) value := by
  obtain ⟨front, back, rfl, hfront, hback⟩ := hleast
  refine ⟨start ++ front, back, by simp, ?_, hback⟩
  intro other hother
  rcases List.mem_append.mp hother with hmem | hmem
  · exact hstart other hmem
  · exact hfront other hmem

end

theorem IsFirstLeast.lesser {rest : List α} {prev : α} (hprev : IsFirstLeast measure values prev)
    (hvalue : IsFirstLeast measure rest value) :
    IsFirstLeast measure (values ++ rest) (lesser measure (some prev) value) := by
  unfold Foundation.lesser
  dsimp only
  split
  next hless =>
    apply hvalue.append_left
    intro other hother
    exact lt_of_lt_of_le hless (hprev.le hother)
  next hnot =>
    apply hprev.append
    intro other hother
    exact le_trans (not_lt.mp hnot) (hvalue.le hother)

theorem isFirstLeast_firstLeast (hfound : firstLeast measure values = some value) :
    IsFirstLeast measure values value := by
  induction values using List.reverseRecOn generalizing value with
  | nil => contradiction
  | append_singleton values last ih =>
    rw [firstLeast_concat, Option.some.injEq] at hfound
    cases hprev : firstLeast measure values with
    | none =>
      rw [hprev] at hfound
      obtain rfl : last = value := hfound
      rw [firstLeast_eq_none.mp hprev]
      exact isFirstLeast_singleton last
    | some prev =>
      rw [hprev] at hfound
      rw [← hfound]
      exact (ih hprev).lesser (isFirstLeast_singleton last)

theorem IsFirstLeast.unique {other : α} (hleast : IsFirstLeast measure values value)
    (hother : IsFirstLeast measure values other) : value = other := by
  have hle := hother.le hleast.mem
  have hge := hleast.le hother.mem
  obtain ⟨front, back, rfl, hfront, -⟩ := hleast
  obtain ⟨first, last, hsplit, hfirst, -⟩ := hother
  rcases List.append_eq_append_iff.mp hsplit with ⟨mid, rfl, hmid⟩ | ⟨mid, rfl, hmid⟩
  · cases mid with
    | nil => exact (List.cons.inj hmid).1
    | cons c mid =>
      obtain ⟨rfl, -⟩ := List.cons.inj hmid
      exact absurd hge (hfirst _ (by simp)).not_ge
  · cases mid with
    | nil => exact (List.cons.inj hmid).1.symm
    | cons c mid =>
      obtain ⟨rfl, -⟩ := List.cons.inj hmid
      exact absurd hle (hfront _ (by simp)).not_ge

theorem IsFirstLeast.firstLeast_eq (hleast : IsFirstLeast measure values value) :
    firstLeast measure values = some value := by
  cases hfound : firstLeast measure values with
  | none => exact absurd (firstLeast_eq_none.mp hfound) (List.ne_nil_of_mem hleast.mem)
  | some found => rw [(isFirstLeast_firstLeast hfound).unique hleast]

theorem firstLeast_zero (values : List α) : firstLeast (fun _ => 0) values = values.head? := by
  cases hfound : firstLeast (fun _ => 0) values with
  | none => rw [firstLeast_eq_none.mp hfound, List.head?_nil]
  | some value =>
    obtain ⟨front, back, rfl, hfront, _⟩ := isFirstLeast_firstLeast hfound
    cases front with
    | nil => rfl
    | cons other rest => exact absurd (hfront other (.head _)) (lt_irrefl 0)

theorem isFirstLeast_flatMap {lists : List (List α)}
    (hfound : firstLeast measure (lists.filterMap (firstLeast measure)) = some value) :
    IsFirstLeast measure lists.flatten value := by
  induction lists using List.reverseRecOn generalizing value with
  | nil => contradiction
  | append_singleton lists last ih =>
    rw [List.filterMap_append] at hfound
    rw [List.flatten_concat]
    cases hlast : firstLeast measure last with
    | none =>
      have hnil : [last].filterMap (firstLeast measure) = [] := by simp [hlast]
      rw [hnil, List.append_nil] at hfound
      rw [firstLeast_eq_none.mp hlast, List.append_nil]
      exact ih hfound
    | some best =>
      have hbest : [last].filterMap (firstLeast measure) = [best] := by simp [hlast]
      rw [hbest, firstLeast_concat, Option.some.injEq] at hfound
      have hleast := isFirstLeast_firstLeast hlast
      cases hprev : firstLeast measure (lists.filterMap (firstLeast measure)) with
      | none =>
        rw [hprev] at hfound
        obtain rfl : best = value := hfound
        have hempty : lists.flatten = [] := by
          rw [List.flatten_eq_nil_iff]
          intro values hvalues
          have hnone := List.filterMap_eq_nil_iff.mp (firstLeast_eq_none.mp hprev) values
            hvalues
          exact firstLeast_eq_none.mp hnone
        rw [hempty, List.nil_append]
        exact hleast
      | some prev =>
        rw [hprev] at hfound
        rw [← hfound]
        exact (ih hprev).lesser hleast

theorem firstLeast_filterMap_eq_none {lists : List (List α)} :
    firstLeast measure (lists.filterMap (firstLeast measure)) = none ↔ lists.flatten = [] := by
  rw [firstLeast_eq_none, List.filterMap_eq_nil_iff, List.flatten_eq_nil_iff]
  exact forall₂_congr fun _ _ => firstLeast_eq_none

/-- The parts of a list, in order, that a map takes to the targets. -/
def matchingWindows [DecidableEq β] (f : α → β) (targets : List β) : List α → List (List α)
  | [] => []
  | first :: rest =>
    let window := (first :: rest).take targets.length
    if window.map f = targets then window :: matchingWindows f targets rest
    else matchingWindows f targets rest

theorem mem_matchingWindows [DecidableEq β] {f : α → β} {targets : List β} (hne : targets ≠ [])
    {window : List α} :
    window ∈ matchingWindows f targets values ↔ window <:+: values ∧ window.map f = targets := by
  have hwindow : ∀ {window : List α}, window.map f = targets → window ≠ [] := by
    rintro window hmap rfl
    exact hne hmap.symm
  have hskip : ∀ {first : α} {rest window : List α}, (window <:+: rest ∧ window.map f = targets) ∨
          (window = (first :: rest).take targets.length ∧ window.map f = targets) ↔
        window <:+: first :: rest ∧ window.map f = targets := by
    intro first rest window
    rw [List.infix_cons_iff]
    constructor
    · rintro (⟨hpart, hmap⟩ | ⟨rfl, hmap⟩)
      · exact ⟨.inr hpart, hmap⟩
      · exact ⟨.inl (List.take_prefix _ _), hmap⟩
    · rintro ⟨hstart | hpart, hmap⟩
      · right
        refine ⟨?_, hmap⟩
        rw [← hmap, List.length_map]
        exact List.prefix_iff_eq_take.mp hstart
      · exact .inl ⟨hpart, hmap⟩
  induction values with
  | nil =>
    rw [matchingWindows, List.infix_nil]
    constructor
    · intro hmem
      exact absurd hmem List.not_mem_nil
    · rintro ⟨rfl, hmap⟩
      exact absurd rfl (hwindow hmap)
  | cons first rest ih =>
    refine Iff.trans ?_ ((or_congr_left ih).trans hskip)
    rw [matchingWindows]
    split
    next hmap =>
      rw [List.mem_cons, or_comm, and_iff_left_of_imp]
      intro heq
      rw [heq]
      exact hmap
    next hmap =>
      constructor
      · exact .inl
      · rintro (hmem | ⟨rfl, hmatch⟩)
        · exact hmem
        · exact absurd hmatch hmap

theorem IsFirstLeast.of_map {γ : Type*} {f : γ → α} {measure : α → Nat} {values : List γ}
    (hleast : IsFirstLeast measure (values.map f) value) :
    ∃ origin, f origin = value ∧ IsFirstLeast (measure ∘ f) values origin := by
  obtain ⟨front, back, hvalues, hfront, hback⟩ := hleast
  obtain ⟨start, rest, rfl, rfl, hrest⟩ := List.map_eq_append_iff.mp hvalues
  obtain ⟨origin, ending, rfl, rfl, rfl⟩ := List.map_eq_cons_iff.mp hrest
  refine ⟨origin, rfl, start, ending, rfl, ?_, ?_⟩
  · intro other hother
    exact hfront (f other) (List.mem_map_of_mem hother)
  · intro other hother
    exact hback (f other) (List.mem_map_of_mem hother)

end Difflore.Foundation

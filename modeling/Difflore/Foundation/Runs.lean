import Mathlib.Computability.Language
import Mathlib.Data.List.TakeWhile

/-! # Maximal runs

The longest stretch of a class at the start of a list, and what becomes of it when the
list is cut.
-/

namespace Difflore.Foundation

variable {α : Type}

section Runs

variable {p : α → Bool} {first rest front tail : List α}

theorem takeWhile_append_of_head (hfirst : first.all p = true)
    (hrest : rest.head?.any p = false) : (first ++ rest).takeWhile p = first := by
  rw [List.takeWhile_append_of_pos (List.all_eq_true.mp hfirst)]
  cases rest with
  | nil => simp
  | cons c rest =>
    have hc : p c = false := hrest
    simp [hc]

theorem drop_length_takeWhile (p : α → Bool) (s : List α) :
    s.drop (s.takeWhile p).length = s.dropWhile p := by
  induction s with
  | nil => rfl
  | cons c rest ih =>
    rw [List.takeWhile_cons, List.dropWhile_cons]
    split
    next => exact ih
    next => rfl

theorem head_dropWhile (p : α → Bool) (s : List α) : (s.dropWhile p).head?.any p = false := by
  have hhead := List.head?_dropWhile_not p s
  cases hdrop : (s.dropWhile p).head? with
  | none => rfl
  | some c => simpa [hdrop] using hhead

theorem all_takeWhile (p : α → Bool) (s : List α) : (s.takeWhile p).all p = true :=
  List.all_eq_true.mpr fun _ hc => List.mem_takeWhile_imp hc

theorem prefix_of_cut {mark : α} {found : List α} (hmark : mark ∉ found)
    (hfound : found <+: front ++ mark :: tail) : found <+: front := by
  rcases Nat.lt_or_ge front.length found.length with hlong | hshort
  · have hmarked : front ++ [mark] <+: found := by
      refine List.prefix_of_prefix_length_le ⟨tail, by simp⟩ hfound ?_
      rw [List.length_append]
      exact hlong
    exact absurd (hmarked.subset (by simp)) hmark
  · exact List.prefix_of_prefix_length_le hfound (List.prefix_append _ _) hshort

end Runs

def atLeast (least : Nat) (p : α → Bool) : Language α :=
  {word | least ≤ word.length ∧ word.all p = true}

variable {α : Type} {Q : Option α → List α → Prop}

/-- The property holds at every place of the list that stands after the element. -/
def AtEach (Q : Option α → List α → Prop) : Option α → List α → Prop
  | _, [] => True
  | prev, c :: rest => Q prev (c :: rest) ∧ AtEach Q (some c) rest

def lastOr (prev : Option α) (s : List α) : Option α := s.getLast?.or prev

@[simp] theorem lastOr_nil (prev : Option α) : lastOr prev [] = prev := rfl

theorem lastOr_cons (prev : Option α) (c : α) (s : List α) :
    lastOr prev (c :: s) = lastOr (some c) s := by
  unfold lastOr
  rw [List.getLast?_cons]
  cases s.getLast? <;> rfl

theorem lastOr_of_ne_nil {s : List α} (hs : s ≠ []) (prev : Option α) :
    lastOr prev s = s.getLast? := by
  rw [lastOr, List.getLast?_eq_some_getLast hs]
  rfl

theorem lastOr_append (prev : Option α) (s t : List α) :
    lastOr prev (s ++ t) = lastOr (lastOr prev s) t := by
  unfold lastOr
  rw [List.getLast?_append, Option.or_assoc]

theorem atEach_append {prev : Option α} {s t : List α} : AtEach Q prev (s ++ t) ↔
      AtEach (fun p u => Q p (u ++ t)) prev s ∧ AtEach Q (lastOr prev s) t := by
  induction s generalizing prev with
  | nil => simp [AtEach]
  | cons c s ih =>
    rw [List.cons_append, AtEach, AtEach, ih, lastOr_cons, and_assoc]
    rfl

theorem atEach_iff {prev : Option α} {s : List α} :
    AtEach Q prev s ↔
      ∀ front c rest, s = front ++ c :: rest → Q (lastOr prev front) (c :: rest) := by
  induction s generalizing prev with
  | nil => simp [AtEach]
  | cons d s ih =>
    rw [AtEach, ih]
    constructor
    · rintro ⟨hhere, hthere⟩ front c rest hs
      cases front with
      | nil =>
        obtain ⟨rfl, rfl⟩ := List.cons.inj hs
        exact hhere
      | cons e front =>
        obtain ⟨rfl, htail⟩ := List.cons.inj hs
        rw [lastOr_cons]
        exact hthere front c rest htail
    · intro hall
      refine ⟨hall [] d s rfl, fun front c rest hs => ?_⟩
      rw [← lastOr_cons prev]
      exact hall (d :: front) c rest (by rw [hs]; rfl)

end Difflore.Foundation

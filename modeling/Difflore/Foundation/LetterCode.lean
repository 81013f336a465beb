import Mathlib.Data.List.Infix

/-! # Texts written letter by letter

A code writes each letter as a word that is not empty. A text is its own code only where each of
its letters is, and a needle whose letters are written as they are is found where it was.
-/

namespace Difflore.Foundation.LetterCode

variable {α : Type} {code : α → List α}

variable {s needle : List α} {a : α}

theorem length_le_flatMap (hcode : ∀ a, code a ≠ []) (s : List α) :
    s.length ≤ (s.flatMap code).length := by
  induction s with
  | nil => exact le_refl _
  | cons a s ih =>
    have hpos := List.length_pos_of_ne_nil (hcode a)
    rw [List.flatMap_cons, List.length_append, List.length_cons]
    omega

theorem flatMap_eq_self_iff (hcode : ∀ a, code a ≠ []) :
    s.flatMap code = s ↔ ∀ a ∈ s, code a = [a] := by
  induction s with
  | nil => simp
  | cons a s ih =>
    rw [List.flatMap_cons, List.forall_mem_cons, ← ih]
    constructor
    · intro hself
      -- a word of two letters would leave no room for the rest
      have hlength := congrArg List.length hself
      have hrest := length_le_flatMap hcode s
      cases hword : code a with
      | nil => exact absurd hword (hcode a)
      | cons b word =>
        rw [hword, List.length_append, List.length_cons, List.length_cons] at hlength
        obtain rfl : word = [] := List.eq_nil_of_length_eq_zero (by omega)
        rw [hword] at hself
        obtain ⟨rfl, htail⟩ := List.cons.inj hself
        exact ⟨rfl, htail⟩
    · rintro ⟨hword, htail⟩
      rw [hword, htail]
      rfl

/-- The letters of the needle are written as they are, and only they use them. -/
structure Keeps (code : α → List α) (needle : List α) : Prop where
  ne_nil : ∀ a, code a ≠ []
  plain : ∀ a ∈ needle, code a = [a]
  other : ∀ a, code a ≠ [a] → ∀ b ∈ code a, b ∉ needle

theorem Keeps.tail (hkeeps : Keeps code (a :: needle)) : Keeps code needle where
  ne_nil := hkeeps.ne_nil
  plain b hb := hkeeps.plain b (.tail _ hb)
  other b hb d hd hmem := hkeeps.other b hb d hd (.tail _ hmem)

theorem Keeps.prefix_iff (hkeeps : Keeps code needle) :
    needle <+: s.flatMap code ↔ needle <+: s := by
  induction needle generalizing s with
  | nil => simp
  | cons a needle ih =>
    cases s with
    | nil => simp
    | cons c s =>
      by_cases hplain : code c = [c]
      · rw [List.flatMap_cons, hplain, List.singleton_append, List.cons_prefix_cons,
          List.cons_prefix_cons, ih hkeeps.tail]
      · rw [List.flatMap_cons, List.cons_prefix_cons]
        cases hword : code c with
        | nil => exact absurd hword (hkeeps.ne_nil c)
        | cons b word =>
          rw [List.cons_append, List.cons_prefix_cons]
          have hb : b ∈ code c := hword ▸ (.head _)
          constructor
          · rintro ⟨rfl, -⟩
            exact absurd (.head _) (hkeeps.other c hplain _ hb)
          · rintro ⟨rfl, -⟩
            exact absurd (hkeeps.plain a (.head _)) hplain

theorem infix_append_iff {word : List α} (hword : a ∉ word) (s : List α) :
    a :: needle <:+: word ++ s ↔ a :: needle <:+: s := by
  induction word with
  | nil => rfl
  | cons b word ih =>
    rw [List.mem_cons, not_or] at hword
    obtain ⟨hne, hword⟩ := hword
    rw [List.cons_append, List.infix_cons_iff, ih hword, List.cons_prefix_cons]
    exact or_iff_right fun hhere => hne hhere.1

theorem Keeps.infix_iff (hkeeps : Keeps code (a :: needle)) :
    a :: needle <:+: s.flatMap code ↔ a :: needle <:+: s := by
  induction s with
  | nil => rfl
  | cons c s ih =>
    rw [List.infix_cons_iff, ← ih, ← hkeeps.prefix_iff (s := c :: s), List.flatMap_cons]
    by_cases hplain : code c = [c]
    · rw [hplain, List.singleton_append, List.infix_cons_iff]
    · have hword : a ∉ code c := fun hmem => hkeeps.other c hplain a hmem (.head _)
      rw [infix_append_iff hword, or_iff_right]
      intro hhere
      cases hcode : code c with
      | nil => exact hkeeps.ne_nil c hcode
      | cons b word =>
        rw [hcode, List.cons_append, List.cons_prefix_cons] at hhere
        exact hword (hcode ▸ hhere.1 ▸ (.head _))

end Difflore.Foundation.LetterCode

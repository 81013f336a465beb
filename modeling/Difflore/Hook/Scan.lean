import Difflore.Hook.Dispatch

/-! # Where a scan reads

A scan passes over what a reading takes in, so it does not read at every place of a text. It
reads at a place unless a reading further to the left takes in the characters up to it.
-/

namespace Difflore.Hook

open Foundation

variable {Found : Type} {read : Option Char → Text → Option (Nat × Option Found)}

/-- The character in front of a place, if the text in front of it is not empty. -/
def lastOr (prev : Option Char) (before : Text) : Option Char := before.getLast?.or prev

@[simp] theorem lastOr_nil (prev : Option Char) : lastOr prev [] = prev := rfl

@[simp] theorem lastOr_cons (prev : Option Char) (c : Char) (before : Text) :
    lastOr prev (c :: before) = lastOr (some c) before := by
  simp [lastOr, List.getLast?_cons]

@[simp] theorem lastOr_none (before : Text) : lastOr none before = before.getLast? := by
  simp [lastOr]

def reach (read : Option Char → Text → Option (Nat × Option Found)) (prev : Option Char)
    (s : Text) : Nat :=
  match read prev s with
  | none => 0
  | some (taken, _) => taken - 1

/-- Scanning on from here, with `skip` characters to be passed over, reads at what follows
the text in front. -/
def ReadsAt (read : Option Char → Text → Option (Nat × Option Found)) (after : Text) :
    Option Char → Nat → Text → Prop
  | _, 0, [] => True
  | _, _ + 1, [] => False
  | _, skip + 1, c :: before => ReadsAt read after (some c) skip before
  | prev, 0, c :: before =>
    ReadsAt read after (some c) (reach read prev (c :: (before ++ after))) before

theorem scanFrom_cons (prev : Option Char) (c : Char) (rest : Text) :
    scanFrom read prev 0 (c :: rest) = ((read prev (c :: rest)).bind Prod.snd).toList ++
      scanFrom read (some c) (reach read prev (c :: rest)) rest := by
  unfold reach
  rw [scanFrom]
  cases read prev (c :: rest) with
  | none => rfl
  | some found => rfl

theorem mem_scanFrom_iff {found : Found} (s : Text) (prev : Option Char) (skip : Nat) :
    found ∈ scanFrom read prev skip s ↔ ∃ before c rest, s = before ++ c :: rest ∧
      ReadsAt read (c :: rest) prev skip before ∧
      (read (lastOr prev before) (c :: rest)).bind Prod.snd = some found := by
  induction s generalizing prev skip with
  | nil =>
    constructor
    · intro hfound
      cases skip <;> simp [scanFrom] at hfound
    · rintro ⟨before, c, rest, hs, _⟩
      simp at hs
  | cons first s ih =>
    cases skip with
    | succ skip =>
      rw [scanFrom, ih]
      constructor
      · rintro ⟨before, c, rest, rfl, hreads, hread⟩
        exact ⟨first :: before, c, rest, rfl, hreads, by rwa [lastOr_cons]⟩
      · rintro ⟨before, c, rest, hs, hreads, hread⟩
        cases before with
        | nil => contradiction
        | cons first' before =>
          obtain ⟨rfl, rfl⟩ := List.cons.inj hs
          exact ⟨before, c, rest, rfl, hreads, by rwa [lastOr_cons] at hread⟩
    | zero =>
      rw [scanFrom_cons, List.mem_append, ih, Option.mem_toList]
      constructor
      · rintro (hread | ⟨before, c, rest, rfl, hreads, hread⟩)
        · exact ⟨[], first, s, rfl, trivial, hread⟩
        · exact ⟨first :: before, c, rest, rfl, hreads, by rwa [lastOr_cons]⟩
      · rintro ⟨before, c, rest, hs, hreads, hread⟩
        cases before with
        | nil =>
          obtain ⟨rfl, rfl⟩ := List.cons.inj hs
          exact .inl hread
        | cons first' before =>
          obtain ⟨rfl, rfl⟩ := List.cons.inj hs
          exact .inr ⟨before, c, rest, rfl, hreads, by rwa [lastOr_cons] at hread⟩

theorem not_readsAt_of_length_lt {after before : Text} {prev : Option Char} {skip : Nat}
    (hskip : before.length < skip) : ¬ ReadsAt read after prev skip before := by
  induction before generalizing prev skip with
  | nil =>
    cases skip with
    | zero => contradiction
    | succ skip => exact id
  | cons c before ih =>
    cases skip with
    | zero => contradiction
    | succ skip => exact ih (Nat.lt_of_succ_lt_succ hskip)

theorem readsAt_append {after first second : Text} {prev : Option Char} {skip : Nat}
    (hfirst : ReadsAt read (second ++ after) prev skip first) :
    ReadsAt read after prev skip (first ++ second) ↔
      ReadsAt read after (lastOr prev first) 0 second := by
  induction first generalizing prev skip with
  | nil =>
    cases skip with
    | zero => rfl
    | succ skip => contradiction
  | cons c first ih =>
    rw [lastOr_cons]
    cases skip with
    | succ skip => exact ih hfirst
    | zero =>
      have happend : first ++ (second ++ after) = first ++ second ++ after :=
        (List.append_assoc ..).symm
      rw [ReadsAt, happend] at hfirst
      exact ih hfirst

/-- A reading at the first place takes in the characters up to the second. -/
def JumpsOver (read : Option Char → Text → Option (Nat × Option Found)) (prev : Option Char)
    (between after : Text) : Prop :=
  between ≠ [] ∧ between.length ≤ reach read prev (between ++ after)

theorem readsAt_or_jumpsOver (read : Option Char → Text → Option (Nat × Option Found))
    (after before : Text) (prev : Option Char) (skip : Nat) :
    ReadsAt read after prev skip before ∨ before.length < skip ∨
      ∃ first between, before = first ++ between ∧ ReadsAt read (between ++ after) prev skip first ∧
        JumpsOver read (lastOr prev first) between after := by
  induction before generalizing prev skip with
  | nil =>
    cases skip with
    | zero => exact .inl trivial
    | succ skip => exact .inr (.inl (Nat.succ_pos skip))
  | cons c before ih =>
    cases skip with
    | succ skip =>
      rcases ih (some c) skip with hreads | hlength | ⟨first, between, rfl, hreads, hjump⟩
      · exact .inl hreads
      · exact .inr (.inl (Nat.succ_lt_succ hlength))
      · refine .inr (.inr ⟨c :: first, between, rfl, hreads, ?_⟩)
        rwa [lastOr_cons]
    | zero =>
      rcases ih (some c) (reach read prev (c :: (before ++ after))) with
        hreads | hlength | ⟨first, between, rfl, hreads, hjump⟩
      · exact .inl hreads
      · exact .inr (.inr ⟨[], c :: before, rfl, trivial, List.cons_ne_nil _ _, hlength⟩)
      · refine .inr (.inr ⟨c :: first, between, rfl, ?_, by rwa [lastOr_cons]⟩)
        rwa [List.append_assoc] at hreads

theorem readsAt_iff_not_jumpsOver (after before : Text) (prev : Option Char) :
    ReadsAt read after prev 0 before ↔ ¬ ∃ first between, before = first ++ between ∧
      ReadsAt read (between ++ after) prev 0 first ∧
      JumpsOver read (lastOr prev first) between after := by
  constructor
  · rintro hreads ⟨first, between, rfl, hfirst, hne, hlength⟩
    rw [readsAt_append hfirst] at hreads
    cases between with
    | nil => contradiction
    | cons c between => exact not_readsAt_of_length_lt hlength hreads
  · intro hnone
    rcases readsAt_or_jumpsOver read after before prev 0 with hreads | hlength | hjump
    · exact hreads
    · contradiction
    · exact absurd hjump hnone

end Difflore.Hook

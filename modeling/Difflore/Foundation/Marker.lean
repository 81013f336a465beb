import Mathlib.Data.List.DropRight
import Mathlib.Data.List.Infix

/-! # Markers in a text

Searching a text for fixed patterns. A pattern that cannot lie across a cut is
found in the two parts alone. Tags are patterns that open with a symbol, close
with another and have neither inside, so no two of them overlap; a section is what
stands between two tags that occur once each.
-/

namespace Difflore.Foundation

universe u

variable {α : Type u}

/-- The pattern does not start in the first text and end in the second. -/
def CleanCut (p s t : List α) : Prop := ∀ x y, x ≠ [] → y ≠ [] → p = x ++ y → x <:+ s → ¬ y <+: t

namespace CleanCut

variable {p s t : List α}

theorem infix_append_iff (hcut : CleanCut p s t) : p <:+: s ++ t ↔ p <:+: s ∨ p <:+: t := by
  rw [List.infix_append_iff_ne_nil]
  constructor
  · rintro (hs | ht | ⟨x, y, hx, hy, hp, hxs, hyt⟩)
    · exact .inl hs
    · exact .inr ht
    · exact absurd hyt (hcut x y hx hy hp hxs)
  · rintro (hs | ht)
    · exact .inl hs
    · exact .inr (.inl ht)

theorem prefix_append_iff (hcut : CleanCut p s t) (hs : s ≠ []) : p <+: s ++ t ↔ p <+: s := by
  refine ⟨fun hp => ?_, fun hp => hp.trans (List.prefix_append ..)⟩
  rcases List.prefix_or_prefix_of_prefix hp (List.prefix_append s t) with hps | ⟨y, rfl⟩
  · exact hps
  · by_cases hy : y = []
    · simp [hy]
    · have hyt : y <+: t := (List.prefix_append_right_inj s).mp hp
      exact absurd hyt (hcut s y hs hy rfl (List.suffix_refl s))

theorem of_cons {c : α} (hcut : CleanCut p (c :: s) t) : CleanCut p s t :=
  fun x y hx hy hp hxs => hcut x y hx hy hp (hxs.trans (List.suffix_cons c s))

end CleanCut

theorem cleanCut_of_head {c : α} (hc : c ∉ p.tail) (s t : List α) : CleanCut p s (c :: t) := by
  intro x y hx hy hp _ hyt
  cases x with
  | nil => contradiction
  | cons first x =>
    cases y with
    | nil => contradiction
    | cons next y =>
      obtain rfl := (List.cons_prefix_cons.mp hyt).1
      rw [hp] at hc
      simp at hc

theorem cleanCut_of_last {p : List α} {c : α} (hc : c ∉ p) (s t : List α) :
    CleanCut p (s ++ [c]) t := by
  intro x y hx _ hp hxs _
  have hlast : x.getLast hx = c := by
    rw [hxs.getLast hx, List.getLast_concat]
  apply hc
  rw [hp, ← hlast]
  exact List.mem_append_left y (List.getLast_mem hx)

/-! ## Searching -/

section Search

variable [DecidableEq α]

/-- Matches of a nonempty pattern from the left, none overlapping the one before;
`skip` symbols still belong to the last match. -/
def countMatchesFrom (p : List α) : Nat → List α → Nat
  | _, [] => 0
  | skip + 1, _ :: rest => countMatchesFrom p skip rest
  | 0, c :: rest =>
    if p <+: c :: rest then countMatchesFrom p (p.length - 1) rest + 1
    else countMatchesFrom p 0 rest

def countMatches (p s : List α) : Nat := countMatchesFrom p 0 s

def find (p : List α) : List α → Option Nat
  | [] => if p = [] then some 0 else none
  | c :: rest => if p <+: c :: rest then some 0 else (find p rest).map (· + 1)

variable {p s t : List α}

theorem countMatchesFrom_append {skip : Nat} (hskip : skip ≤ s.length) (hcut : CleanCut p s t) :
    countMatchesFrom p skip (s ++ t) = countMatchesFrom p skip s + countMatches p t := by
  induction s generalizing skip with
  | nil =>
    obtain rfl := Nat.le_zero.mp hskip
    simp [countMatchesFrom, countMatches]
  | cons c rest ih =>
    rw [List.cons_append]
    cases skip with
    | succ skip => exact ih (Nat.le_of_succ_le_succ hskip) hcut.of_cons
    | zero =>
      have hmatch : p <+: c :: (rest ++ t) ↔ p <+: c :: rest :=
        hcut.prefix_append_iff (List.cons_ne_nil c rest)
      unfold countMatchesFrom
      by_cases hp : p <+: c :: rest
      · have hlength : p.length - 1 ≤ rest.length := by
          have := hp.length_le
          rw [List.length_cons] at this
          omega
        rw [if_pos (hmatch.mpr hp), if_pos hp, ih hlength hcut.of_cons]
        omega
      · rw [if_neg (mt hmatch.mp hp), if_neg hp, ih (Nat.zero_le _) hcut.of_cons]

theorem countMatches_append (hcut : CleanCut p s t) :
    countMatches p (s ++ t) = countMatches p s + countMatches p t :=
  countMatchesFrom_append (Nat.zero_le _) hcut

/-- The parts between the matches; `current` is the reverse of the part being read,
`skip` symbols still belong to the last match. -/
def splitFrom (p : List α) : List α → Nat → List α → List (List α)
  | current, _, [] => [current.reverse]
  | current, skip + 1, _ :: rest => splitFrom p current skip rest
  | current, 0, c :: rest =>
    if p <+: c :: rest then current.reverse :: splitFrom p [] (p.length - 1) rest
    else splitFrom p (c :: current) 0 rest

def split (p s : List α) : List (List α) := splitFrom p [] 0 s

theorem splitFrom_skip (p current first second : List α) :
    splitFrom p current first.length (first ++ second) = splitFrom p current 0 second := by
  induction first with
  | nil => rfl
  | cons c rest ih => exact ih

theorem splitFrom_of_not_infix (hs : ¬ p <:+: s) (current : List α) :
    splitFrom p current 0 s = [current.reverse ++ s] := by
  induction s generalizing current with
  | nil => rw [splitFrom, List.append_nil]
  | cons c rest ih =>
    have hp : ¬ p <+: c :: rest := fun hp => hs hp.isInfix
    have hrest : ¬ p <:+: rest := fun hp => hs (List.infix_cons hp)
    rw [splitFrom, if_neg hp, ih hrest]
    simp

theorem split_of_not_infix (hs : ¬ p <:+: s) : split p s = [s] := splitFrom_of_not_infix hs []

theorem splitFrom_append (hp : p ≠ []) (hcut : CleanCut p s (p ++ t)) (hs : ¬ p <:+: s)
    (current : List α) :
    splitFrom p current 0 (s ++ (p ++ t)) = (current.reverse ++ s) :: split p t := by
  induction s generalizing current with
  | nil =>
    cases p with
    | nil => contradiction
    | cons first p =>
      rw [List.nil_append, List.cons_append, splitFrom, ← List.cons_append,
        if_pos (List.prefix_append _ _), List.append_nil, split]
      congr 1
      exact splitFrom_skip _ [] p t
  | cons c rest ih =>
    have hfirst : ¬ p <+: c :: (rest ++ (p ++ t)) := fun hmatch =>
      hs ((hcut.prefix_append_iff (List.cons_ne_nil c rest)).mp hmatch).isInfix
    have hrest : ¬ p <:+: rest := fun hmatch => hs (List.infix_cons hmatch)
    rw [List.cons_append, splitFrom, if_neg hfirst, ih hcut.of_cons hrest]
    simp

theorem split_append (hp : p ≠ []) (hcut : CleanCut p s (p ++ t)) (hs : ¬ p <:+: s) :
    split p (s ++ (p ++ t)) = s :: split p t := splitFrom_append hp hcut hs []

theorem countMatchesFrom_of_length_le {skip : Nat} (hskip : s.length ≤ skip) :
    countMatchesFrom p skip s = 0 := by
  induction s generalizing skip with
  | nil => simp [countMatchesFrom]
  | cons c rest ih =>
    cases skip with
    | zero => simp at hskip
    | succ skip => exact ih (Nat.le_of_succ_le_succ hskip)

theorem countMatches_self (hp : p ≠ []) : countMatches p p = 1 := by
  cases p with
  | nil => contradiction
  | cons c rest =>
    unfold countMatches countMatchesFrom
    rw [if_pos (List.prefix_refl _), countMatchesFrom_of_length_le (by simp)]

theorem countMatches_eq_zero_iff (hp : p ≠ []) : countMatches p s = 0 ↔ ¬ p <:+: s := by
  induction s with
  | nil => simp [countMatches, countMatchesFrom, hp]
  | cons c rest ih =>
    rw [List.infix_cons_iff]
    unfold countMatches countMatchesFrom
    by_cases hmatch : p <+: c :: rest
    · simp [hmatch]
    · rw [if_neg hmatch]
      exact ih.trans (by simp [hmatch])

theorem find_eq_none_iff : find p s = none ↔ ¬ p <:+: s := by
  induction s with
  | nil => simp [find]
  | cons c rest ih =>
    rw [List.infix_cons_iff]
    unfold find
    by_cases hmatch : p <+: c :: rest
    · simp [hmatch]
    · rw [if_neg hmatch, Option.map_eq_none_iff, ih]
      simp [hmatch]

theorem find_append_self (p t : List α) : find p (p ++ t) = some 0 := by
  cases h : p ++ t with
  | nil => simp [find, (List.append_eq_nil_iff.mp h).1]
  | cons c rest => exact if_pos (h ▸ List.prefix_append p t)

theorem find_append (hcut : CleanCut p s t) (hs : ¬ p <:+: s) :
    find p (s ++ t) = (find p t).map (s.length + ·) := by
  induction s with
  | nil => simp
  | cons c rest ih =>
    have hrest : ¬ p <:+: rest := fun hp => hs (List.infix_cons_iff.mpr (.inr hp))
    have hmatch : ¬ p <+: c :: (rest ++ t) := fun hp =>
      hs ((hcut.prefix_append_iff (List.cons_ne_nil c rest)).mp hp).isInfix
    rw [List.cons_append, find, if_neg hmatch, ih hcut.of_cons hrest, Option.map_map]
    exact congrArg (Option.map · _) (funext fun n => by simp; omega)

theorem eq_of_find {i : Nat} (hfind : find p s = some i) :
    ∃ start rest, s = start ++ (p ++ rest) ∧ start.length = i := by
  induction s generalizing i with
  | nil =>
    unfold find at hfind
    split at hfind
    next hp => exact ⟨[], [], by simp [hp], by simpa using hfind⟩
    next => contradiction
  | cons c tail ih =>
    unfold find at hfind
    split at hfind
    next hp =>
      obtain ⟨rest, hrest⟩ := hp
      exact ⟨[], rest, by simp [hrest], by simpa using hfind⟩
    next =>
      obtain ⟨j, hj, rfl⟩ := Option.map_eq_some_iff.mp hfind
      obtain ⟨start, rest, rfl, rfl⟩ := ih hj
      exact ⟨c :: start, rest, rfl, rfl⟩

theorem find_of_infix (hs : p <:+: s) :
    ∃ i, i + p.length ≤ s.length ∧ find p (s ++ t) = some i := by
  induction s with
  | nil =>
    obtain rfl := List.eq_nil_of_infix_nil hs
    exact ⟨0, le_rfl, find_append_self [] t⟩
  | cons c rest ih =>
    rw [List.cons_append, find]
    by_cases hmatch : p <+: c :: (rest ++ t)
    · refine ⟨0, ?_, if_pos hmatch⟩
      have hlength := hs.length_le
      omega
    · rcases List.infix_cons_iff.mp hs with hstart | hrest
      · exact absurd (hstart.trans (List.prefix_append _ t)) hmatch
      · obtain ⟨i, hi, hfind⟩ := ih hrest
        refine ⟨i + 1, ?_, by rw [if_neg hmatch, hfind]; rfl⟩
        rw [List.length_cons]
        omega

theorem find_middle_iff (hp : p ≠ []) :
    find p (s ++ (p ++ t)) = some s.length ↔ ¬ p <:+: (s ++ p).dropLast := by
  induction s with
  | nil =>
    simp only [List.nil_append, find_append_self, List.length_nil, true_iff]
    intro hin
    have hlength := hin.length_le
    rw [List.length_dropLast] at hlength
    have hpos := List.length_pos_iff.mpr hp
    omega
  | cons c s ih =>
    have hne : s ++ p ≠ [] := fun heq => hp (List.append_eq_nil_iff.mp heq).2
    have hcut : c :: (s ++ p).dropLast <+: c :: (s ++ (p ++ t)) := by
      rw [List.cons_prefix_cons]
      exact ⟨rfl, (List.dropLast_prefix _).trans ⟨t, List.append_assoc s p t⟩⟩
    rw [List.cons_append, List.cons_append, List.dropLast_cons_of_ne_nil hne, find,
      List.infix_cons_iff]
    by_cases hmatch : p <+: c :: (s ++ (p ++ t))
    · have hearly : p <+: c :: (s ++ p).dropLast := by
        apply List.prefix_of_prefix_length_le hmatch hcut
        rw [List.length_cons, List.length_dropLast, List.length_append]
        omega
      simp [hmatch, hearly]
    · have hlate : ¬ p <+: c :: (s ++ p).dropLast := fun hstart => hmatch (hstart.trans hcut)
      rw [if_neg hmatch, List.length_cons, or_iff_right hlate, ← ih]
      simp

end Search

/-- A pattern that opens with `left`, closes with `right` and has neither inside. -/
structure Tag (left right : α) where
  body : List α
  left_ne_right : left ≠ right
  left_not_mem : left ∉ body
  right_not_mem : right ∉ body

namespace Tag

variable {left right : α}

def symbols (tag : Tag left right) : List α := left :: (tag.body ++ [right])

variable (tag other : Tag left right) {x y s t : List α}

theorem symbols_ne_nil : tag.symbols ≠ [] := List.cons_ne_nil _ _

theorem getLast?_append_symbols : (s ++ tag.symbols).getLast? = some right := by
  rw [symbols, ← List.cons_append, ← List.append_assoc, List.getLast?_concat]

theorem left_mem (hx : x ≠ []) (hxy : tag.symbols = x ++ y) : left ∈ x := by
  cases x with
  | nil => contradiction
  | cons c x =>
    rw [(List.cons.inj hxy).1]
    exact .head _

theorem right_mem (hy : y ≠ []) (hxy : tag.symbols = x ++ y) : right ∈ y := by
  obtain ⟨start, c, rfl⟩ := (List.eq_nil_or_concat y).resolve_left hy
  have hlast : tag.symbols.getLast? = some right := tag.getLast?_append_symbols (s := [])
  rw [hxy, List.concat_eq_append, ← List.append_assoc, List.getLast?_concat] at hlast
  simp [Option.some.inj hlast]

theorem left_not_mem_of_append (hx : x ≠ []) (hxy : tag.symbols = x ++ y) : left ∉ y := by
  cases x with
  | nil => contradiction
  | cons c x =>
    have hrest : tag.body ++ [right] = x ++ y := (List.cons.inj hxy).2
    intro hmem
    have hbody : left ∈ tag.body ++ [right] := hrest ▸ List.mem_append_right x hmem
    rcases List.mem_append.mp hbody with hbody | hright
    · exact tag.left_not_mem hbody
    · exact tag.left_ne_right (List.mem_singleton.mp hright)

theorem right_not_mem_of_append (hy : y ≠ []) (hxy : tag.symbols = x ++ y) : right ∉ x := by
  obtain ⟨start, c, rfl⟩ := (List.eq_nil_or_concat y).resolve_left hy
  have hstart : left :: tag.body = x ++ start := by
    rw [symbols, List.concat_eq_append, ← List.append_assoc, ← List.cons_append] at hxy
    exact (List.append_inj' hxy rfl).1
  intro hmem
  have hbody : right ∈ left :: tag.body := hstart ▸ List.mem_append_left start hmem
  rcases List.mem_cons.mp hbody with hleft | hbody
  · exact tag.left_ne_right hleft.symm
  · exact tag.right_not_mem hbody

theorem cleanCut_of_left_not_mem (hs : left ∉ s) : CleanCut tag.symbols s t :=
  fun _ _ hx _ hxy hxs _ => hs (hxs.subset (tag.left_mem hx hxy))

theorem cleanCut_of_right_not_mem (ht : right ∉ t) : CleanCut tag.symbols s t :=
  fun _ _ _ hy hxy _ hyt => ht (hyt.subset (tag.right_mem hy hxy))

theorem cleanCut_symbols_append : CleanCut tag.symbols s (other.symbols ++ t) := by
  intro x y hx hy hxy _ hyt
  cases y with
  | nil => contradiction
  | cons c y =>
    have hc : c = left := (List.cons_prefix_cons.mp hyt).1
    exact tag.left_not_mem_of_append hx hxy (by simp [hc])

theorem cleanCut_append_symbols : CleanCut tag.symbols (s ++ other.symbols) t := by
  intro x y hx hy hxy hxs _
  obtain ⟨start, c, rfl⟩ := (List.eq_nil_or_concat x).resolve_left hx
  have hc : c = right := by
    obtain ⟨front, hfront⟩ := hxs
    have hlast := congrArg List.getLast? hfront
    rw [other.getLast?_append_symbols, List.concat_eq_append, ← List.append_assoc,
      List.getLast?_concat] at hlast
    exact Option.some.inj hlast
  exact tag.right_not_mem_of_append hy hxy (by simp [hc])

theorem cleanCut_symbols : CleanCut tag.symbols other.symbols t := by
  have hcut := tag.cleanCut_append_symbols other (s := []) (t := t)
  rwa [List.nil_append] at hcut

theorem not_infix_symbols {other : Tag left right} (hne : tag.symbols ≠ other.symbols) :
    ¬ tag.symbols <:+: other.symbols := by
  rintro ⟨front, back, heq⟩
  have hleft : left ∈ tag.symbols := .head _
  have hright : right ∈ tag.symbols := by simp [symbols]
  have hfront : front = [] := by
    by_contra hne
    rw [List.append_assoc] at heq
    exact other.left_not_mem_of_append hne heq.symm (List.mem_append_left _ hleft)
  have hback : back = [] := by
    by_contra hne
    exact other.right_not_mem_of_append hne heq.symm (List.mem_append_right _ hright)
  exact hne (by simpa [hfront, hback] using heq)

end Tag

/-! ## Texts without tags -/

section Free

variable {left right : α}

def Free (tags : List (Tag left right)) (s : List α) : Prop := ∀ tag ∈ tags, ¬ tag.symbols <:+: s

variable {tags : List (Tag left right)} {s t : List α}

theorem free_append_iff (hcut : ∀ tag ∈ tags, CleanCut tag.symbols s t) :
    Free tags (s ++ t) ↔ Free tags s ∧ Free tags t := by
  constructor
  · intro hfree
    exact ⟨fun tag htag hs => hfree tag htag ((hcut tag htag).infix_append_iff.mpr (.inl hs)),
      fun tag htag ht => hfree tag htag ((hcut tag htag).infix_append_iff.mpr (.inr ht))⟩
  · rintro ⟨hs, ht⟩ tag htag hst
    rcases (hcut tag htag).infix_append_iff.mp hst with hin | hin
    · exact hs tag htag hin
    · exact ht tag htag hin

theorem free_of_left_not_mem (hs : left ∉ s) : Free tags s :=
  fun _ _ hin => hs (hin.subset (.head _))

theorem free_of_right_not_mem (hs : right ∉ s) : Free tags s :=
  fun tag _ hin => hs (hin.subset (by simp [Tag.symbols]))

@[simp] theorem free_nil : Free tags [] := free_of_left_not_mem List.not_mem_nil

theorem free_append_of_left_not_mem (hs : left ∉ s) : Free tags (s ++ t) ↔ Free tags t := by
  rw [free_append_iff fun tag _ => tag.cleanCut_of_left_not_mem hs]
  exact and_iff_right (free_of_left_not_mem hs)

theorem free_append_of_right_not_mem (ht : right ∉ t) : Free tags (s ++ t) ↔ Free tags s := by
  rw [free_append_iff fun tag _ => tag.cleanCut_of_right_not_mem ht]
  exact and_iff_left (free_of_right_not_mem ht)

variable [DecidableEq α]

instance : Decidable (Free tags s) :=
  inferInstanceAs (Decidable (∀ tag ∈ tags, ¬ tag.symbols <:+: s))

/-- A text free of tags that none can lie across: in front of its first `right` and
behind its last `left` it has a symbol that is in no tag. -/
structure Fence (tags : List (Tag left right)) (l : List α) : Prop where
  free : Free tags l
  closed : ∃ c ∈ l.takeWhile (· ≠ right), ∀ tag ∈ tags, c ∉ tag.symbols
  opened : ∃ c ∈ l.rtakeWhile (· ≠ left), ∀ tag ∈ tags, c ∉ tag.symbols

instance {l : List α} : Decidable (Fence tags l) :=
  decidable_of_iff (Free tags l ∧ (∃ c ∈ l.takeWhile (· ≠ right), ∀ tag ∈ tags, c ∉ tag.symbols) ∧
      ∃ c ∈ l.rtakeWhile (· ≠ left), ∀ tag ∈ tags, c ∉ tag.symbols)
    ⟨fun ⟨hfree, hclosed, hopened⟩ => ⟨hfree, hclosed, hopened⟩,
      fun ⟨hfree, hclosed, hopened⟩ => ⟨hfree, hclosed, hopened⟩⟩

namespace Fence

variable {l : List α}

section

variable (hfence : Fence tags l)
include hfence

theorem cleanCut_append {tag : Tag left right} (htag : tag ∈ tags) :
    CleanCut tag.symbols s (l ++ t) := by
  intro x y _ hy hxy _ hyt
  obtain ⟨c, hc, hforeign⟩ := hfence.closed
  have hfront : l.takeWhile (· ≠ right) <+: l ++ t :=
    (List.takeWhile_prefix _).trans (List.prefix_append l t)
  rcases List.prefix_or_prefix_of_prefix hyt hfront with hin | hin
  · have hright := List.mem_takeWhile_imp (hin.subset (tag.right_mem hy hxy))
    simp at hright
  · exact hforeign tag htag (hxy ▸ List.mem_append_right x (hin.subset hc))

theorem append_cleanCut {tag : Tag left right} (htag : tag ∈ tags) :
    CleanCut tag.symbols (s ++ l) t := by
  intro x y hx _ hxy hxs _
  obtain ⟨c, hc, hforeign⟩ := hfence.opened
  have hback : l.rtakeWhile (· ≠ left) <:+ s ++ l :=
    (List.rtakeWhile_suffix _ l).trans (List.suffix_append s l)
  rcases List.suffix_or_suffix_of_suffix hxs hback with hin | hin
  · have hleft := List.mem_rtakeWhile_imp (hin.subset (tag.left_mem hx hxy))
    simp at hleft
  · exact hforeign tag htag (hxy ▸ List.mem_append_left y (hin.subset hc))

theorem free_append_iff : Free tags (l ++ t) ↔ Free tags t := by
  have hcut : ∀ tag ∈ tags, CleanCut tag.symbols l t := fun tag htag =>
    hfence.append_cleanCut htag (s := [])
  rw [Foundation.free_append_iff hcut]
  exact and_iff_right hfence.free

theorem free_iff :
    Free tags (s ++ (l ++ t)) ↔ Free tags s ∧ Free tags t := by
  rw [Foundation.free_append_iff fun tag htag => hfence.cleanCut_append htag,
    hfence.free_append_iff]

theorem append_free_iff : Free tags (s ++ l) ↔ Free tags s := by
  have hiff := hfence.free_iff (s := s) (t := [])
  rw [List.append_nil] at hiff
  exact hiff.trans (and_iff_left free_nil)

theorem free_intercalate_iff {texts : List (List α)} :
    Free tags (l.intercalate texts) ↔ ∀ text ∈ texts, Free tags text := by
  induction texts with
  | nil => simp [List.intercalate]
  | cons text rest ih =>
    cases rest with
    | nil => simp [List.intercalate]
    | cons next rest =>
      have hjoin : l.intercalate (text :: next :: rest) =
          text ++ (l ++ l.intercalate (next :: rest)) := by
        simp [List.intercalate, List.intersperse]
      rw [hjoin, hfence.free_iff, ih, List.forall_mem_cons (l := next :: rest)]

end

end Fence

theorem Fence.literal {left right : Char} {tags : List (Tag left right)} {l : List Char}
    (hfence : Fence tags l) : Fence tags (String.ofList l).toList := by
  rwa [String.toList_ofList]

theorem Fence.literals {left right : Char} {tags : List (Tag left right)} {l l' : List Char}
    (hfence : Fence tags (l ++ l')) :
    Fence tags ((String.ofList l).toList ++ (String.ofList l').toList) := by
  rwa [String.toList_ofList, String.toList_ofList]

end Free

/-! ## Sections -/

section Sections

variable {left right : α} {o c : Tag left right}

def enclose (o c : Tag left right) (inner : List α) : List α := o.symbols ++ (inner ++ c.symbols)

structure Sectioned (o c : Tag left right) where
  before : List α
  inner : List α
  after : List α
  before_free : Free [o, c] before
  inner_free : Free [o, c] inner
  after_free : Free [o, c] after

theorem Free.not_opening {s : List α} (hfree : Free [o, c] s) : ¬ o.symbols <:+: s :=
  hfree o (.head _)

theorem Free.not_closing {s : List α} (hfree : Free [o, c] s) : ¬ c.symbols <:+: s :=
  hfree c (.tail _ (.head _))

theorem free_pair {s : List α} (hopening : ¬ o.symbols <:+: s) (hclosing : ¬ c.symbols <:+: s) :
    Free [o, c] s := by
  intro tag htag
  rcases List.mem_cons.mp htag with rfl | htag
  · exact hopening
  · exact List.mem_singleton.mp htag ▸ hclosing

variable [DecidableEq α]

theorem countMatches_enclose (hne : o.symbols ≠ c.symbols) {tag : Tag left right}
    (htag : tag ∈ [o, c]) (inner : List α) :
    countMatches tag.symbols (enclose o c inner) = countMatches tag.symbols inner + 1 := by
  have hinner := countMatches_append (tag.cleanCut_symbols_append c (s := inner) (t := []))
  rw [List.append_nil] at hinner
  have hother : ∀ {a b : Tag left right}, a.symbols ≠ b.symbols →
      countMatches a.symbols b.symbols = 0 := fun {a _} hab =>
    (countMatches_eq_zero_iff a.symbols_ne_nil).mpr (a.not_infix_symbols hab)
  rw [enclose, countMatches_append (tag.cleanCut_symbols o), hinner]
  rcases List.mem_cons.mp htag with rfl | htag
  · rw [countMatches_self tag.symbols_ne_nil, hother hne]
    omega
  · obtain rfl := List.mem_singleton.mp htag
    rw [countMatches_self tag.symbols_ne_nil, hother hne.symm]
    omega

theorem countMatches_around (hne : o.symbols ≠ c.symbols) {tag : Tag left right}
    (htag : tag ∈ [o, c]) (before inner after : List α) :
    countMatches tag.symbols (before ++ (enclose o c inner ++ after)) =
      countMatches tag.symbols before +
        (countMatches tag.symbols inner + 1 + countMatches tag.symbols after) := by
  have hafter : CleanCut tag.symbols (enclose o c inner) after := by
    unfold enclose
    rw [← List.append_assoc]
    exact tag.cleanCut_append_symbols c
  have hbefore : CleanCut tag.symbols before (enclose o c inner ++ after) := by
    unfold enclose
    rw [List.append_assoc]
    exact tag.cleanCut_symbols_append o
  rw [countMatches_append hbefore, countMatches_append hafter, countMatches_enclose hne htag]

namespace Sectioned

variable (sec : Sectioned o c)

def block : List α := enclose o c sec.inner

def text : List α := sec.before ++ (sec.block ++ sec.after)

theorem countMatches_text (hne : o.symbols ≠ c.symbols) {tag : Tag left right}
    (htag : tag ∈ [o, c]) : countMatches tag.symbols sec.text = 1 := by
  have hzero : ∀ {s}, Free [o, c] s → countMatches tag.symbols s = 0 := fun hfree =>
    (countMatches_eq_zero_iff tag.symbols_ne_nil).mpr (hfree tag htag)
  rw [text, block, countMatches_around hne htag, hzero sec.before_free, hzero sec.inner_free,
    hzero sec.after_free]

theorem find_opening : find o.symbols sec.text = some sec.before.length := by
  rw [text, block, enclose, List.append_assoc,
    find_append (o.cleanCut_symbols_append o) sec.before_free.not_opening, find_append_self]
  rfl

theorem find_closing (hne : o.symbols ≠ c.symbols) : find c.symbols sec.text =
      some (sec.before.length + (o.symbols.length + sec.inner.length)) := by
  rw [text, block, enclose, List.append_assoc, List.append_assoc,
    find_append (c.cleanCut_symbols_append o) sec.before_free.not_closing,
    find_append (c.cleanCut_symbols o) (c.not_infix_symbols hne.symm),
    find_append (c.cleanCut_symbols_append c) sec.inner_free.not_closing, find_append_self]
  rfl

theorem exists_of_find {s : List α} {i j : Nat} (hne : o.symbols ≠ c.symbols)
    (hcount : ∀ tag ∈ [o, c], countMatches tag.symbols s ≤ 1)
    (hopening : find o.symbols s = some i) (hclosing : find c.symbols s = some j)
    (hij : i < j) : ∃ sec : Sectioned o c, sec.text = s := by
  obtain ⟨before, rest, rfl, rfl⟩ := eq_of_find hopening
  have hbefore : ¬ c.symbols <:+: before := by
    intro hin
    obtain ⟨k, hk, hfind⟩ := find_of_infix (t := o.symbols ++ rest) hin
    have hkj := Option.some.inj (hfind.symm.trans hclosing)
    have hpos := List.length_pos_iff.mpr c.symbols_ne_nil
    omega
  rw [find_append (c.cleanCut_symbols_append o) hbefore,
    find_append (c.cleanCut_symbols o) (c.not_infix_symbols hne.symm),
    Option.map_map] at hclosing
  obtain ⟨k, hk, -⟩ := Option.map_eq_some_iff.mp hclosing
  obtain ⟨inner, after, rfl, rfl⟩ := eq_of_find hk
  have htext : before ++ (o.symbols ++ (inner ++ (c.symbols ++ after))) =
      before ++ (enclose o c inner ++ after) := by
    simp only [enclose, List.append_assoc]
  have hzero : ∀ tag ∈ [o, c], countMatches tag.symbols before = 0 ∧
      countMatches tag.symbols inner = 0 ∧ countMatches tag.symbols after = 0 := by
    intro tag htag
    have hle := hcount tag htag
    rw [htext, countMatches_around hne htag] at hle
    omega
  have hfree : ∀ {part : List α}, (∀ tag ∈ [o, c], countMatches tag.symbols part = 0) →
      Free [o, c] part := fun hpart tag htag =>
    (countMatches_eq_zero_iff tag.symbols_ne_nil).mp (hpart tag htag)
  exact ⟨⟨before, inner, after, hfree fun tag htag => (hzero tag htag).1,
    hfree fun tag htag => (hzero tag htag).2.1, hfree fun tag htag => (hzero tag htag).2.2⟩,
    htext.symm⟩

end Sectioned

end Sections

end Difflore.Foundation

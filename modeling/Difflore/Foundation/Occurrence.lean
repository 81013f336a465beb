import Difflore.Foundation.Lines
import Difflore.Foundation.Marker

/-! # Where a text occurs

The first occurrence of a needle cuts a text in two. The last line of a text is what follows its
last line feed.
-/

namespace Difflore.Foundation

namespace Text

variable {c : Char} {needle before rest s last t : Text}

/-- What stands in front of the first occurrence of the needle, and the rest from there on. -/
def splitAtFirst (needle : Text) : Text → Option (Text × Text)
  | [] => if needle = [] then some ([], []) else none
  | c :: rest =>
    if needle <+: c :: rest then some ([], c :: rest)
    else (splitAtFirst needle rest).map fun cut => (c :: cut.1, cut.2)

def FirstAt (needle before rest : Text) : Prop :=
  needle <+: rest ∧ ∀ front back, before = front ++ back → back ≠ [] → ¬ needle <+: back ++ rest

theorem firstAt_cons : FirstAt needle (c :: before) rest ↔
      FirstAt needle before rest ∧ ¬ needle <+: c :: (before ++ rest) := by
  constructor
  · rintro ⟨hhere, hfirst⟩
    refine ⟨⟨hhere, ?_⟩, hfirst [] (c :: before) rfl (List.cons_ne_nil _ _)⟩
    intro front back hbefore hback
    exact hfirst (c :: front) back (by rw [hbefore]; rfl) hback
  · rintro ⟨⟨hhere, hfirst⟩, hnot⟩
    refine ⟨hhere, ?_⟩
    intro front back hbefore hback
    cases front with
    | nil =>
      obtain rfl : c :: before = back := hbefore
      exact hnot
    | cons d front =>
      obtain ⟨rfl, rfl⟩ := List.cons.inj hbefore
      exact hfirst front back rfl hback

theorem splitAtFirst_eq_some (hne : needle ≠ []) : splitAtFirst needle s = some (before, rest) ↔
      s = before ++ rest ∧ FirstAt needle before rest := by
  induction s generalizing before with
  | nil =>
    rw [splitAtFirst, if_neg hne]
    constructor
    · intro hnone
      contradiction
    · rintro ⟨hnil, hhere, -⟩
      obtain ⟨-, rfl⟩ := List.append_eq_nil_iff.mp hnil.symm
      exact absurd (List.prefix_nil.mp hhere) hne
  | cons c s ih =>
    unfold splitAtFirst
    split
    next hhere =>
      constructor
      · intro hsome
        obtain ⟨rfl, rfl⟩ := Prod.mk.inj (Option.some.inj hsome)
        refine ⟨rfl, hhere, ?_⟩
        intro front back hbefore hback
        exact absurd (List.append_eq_nil_iff.mp hbefore.symm).2 hback
      · rintro ⟨hsplit, -, hfirst⟩
        cases before with
        | nil => rw [hsplit, List.nil_append]
        | cons d before =>
          refine absurd ?_ (hfirst [] (d :: before) rfl (List.cons_ne_nil _ _))
          rwa [← hsplit]
    next hnot =>
      constructor
      · intro hsome
        obtain ⟨⟨front, back⟩, hcut, heq⟩ := Option.map_eq_some_iff.mp hsome
        obtain ⟨rfl, rfl⟩ := Prod.mk.inj heq
        obtain ⟨rfl, hfirst⟩ := ih.mp hcut
        exact ⟨rfl, firstAt_cons.mpr ⟨hfirst, hnot⟩⟩
      · rintro ⟨hsplit, hfirst⟩
        cases before with
        | nil =>
          rw [List.nil_append] at hsplit
          exact absurd (hsplit ▸ hfirst.1) hnot
        | cons d before =>
          obtain ⟨rfl, rfl⟩ := List.cons.inj hsplit
          rw [ih.mpr ⟨rfl, (firstAt_cons.mp hfirst).1⟩]
          rfl

/-- A first occurrence stays the first when the text goes on, or when something without an
occurrence is put in front. -/
theorem FirstAt.extend (hfirst : FirstAt needle before rest) (more : Text) :
    FirstAt needle before (rest ++ more) := by
  obtain ⟨hhere, hfirst⟩ := hfirst
  refine ⟨hhere.trans (List.prefix_append _ _), ?_⟩
  intro front back hbefore hback hearly
  apply hfirst front back hbefore hback
  rw [← List.append_assoc] at hearly
  apply List.prefix_of_prefix_length_le hearly (List.prefix_append _ _)
  have hlength := hhere.length_le
  rw [List.length_append]
  omega

theorem FirstAt.cons (hfirst : FirstAt needle before rest) (hc : needle.head? ≠ some c)
    (hne : needle ≠ []) : FirstAt needle (c :: before) rest := by
  refine firstAt_cons.mpr ⟨hfirst, ?_⟩
  intro hearly
  obtain ⟨d, needle, rfl⟩ := List.exists_cons_of_ne_nil hne
  obtain ⟨more, hmore⟩ := hearly
  exact hc (congrArg some (List.cons.inj hmore).1)

theorem FirstAt.append (hfirst : FirstAt needle before rest) {lead : Text}
    (hlead : ∀ c ∈ lead, needle.head? ≠ some c) (hne : needle ≠ []) :
    FirstAt needle (lead ++ before) rest := by
  induction lead with
  | nil => exact hfirst
  | cons c lead ih =>
    have hrest : ∀ c ∈ lead, needle.head? ≠ some c :=
      fun d hd => hlead d (.tail _ hd)
    exact (ih hrest).cons (hlead c (.head _)) hne

/-- What stands in front of the last occurrence of the needle, and what follows it. -/
def rsplitOnce (needle : Text) : Text → Option (Text × Text)
  | [] => (stripPrefix needle []).map fun rest => ([], rest)
  | c :: s =>
    ((rsplitOnce needle s).map fun cut => (c :: cut.1, cut.2)).or
      ((stripPrefix needle (c :: s)).map fun rest => ([], rest))

theorem stripPrefix_eq_none {start : Text} : stripPrefix start s = none ↔ ¬ start <+: s := by
  constructor
  · rintro hnone ⟨rest, rfl⟩
    rw [stripPrefix_append] at hnone
    contradiction
  · intro hnot
    cases hstrip : stripPrefix start s with
    | none => rfl
    | some rest => exact absurd ⟨rest, (stripPrefix_eq_some hstrip).symm⟩ hnot

theorem rsplitOnce_eq_none : rsplitOnce needle s = none ↔ ¬ needle <:+: s := by
  induction s with
  | nil =>
    rw [rsplitOnce, Option.map_eq_none_iff, stripPrefix_eq_none, List.infix_nil, List.prefix_nil]
  | cons c s ih =>
    rw [rsplitOnce, Option.or_eq_none_iff, Option.map_eq_none_iff, Option.map_eq_none_iff, ih,
      stripPrefix_eq_none, List.infix_cons_iff, not_or, and_comm]

theorem rsplitOnce_append (hoccurs : needle <:+: s) (front : Text) :
    rsplitOnce needle (front ++ s) =
      (rsplitOnce needle s).map fun cut => (front ++ cut.1, cut.2) := by
  have hsome := mt rsplitOnce_eq_none.mp (not_not_intro hoccurs)
  obtain ⟨cut, hcut⟩ := Option.ne_none_iff_exists'.mp hsome
  induction front with
  | nil => rw [List.nil_append, hcut]; rfl
  | cons c front ih =>
    rw [List.cons_append, rsplitOnce, ih, hcut]
    rfl

theorem rsplitOnce_eq_some (hne : needle ≠ []) (hcut : rsplitOnce needle s = some (before, rest)) :
    s = before ++ (needle ++ rest) ∧ ¬ needle <:+: rest := by
  induction s generalizing before with
  | nil =>
    obtain ⟨rest, hstrip, -⟩ := Option.map_eq_some_iff.mp hcut
    have hnil := stripPrefix_eq_some hstrip
    exact absurd (List.append_eq_nil_iff.mp hnil.symm).1 hne
  | cons c s ih =>
    rw [rsplitOnce, Option.or_eq_some_iff] at hcut
    obtain hlater | ⟨hnone, hhere⟩ := hcut
    · obtain ⟨⟨front, back⟩, hfront, heq⟩ := Option.map_eq_some_iff.mp hlater
      obtain ⟨rfl, rfl⟩ := Prod.mk.inj heq
      obtain ⟨rfl, hlast⟩ := ih hfront
      exact ⟨rfl, hlast⟩
    · obtain ⟨back, hstrip, heq⟩ := Option.map_eq_some_iff.mp hhere
      obtain ⟨rfl, rfl⟩ := Prod.mk.inj heq
      have hs := stripPrefix_eq_some hstrip
      refine ⟨hs, fun hlater => ?_⟩
      rw [Option.map_eq_none_iff, rsplitOnce_eq_none] at hnone
      obtain ⟨d, needle, rfl⟩ := List.exists_cons_of_ne_nil hne
      obtain ⟨-, htail⟩ := List.cons.inj hs
      exact hnone (htail ▸ hlater.trans (List.suffix_append needle back).isInfix)

theorem rsplitOnce_of_last {d : Char} (hlast : ¬ d :: needle <:+: needle ++ rest) (before : Text) :
    rsplitOnce (d :: needle) (before ++ (d :: needle ++ rest)) = some (before, rest) := by
  have hcut : rsplitOnce (d :: needle) (d :: needle ++ rest) = some ([], rest) := by
    rw [List.cons_append, rsplitOnce, rsplitOnce_eq_none.mpr hlast, ← List.cons_append,
      stripPrefix_append]
    rfl
  rw [rsplitOnce_append (List.prefix_append _ _).isInfix, hcut, Option.map_some, List.append_nil]

theorem last_line_cases (s : Text) :
    '\n' ∉ s ∨ ∃ front last, s = front ++ '\n' :: last ∧ '\n' ∉ last := by
  by_cases hmem : '\n' ∈ s
  · right
    obtain ⟨last, front, hsplit, hlast⟩ := List.eq_append_cons_of_mem (List.mem_reverse.mpr hmem)
    refine ⟨front.reverse, last.reverse, ?_, fun h => hlast (List.mem_reverse.mp h)⟩
    have hreversed := congrArg List.reverse hsplit
    simpa using hreversed
  · exact .inl hmem

theorem splitOn_last_line (front : Text) (hlast : '\n' ∉ last) :
    (front ++ '\n' :: last).splitOn '\n' = front.splitOn '\n' ++ [last] := by
  rw [List.splitOn_append_cons_self, List.splitOn_eq_singleton hlast]

/-- What stands in front of the last line feed; nothing if there is none. -/
def beforeLastLine (s : Text) : Text := (s.rdropWhile (· ≠ '\n')).dropLast

theorem beforeLastLine_append (front : Text) (hlast : '\n' ∉ last) :
    beforeLastLine (front ++ '\n' :: last) = front := by
  have hdropped : (front ++ '\n' :: last).rdropWhile (· ≠ '\n') = front ++ ['\n'] := by
    induction last using List.reverseRecOn with
    | nil => exact List.rdropWhile_concat_neg _ _ _ (by simp)
    | append_singleton last c ih =>
      rw [List.mem_append, List.mem_singleton, not_or] at hlast
      have hc : decide (c ≠ '\n') = true := decide_eq_true (Ne.symm hlast.2)
      rw [← List.cons_append, ← List.append_assoc,
        List.rdropWhile_concat_pos (fun c => decide (c ≠ '\n')) _ _ hc]
      exact ih hlast.1
  rw [beforeLastLine, hdropped, List.dropLast_concat]

theorem beforeLastLine_of_newline_not_mem (hs : '\n' ∉ s) : beforeLastLine s = [] := by
  have hdropped : s.rdropWhile (· ≠ '\n') = [] := by
    rw [List.rdropWhile_eq_nil_iff]
    intro c hc
    exact decide_eq_true (ne_of_mem_of_not_mem hc hs)
  rw [beforeLastLine, hdropped]
  rfl

theorem linesFrom_of_newline_not_mem (hlast : '\n' ∉ last) {current : Text}
    (hne : last ≠ [] ∨ current ≠ []) : linesFrom current last = [current.reverse ++ last] := by
  induction last generalizing current with
  | nil =>
    rcases hne with hnil | hcurrent
    · contradiction
    · rw [linesFrom, if_neg hcurrent, List.append_nil]
  | cons c last ih =>
    rw [List.mem_cons, not_or] at hlast
    rw [linesFrom, if_neg (Ne.symm hlast.1), ih hlast.2 (.inr (List.cons_ne_nil _ _))]
    simp

theorem lines_ne_nil_of_last {front current : Text} :
    linesFrom current (front ++ '\n' :: last) ≠ [] := by
  induction front generalizing current with
  | nil => simp [linesFrom]
  | cons c front ih =>
    rw [List.cons_append, linesFrom]
    split
    next => exact List.cons_ne_nil _ _
    next => exact ih

theorem getLast?_lines_append (front : Text) (hlast : '\n' ∉ last) (hne : last ≠ []) :
    (lines (front ++ '\n' :: last)).getLast? = some last := by
  have hfrom : ∀ current, (linesFrom current (front ++ '\n' :: last)).getLast? = some last := by
    induction front with
    | nil =>
      intro current
      rw [List.nil_append, linesFrom, if_pos rfl, linesFrom_of_newline_not_mem hlast (.inl hne)]
      rfl
    | cons c front ih =>
      intro current
      rw [List.cons_append, linesFrom]
      split
      next =>
        rw [List.getLast?_cons_of_ne_nil lines_ne_nil_of_last]
        exact ih []
      next => exact ih _
  exact hfrom []

end Text

/-! ## Cutting a text -/

theorem afterFirst_append (hneedle : needle ≠ []) (rest : Text) :
    Text.afterFirst needle (needle ++ rest) = some rest := by
  obtain ⟨c, tail, rfl⟩ := List.exists_cons_of_ne_nil hneedle
  have hstart : c :: tail <+: c :: (tail ++ rest) := List.prefix_append (c :: tail) rest
  rw [List.cons_append, Text.afterFirst, if_pos hstart, ← List.cons_append, List.drop_left]

theorem beforeFirst_append (hneedle : needle ≠ []) (hcut : CleanCut needle s (needle ++ t))
    (hs : ¬ needle <:+: s) :
    Text.beforeFirst needle (s ++ (needle ++ t)) = some s := by
  induction s with
  | nil =>
    obtain ⟨c, tail, rfl⟩ := List.exists_cons_of_ne_nil hneedle
    have hstart : c :: tail <+: c :: (tail ++ t) := List.prefix_append (c :: tail) t
    rw [List.nil_append, List.cons_append, Text.beforeFirst, if_pos hstart]
  | cons c rest ih =>
    have hrest : ¬ needle <:+: rest := fun hin => hs (List.infix_cons_iff.mpr (.inr hin))
    have hmatch : ¬ needle <+: c :: (rest ++ (needle ++ t)) := fun hp =>
      hs ((hcut.prefix_append_iff (List.cons_ne_nil c rest)).mp hp).isInfix
    rw [List.cons_append, Text.beforeFirst, if_neg hmatch, ih hcut.of_cons hrest, Option.map_some]

theorem trimEnd_append (hs : Text.trimEnd s ≠ []) (start : Text) :
    Text.trimEnd (start ++ s) = start ++ Text.trimEnd s := by
  induction s using List.reverseRecOn with
  | nil => exact absurd rfl hs
  | append_singleton s c ih =>
    unfold Text.trimEnd at hs ih ⊢
    rw [← List.append_assoc]
    by_cases hc : Text.isWhitespace c = true
    · rw [List.rdropWhile_concat_pos _ _ _ hc] at hs
      rw [List.rdropWhile_concat_pos _ _ _ hc, List.rdropWhile_concat_pos _ _ _ hc, ih hs]
    · rw [List.rdropWhile_concat_neg _ _ _ hc, List.rdropWhile_concat_neg _ _ _ hc,
        List.append_assoc]

theorem trim_append_blank (line : Text) {blank : Text}
    (hblank : ∀ c ∈ blank, Text.isWhitespace c = true) :
    Text.trim (line ++ blank) = Text.trim line := by
  induction blank using List.reverseRecOn with
  | nil => rw [List.append_nil]
  | append_singleton blank c ih =>
    rw [← List.append_assoc, Text.trim_concat_of_isWhitespace (hblank c (by simp))]
    exact ih fun d hd => hblank d (List.mem_append_left _ hd)

theorem afterFirst_append_needle (hneedle : needle ≠ []) (hcut : CleanCut needle s (needle ++ t))
    (hs : ¬ needle <:+: s) :
    Text.afterFirst needle (s ++ (needle ++ t)) = some t := by
  induction s with
  | nil => exact afterFirst_append hneedle t
  | cons c rest ih =>
    have hrest : ¬ needle <:+: rest := fun hin => hs (List.infix_cons_iff.mpr (.inr hin))
    have hmatch : ¬ needle <+: c :: (rest ++ (needle ++ t)) := fun hp =>
      hs ((hcut.prefix_append_iff (List.cons_ne_nil c rest)).mp hp).isInfix
    rw [List.cons_append, Text.afterFirst, if_neg hmatch, ih hcut.of_cons hrest]

theorem beforeFirst_eq_none : Text.beforeFirst needle s = none ↔ ¬ needle <:+: s := by
  induction s with
  | nil => simp [Text.beforeFirst]
  | cons c rest ih =>
    rw [Text.beforeFirst, List.infix_cons_iff, not_or]
    split
    next hhere => simp [hhere]
    next hhere => rw [Option.map_eq_none_iff, ih, and_iff_right hhere]

theorem afterFirst_eq_none : Text.afterFirst needle s = none ↔ ¬ needle <:+: s := by
  induction s with
  | nil => simp [Text.afterFirst]
  | cons c rest ih =>
    rw [Text.afterFirst, List.infix_cons_iff, not_or]
    split
    next hhere => simp [hhere]
    next hhere => rw [ih, and_iff_right hhere]

theorem not_prefix_append (hhere : ¬ needle <+: c :: rest) (hlater : needle <:+: rest) :
    ¬ needle <+: c :: (rest ++ t) := by
  intro hstart
  apply hhere
  exact List.prefix_of_prefix_length_le hstart (List.prefix_append (c :: rest) t)
    (hlater.length_le.trans (Nat.le_succ _))

theorem beforeFirst_append_of_some {front : Text} (hfront : Text.beforeFirst needle s = some front)
    (t : Text) :
    Text.beforeFirst needle (s ++ t) = some front := by
  induction s generalizing front with
  | nil =>
    rw [Text.beforeFirst] at hfront
    obtain ⟨rfl, rfl⟩ : needle = [] ∧ front = [] := by simpa [eq_comm] using hfront
    cases t <;> simp [Text.beforeFirst]
  | cons c rest ih =>
    rw [Text.beforeFirst] at hfront
    split at hfront
    next hhere =>
      have hstart : needle <+: c :: (rest ++ t) := hhere.trans (List.prefix_append _ t)
      rw [List.cons_append, Text.beforeFirst, if_pos hstart, hfront]
    next hhere =>
      obtain ⟨later, hlater, rfl⟩ := Option.map_eq_some_iff.mp hfront
      have hoccurs : needle <:+: rest := by
        by_contra hnone
        rw [beforeFirst_eq_none.mpr hnone] at hlater
        contradiction
      rw [List.cons_append, Text.beforeFirst, if_neg (not_prefix_append hhere hoccurs),
        ih hlater, Option.map_some]

theorem afterFirst_append_of_some {behind : Text} (hbehind : Text.afterFirst needle s = some behind)
    (t : Text) :
    Text.afterFirst needle (s ++ t) = some (behind ++ t) := by
  induction s generalizing behind with
  | nil =>
    rw [Text.afterFirst] at hbehind
    obtain ⟨rfl, rfl⟩ : needle = [] ∧ behind = [] := by simpa [eq_comm] using hbehind
    cases t <;> simp [Text.afterFirst]
  | cons c rest ih =>
    rw [Text.afterFirst] at hbehind
    split at hbehind
    next hhere =>
      have hstart : needle <+: c :: (rest ++ t) := hhere.trans (List.prefix_append _ t)
      rw [List.cons_append, Text.afterFirst, if_pos hstart, ← List.cons_append,
        List.drop_append_of_le_length hhere.length_le, Option.some.inj hbehind]
    next hhere =>
      have hoccurs : needle <:+: rest := by
        by_contra hnone
        rw [afterFirst_eq_none.mpr hnone] at hbehind
        contradiction
      rw [List.cons_append, Text.afterFirst, if_neg (not_prefix_append hhere hoccurs), ih hbehind]

theorem lines_unlines_append {ls : List Text} (hls : ∀ line ∈ ls, '\n' ∉ line) (rest : Text) :
    Text.lines (Text.unlines ls ++ rest) = ls.map Text.stripCr ++ Text.lines rest := by
  induction ls with
  | nil => rfl
  | cons line others ih =>
    have hothers : ∀ line ∈ others, '\n' ∉ line :=
      fun line hmem => hls line (.tail _ hmem)
    have hread := Text.linesFrom_append (hls line (.head _))
      (Text.unlines others ++ rest) []
    unfold Text.unlines at hread ih ⊢
    rw [List.flatMap_cons, List.append_assoc, List.append_assoc, List.singleton_append,
      Text.lines, hread, ih hothers]
    rfl

end Difflore.Foundation

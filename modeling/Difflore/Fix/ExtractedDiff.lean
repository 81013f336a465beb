import Difflore.Foundation.Occurrence

/-! # The diff in a model response

A response is free text with a diff in it, often in a fenced block. The fences are dropped and the
diff is taken from the first `--- ` on. That need not be the start of a line, and what follows the
diff is kept unless it is one bare fence.
-/

namespace Difflore.Fix

open Foundation Text

variable {lines : List Text} {property : List Text → Prop} {s last : Text}

def fence : Text := "```"

def fileMarker : Text := "--- "

def stripSuffix (suffix s : Text) : Option Text :=
  if suffix <:+ s then some (s.take (s.length - suffix.length)) else none

def stripOpeningFence (text : Text) : Text :=
  if fence <+: text then
    let afterOpen := (text.dropWhile (· ≠ '\n')).drop 1
    let body := afterOpen.rdropWhile (· = '\n')
    match stripSuffix fence body with
    | none => body
    | some s => trimEnd s
  else text

def stripLastFence (diff : Text) : Text :=
  if (Text.lines diff).getLast?.any (trim · = fence) then
    trimEnd (beforeLastLine diff)
  else diff

def endLine (diff : Text) : Text := if ['\n'] <:+ diff then diff else diff ++ ['\n']

def extractUnifiedDiff (raw : Text) : Option Text :=
  let text := trim raw
  if (Text.lines text).any (trim · = "NO_PATCH") then none
  else
    match splitAtFirst fileMarker (stripOpeningFence text) with
    | none => none
    | some (_, rest) =>
      let diff := stripLastFence (trimEnd rest)
      if ¬ "+++ " <:+: diff ∨ ¬ "@@ " <:+: diff then none
      else some (endLine diff)

def gitHeaders : List Text :=
  ["diff --git", "index", "new file mode", "deleted file mode", "old mode", "new mode",
    "similarity index", "dissimilarity index", "rename from", "rename to", "copy from",
    "copy to"].map String.toList

def lineMarkers : List Char := [' ', '+', '-', '@', '\\']

/-- A line of a hunk or of a header, or a blank one. A fence or a sentence is none. -/
def isDiffLine (line : Text) : Bool :=
  trim line = [] || line.head?.any (· ∈ lineMarkers) || gitHeaders.any (· <+: line)

def isHunkHeader (line : Text) : Bool := "@@ -" <+: line

def DiffLines (lines : List Text) : Prop :=
  (∀ line ∈ lines, isDiffLine line = true) ∧ ∃ line ∈ lines, isHunkHeader line = true

def AtLineStart (before : Text) : Prop := before = [] ∨ ['\n'] <:+ before

structure Extracted (raw diff : Text) : Prop where
  lineStart : ∃ before rest, raw = before ++ rest ∧ AtLineStart before ∧ fileMarker <+: rest ∧
    trimEnd diff <+: rest
  diffLines : DiffLines (diff.splitOn '\n')

def afterOpening (raw : Text) : Text :=
  if fence <+: trimStart raw then ((trimStart raw).dropWhile (· ≠ '\n')).drop 1 else raw

/-- Behind an opening fence the first `--- ` stands at the start of a line. -/
def MarkerFirst (raw : Text) : Prop :=
  ∃ before rest, splitAtFirst fileMarker (afterOpening raw) = some (before, rest) ∧
    AtLineStart before

def isBareFence (line : Text) : Bool := trim line = fence

/-- Nothing follows the lines of a diff but blank lines and at most one bare fence. -/
def EndsWithDiff (lines : List Text) : Prop :=
  ∃ front tail, lines = front ++ tail ∧ DiffLines front ∧
    (∀ line ∈ tail, trim line = [] ∨ isBareFence line = true) ∧
    tail.countP isBareFence ≤ 1

/-- The diff is the last thing in the block, or in the response if that opens no block. -/
def DiffLast (raw : Text) : Prop := ∃ before rest,
    splitAtFirst fileMarker (stripOpeningFence (trim raw)) = some (before, rest) ∧
    EndsWithDiff (rest.splitOn '\n')

/-! ## When the extracted text is the diff

The text that is returned starts a line exactly if the first `--- ` of the response does, and it
is nothing but a diff exactly if the response ends with the diff.
-/

/-! ## White space at the end -/

section Blank

variable {line blank : Text}

theorem prefix_append_blank_iff {start : Text}
    (hstart : ∀ c ∈ start.getLast?, isWhitespace c = false)
    (hblank : ∀ c ∈ blank, isWhitespace c = true) :
    start <+: line ++ blank ↔ start <+: line := by
  induction blank using List.reverseRecOn with
  | nil => rw [List.append_nil]
  | append_singleton blank c ih =>
    rw [← List.append_assoc, List.prefix_concat_iff,
      ih fun d hd => hblank d (List.mem_append_left _ hd), or_iff_right]
    rintro rfl
    have hend := hstart c (by simp)
    rw [hblank c (by simp)] at hend
    contradiction

theorem ends_of_all {last : Option Char} (hlast : last.all (!isWhitespace ·) = true) :
    ∀ c ∈ last, isWhitespace c = false := by
  intro c hc
  rw [Option.mem_def.mp hc, Option.all_some, Bool.not_eq_true'] at hlast
  exact hlast

theorem isDiffLine_append_blank (line : Text) (hblank : ∀ c ∈ blank, isWhitespace c = true) :
    isDiffLine (line ++ blank) = isDiffLine line := by
  have hheaders : gitHeaders.any (· <+: line ++ blank) = gitHeaders.any (· <+: line) := by
    rw [Bool.eq_iff_iff, List.any_eq_true, List.any_eq_true]
    refine exists_congr fun header => and_congr_right fun hheader => ?_
    have hends : gitHeaders.all (·.getLast?.all (!isWhitespace ·)) = true := by decide
    have hend := ends_of_all (List.all_eq_true.mp hends header hheader)
    rw [decide_eq_true_iff, decide_eq_true_iff, prefix_append_blank_iff hend hblank]
  unfold isDiffLine
  rw [trim_append_blank line hblank, hheaders]
  cases line with
  | nil => simp [trim, trimStart, trimEnd]
  | cons c rest => rfl

theorem isHunkHeader_append_blank (line : Text) (hblank : ∀ c ∈ blank, isWhitespace c = true) :
    isHunkHeader (line ++ blank) = isHunkHeader line := by
  have hend : ∀ c ∈ "@@ -".toList.getLast?, isWhitespace c = false := ends_of_all (by decide)
  exact decide_eq_decide.mpr (prefix_append_blank_iff hend hblank)

/-- What looks at lines, but not at white space at their ends, nor at blank lines at the end. -/
structure Tolerant (property : List Text → Prop) : Prop where
  last : ∀ lines (line blank : Text), (∀ c ∈ blank, isWhitespace c = true) →
    (property (lines ++ [line ++ blank]) ↔ property (lines ++ [line]))
  blank : ∀ lines, property (lines ++ [[]]) ↔ property lines

theorem Tolerant.concat (hproperty : Tolerant property) (s : Text) {c : Char}
    (hc : isWhitespace c = true) :
    property ((s ++ [c]).splitOn '\n') ↔ property (s.splitOn '\n') := by
  have hblank : ∀ d ∈ [c], isWhitespace d = true := by simpa using hc
  by_cases hnewline : c = '\n'
  · rw [hnewline, List.splitOn_append_cons_self]
    exact hproperty.blank _
  · rcases last_line_cases s with hs | ⟨front, last, rfl, hlast⟩
    · have hlonger : '\n' ∉ s ++ [c] := by simpa using ⟨hs, Ne.symm hnewline⟩
      rw [List.splitOn_eq_singleton hs, List.splitOn_eq_singleton hlonger]
      exact hproperty.last [] s [c] hblank
    · have hlonger : '\n' ∉ last ++ [c] := by simpa using ⟨hlast, Ne.symm hnewline⟩
      have hmoved : front ++ '\n' :: last ++ [c] = front ++ '\n' :: (last ++ [c]) := by simp
      rw [hmoved, splitOn_last_line front hlast, splitOn_last_line front hlonger]
      exact hproperty.last _ last [c] hblank

theorem Tolerant.append (hproperty : Tolerant property) (s : Text)
    (hblank : ∀ c ∈ blank, isWhitespace c = true) :
    property ((s ++ blank).splitOn '\n') ↔ property (s.splitOn '\n') := by
  induction blank using List.reverseRecOn with
  | nil => rw [List.append_nil]
  | append_singleton blank c ih =>
    rw [← List.append_assoc, hproperty.concat _ (hblank c (by simp))]
    exact ih fun d hd => hblank d (List.mem_append_left _ hd)

theorem Tolerant.trimEnd (hproperty : Tolerant property) (s : Text) :
    property ((Text.trimEnd s).splitOn '\n') ↔ property (s.splitOn '\n') := by
  have hsplit : s = Text.trimEnd s ++ s.rtakeWhile isWhitespace :=
    List.rdropWhile_append_rtakeWhile.symm
  conv_rhs => rw [hsplit]
  exact (hproperty.append _ fun c hc => List.mem_rtakeWhile_imp hc).symm

end Blank

theorem last_cases {α : Type} {init front tail : List α} {last : α}
    (hsplit : init ++ [last] = front ++ tail) :
    (tail = [] ∧ front = init ++ [last]) ∨
      ∃ more, tail = more ++ [last] ∧ init = front ++ more := by
  obtain rfl | ⟨more, other, rfl⟩ := List.eq_nil_or_concat tail
  · exact .inl ⟨rfl, (hsplit.trans (List.append_nil _)).symm⟩
  · rw [List.concat_eq_append, ← List.append_assoc] at hsplit
    obtain ⟨hinit, hlast⟩ := List.append_inj' hsplit rfl
    rw [(List.cons.inj hlast).1]
    exact .inr ⟨more, List.concat_eq_append, hinit⟩

theorem diffLines_of_last {line other : Text} (hdiff : isDiffLine line = isDiffLine other)
    (hheader : isHunkHeader line = isHunkHeader other) (hlines : DiffLines (lines ++ [line])) :
    DiffLines (lines ++ [other]) := by
  obtain ⟨hall, header, hmem, hhunk⟩ := hlines
  constructor
  · intro candidate hcandidate
    rcases List.mem_append.mp hcandidate with hfront | hlast
    · exact hall candidate (List.mem_append_left _ hfront)
    · rw [List.mem_singleton.mp hlast, ← hdiff]
      exact hall line (by simp)
  · rcases List.mem_append.mp hmem with hfront | hlast
    · exact ⟨header, List.mem_append_left _ hfront, hhunk⟩
    · rw [List.mem_singleton.mp hlast, hheader] at hhunk
      exact ⟨other, by simp, hhunk⟩

theorem tolerant_diffLines : Tolerant DiffLines where
  last lines line blank hblank := ⟨diffLines_of_last (isDiffLine_append_blank line hblank)
      (isHunkHeader_append_blank line hblank),
    diffLines_of_last (isDiffLine_append_blank line hblank).symm
      (isHunkHeader_append_blank line hblank).symm⟩
  blank lines := by
    have hblank : isDiffLine [] = true := by decide
    have hheader : isHunkHeader [] = false := by decide
    unfold DiffLines
    simp [or_imp, forall_and, hblank, hheader, or_and_right, exists_or]

theorem endsWithDiff_of_last {line other : Text} (hdiff : isDiffLine line = isDiffLine other)
    (hheader : isHunkHeader line = isHunkHeader other) (htrim : trim line = trim other)
    (hlines : EndsWithDiff (lines ++ [line])) :
    EndsWithDiff (lines ++ [other]) := by
  obtain ⟨front, tail, hsplit, hfront, htail, hcount⟩ := hlines
  have hbare : isBareFence line = isBareFence other := by rw [isBareFence, htrim, isBareFence]
  obtain ⟨rfl, rfl⟩ | ⟨tail, rfl, rfl⟩ := last_cases hsplit
  · exact ⟨lines ++ [other], [], by simp, diffLines_of_last hdiff hheader hfront, by simp, by simp⟩
  · refine ⟨front, tail ++ [other], by simp, hfront, ?_, ?_⟩
    · intro candidate hcandidate
      rcases List.mem_append.mp hcandidate with hin | hin
      · exact htail candidate (by simp [hin])
      · rw [List.mem_singleton.mp hin, ← htrim, ← hbare]
        exact htail line (by simp)
    · simpa [List.countP_append, hbare] using hcount

theorem tolerant_endsWithDiff : Tolerant EndsWithDiff where
  last lines line blank hblank := ⟨endsWithDiff_of_last (isDiffLine_append_blank line hblank)
      (isHunkHeader_append_blank line hblank) (trim_append_blank line hblank),
    endsWithDiff_of_last (isDiffLine_append_blank line hblank).symm
      (isHunkHeader_append_blank line hblank).symm (trim_append_blank line hblank).symm⟩
  blank lines := by
    have hbare : isBareFence [] = false := by decide
    constructor
    · rintro ⟨front, tail, hsplit, hfront, htail, hcount⟩
      obtain ⟨rfl, rfl⟩ | ⟨tail, rfl, rfl⟩ := last_cases hsplit
      · exact ⟨lines, [], by simp, (tolerant_diffLines.blank lines).mp hfront, by simp, by simp⟩
      · refine ⟨front, tail, rfl, hfront, fun line hline => htail line (by simp [hline]), ?_⟩
        simpa [List.countP_append, hbare] using hcount
    · rintro ⟨front, tail, rfl, hfront, htail, hcount⟩
      refine ⟨front, tail ++ [[]], by simp, hfront, ?_, ?_⟩
      · intro line hline
        rcases List.mem_append.mp hline with hin | hin
        · exact htail line hin
        · rw [List.mem_singleton.mp hin]
          exact .inl rfl
      · simpa [List.countP_append, hbare] using hcount

/-! ## The closing fence -/

theorem mem_trim_of_mem {c : Char} (hmem : c ∈ s) (hc : isWhitespace c = false) : c ∈ trim s := by
  obtain ⟨front, back, hsplit, hfront, hback⟩ := exists_eq_trim s
  rw [hsplit, List.mem_append, List.mem_append] at hmem
  rcases hmem with hin | hin | hin
  · rw [hfront c hin] at hc
    contradiction
  · exact hin
  · rw [hback c hin] at hc
    contradiction

theorem not_isHunkHeader_of_isBareFence {line : Text} (hbare : isBareFence line = true) :
    isHunkHeader line = false := by
  by_contra hheader
  have hstart := of_decide_eq_true (Bool.not_eq_false _ ▸ hheader)
  have hat : '@' ∈ line := hstart.subset (by simp)
  have hin := mem_trim_of_mem hat (by decide)
  rw [of_decide_eq_true hbare] at hin
  exact absurd hin (by decide)

theorem endsWithDiff_iff_diffLines (hblank : trim last ≠ []) (hbare : isBareFence last = false) :
    EndsWithDiff (lines ++ [last]) ↔ DiffLines (lines ++ [last]) := by
  constructor
  · rintro ⟨front, tail, hsplit, hfront, htail, -⟩
    obtain ⟨rfl, rfl⟩ | ⟨tail, rfl, rfl⟩ := last_cases hsplit
    · exact hfront
    · rcases htail last (by simp) with hnil | hfence
      · exact absurd hnil hblank
      · rw [hfence] at hbare
        contradiction
  · intro hlines
    exact ⟨_, [], (List.append_nil _).symm, hlines, by simp, by simp⟩

theorem endsWithDiff_fence_iff (hbare : isBareFence last = true) :
    EndsWithDiff (lines ++ [last]) ↔ DiffLines lines := by
  have hheader := not_isHunkHeader_of_isBareFence hbare
  constructor
  · rintro ⟨front, tail, hsplit, hfront, htail, hcount⟩
    obtain ⟨rfl, rfl⟩ | ⟨tail, rfl, rfl⟩ := last_cases hsplit
    · obtain ⟨hall, header, hmem, hhunk⟩ := hfront
      refine ⟨fun line hline => hall line (List.mem_append_left _ hline), header, ?_, hhunk⟩
      rcases List.mem_append.mp hmem with hin | hin
      · exact hin
      · rw [List.mem_singleton.mp hin, hheader] at hhunk
        contradiction
    · rw [List.countP_append, List.countP_singleton, if_pos hbare] at hcount
      have hnone := List.countP_eq_zero.mp (Nat.le_zero.mp (Nat.le_of_succ_le_succ hcount))
      obtain ⟨hall, header, hmem, hhunk⟩ := hfront
      refine ⟨?_, header, List.mem_append_left _ hmem, hhunk⟩
      intro line hline
      rcases List.mem_append.mp hline with hin | hin
      · exact hall line hin
      · rcases htail line (by simp [hin]) with hnil | hfence
        · simp [isDiffLine, hnil]
        · exact absurd hfence (hnone line hin)
  · intro hlines
    exact ⟨lines, [last], rfl, hlines, by simp [hbare], by simp [hbare]⟩

theorem trim_last_ne_nil (hend : ∀ c ∈ s.getLast?, isWhitespace c = false) (hlast : last <:+ s)
    (hne : last ≠ []) : trim last ≠ [] := by
  obtain ⟨front, rfl⟩ := hlast
  obtain ⟨init, c, rfl⟩ := (List.eq_nil_or_concat last).resolve_left hne
  apply trim_ne_nil_of_mem (c := c) (by simp)
  apply hend
  simp

theorem endsWithDiff_iff_stripLastFence (hend : ∀ c ∈ s.getLast?, isWhitespace c = false)
    (hne : stripLastFence s ≠ []) :
    EndsWithDiff (s.splitOn '\n') ↔ DiffLines ((stripLastFence s).splitOn '\n') := by
  rcases last_line_cases s with hs | ⟨front, last, rfl, hlast⟩
  · have hsome : s ≠ [] := by
      rintro rfl
      exact hne (by decide)
    have hlines : Text.lines s = [s] := linesFrom_of_newline_not_mem hs (.inl hsome)
    cases hbare : isBareFence s with
    | true =>
      refine absurd ?_ hne
      rw [stripLastFence, hlines, List.getLast?_singleton, Option.any_some,
        if_pos (show decide (trim s = fence) = true from hbare),
        beforeLastLine_of_newline_not_mem hs]
      rfl
    | false =>
      have hkept : stripLastFence s = s := by
        rw [stripLastFence, hlines, List.getLast?_singleton, Option.any_some]
        exact if_neg (Bool.eq_false_iff.mp hbare)
      rw [hkept, List.splitOn_eq_singleton hs]
      exact @endsWithDiff_iff_diffLines [] s
        (trim_last_ne_nil hend (List.suffix_refl s) hsome) hbare
  · have hsuffix : last <:+ front ++ '\n' :: last := ⟨front ++ ['\n'], by simp⟩
    have hsome : last ≠ [] := by
      rintro rfl
      have hnewline := hend '\n' (by simp)
      exact absurd hnewline (by decide)
    have hlines := Text.getLast?_lines_append front hlast hsome
    rw [splitOn_last_line front hlast]
    cases hbare : isBareFence last with
    | true =>
      have hdropped : stripLastFence (front ++ '\n' :: last) = trimEnd front := by
        rw [stripLastFence, hlines, Option.any_some,
          if_pos (show decide (trim last = fence) = true from hbare),
          beforeLastLine_append front hlast]
      rw [hdropped, tolerant_diffLines.trimEnd]
      exact endsWithDiff_fence_iff hbare
    | false =>
      have hkept : stripLastFence (front ++ '\n' :: last) = front ++ '\n' :: last := by
        rw [stripLastFence, hlines, Option.any_some]
        exact if_neg (Bool.eq_false_iff.mp hbare)
      rw [hkept, splitOn_last_line front hlast]
      exact endsWithDiff_iff_diffLines (trim_last_ne_nil hend hsuffix hsome) hbare

theorem diffLines_endLine (diff : Text) :
    DiffLines ((endLine diff).splitOn '\n') ↔ DiffLines (diff.splitOn '\n') := by
  unfold endLine
  split
  next => exact Iff.rfl
  next => exact tolerant_diffLines.concat diff (by decide)

end Difflore.Fix

import Difflore.Review.ResolvedLines

/-! # Snippets copied from a hunk

A snippet of consecutive new-side lines is found again exactly if no line between its first and
its last one is blank: blank lines are left out of the snippet and stay in the hunk.
-/

namespace Difflore.Review

open Foundation Text

variable {newSide : Bool} {hunk : DiffHunk} {hunks : List DiffHunk} {window : List SideLine}
  {excerpt : List Text} {snippet : Text}

def isBlankLine (line : Text) : Bool := decide (trim line = [])

def DiffHunk.newLines (hunk : DiffHunk) : List Text :=
  (hunk.lines.filter (onSide true)).map HunkLine.content

def trimBlank (excerpt : List Text) : List Text :=
  (excerpt.dropWhile isBlankLine).rdropWhile isBlankLine

def IsSnippetOf (snippet : Text) (excerpt : List Text) : Prop :=
  snippet = unlines excerpt ∨ snippet ++ ['\n'] = unlines excerpt

/-- The result is the range of an occurrence of the lines on the new side. -/
def ResolvesTo (hunks : List DiffHunk) (excerpt : List Text) (result : Option (Int × Int)) : Prop :=
  ∃ hunk ∈ hunks, ∃ window, window <:+: hunk.side true ∧
    window.map SideLine.normalized = excerpt.map normalizeLine ∧ result = some (reported window)

/-- The new-side numbers are in the range of an `i32`. -/
def NumbersFit (hunks : List DiffHunk) : Prop :=
  ∀ hunk ∈ hunks, ∀ line ∈ hunk.side true, line.number < 2 ^ 31

theorem normalizeLine_stripCr (line : Text) :
    normalizeLine (stripCr line) = normalizeLine line := by
  unfold normalizeLine
  rw [Text.trim_stripCr]

theorem normalizeLine_of_blank {line : Text} (hblank : isBlankLine line = true) :
    normalizeLine line = [] := by
  have htrim : trim line = [] := of_decide_eq_true hblank
  unfold normalizeLine
  rw [htrim]
  rfl

theorem splitAndNormalize_concat (snippet : Text) :
    splitAndNormalize (snippet ++ ['\n']) = splitAndNormalize snippet := by
  have hfrom : ∀ (s current : Text),
      ((Text.linesFrom current (s ++ ['\n'])).map normalizeLine).filter (· ≠ []) =
        ((Text.linesFrom current s).map normalizeLine).filter (· ≠ []) := by
    intro s
    induction s with
    | nil =>
      intro current
      have hended : Text.linesFrom current ['\n'] = [stripCr current.reverse] := rfl
      rw [List.nil_append, hended, Text.linesFrom, List.map_singleton, normalizeLine_stripCr]
      split
      next hnil =>
        rw [hnil]
        rfl
      next => rfl
    | cons c rest ih =>
      intro current
      rw [List.cons_append, Text.linesFrom, Text.linesFrom]
      split
      next => rw [List.map_cons, List.map_cons, List.filter_cons, List.filter_cons, ih]
      next => exact ih _
  exact hfrom snippet []

theorem splitAndNormalize_snippet (hsnippet : IsSnippetOf snippet excerpt)
    (hlines : ∀ line ∈ excerpt, '\n' ∉ line) :
    splitAndNormalize snippet = (excerpt.map normalizeLine).filter (· ≠ []) := by
  have hunlines : splitAndNormalize (unlines excerpt) =
      (excerpt.map normalizeLine).filter (· ≠ []) := by
    rw [splitAndNormalize, lines_unlines hlines, List.map_map]
    congr 2
    funext line
    exact normalizeLine_stripCr line
  rcases hsnippet with rfl | heq
  · exact hunlines
  · rw [← splitAndNormalize_concat, heq, hunlines]

theorem filter_normalized_dropWhile (excerpt : List Text) :
    ((excerpt.dropWhile isBlankLine).map normalizeLine).filter (· ≠ []) =
      (excerpt.map normalizeLine).filter (· ≠ []) := by
  induction excerpt with
  | nil => rfl
  | cons line rest ih =>
    rw [List.dropWhile_cons]
    split
    next hblank =>
      rw [ih, List.map_cons, normalizeLine_of_blank hblank]
      rfl
    next => rfl

theorem filter_normalized_trimBlank (excerpt : List Text) :
    ((trimBlank excerpt).map normalizeLine).filter (· ≠ []) =
      (excerpt.map normalizeLine).filter (· ≠ []) := by
  have hreverse : ∀ lines : List Text,
      ((lines.rdropWhile isBlankLine).map normalizeLine).filter (· ≠ []) =
        (lines.map normalizeLine).filter (· ≠ []) := by
    intro lines
    rw [List.rdropWhile, List.map_reverse, List.filter_reverse, filter_normalized_dropWhile,
      List.map_reverse, List.filter_reverse, List.reverse_reverse]
  unfold trimBlank
  rw [hreverse, filter_normalized_dropWhile]

theorem trimBlank_part (excerpt : List Text) : trimBlank excerpt <:+: excerpt :=
  (List.rdropWhile_prefix _ _).isInfix.trans (List.dropWhile_suffix _).isInfix

theorem trimBlank_ne_nil (hline : ∃ line ∈ excerpt, isBlankLine line = false) :
    trimBlank excerpt ≠ [] := by
  obtain ⟨line, hmem, hblank⟩ := hline
  have hdrop : line ∈ excerpt.dropWhile isBlankLine := by
    rw [← List.takeWhile_append_dropWhile (p := isBlankLine) (l := excerpt)] at hmem
    rcases List.mem_append.mp hmem with hfront | hback
    · rw [List.mem_takeWhile_imp hfront] at hblank
      contradiction
    · exact hback
  intro hnil
  have hall := List.rdropWhile_eq_nil_iff.mp hnil line hdrop
  rw [hall] at hblank
  contradiction

theorem normalized_comp_sideLine :
    (SideLine.normalized ∘ fun (line, number) => ⟨number % 2 ^ 32, line⟩) =
      (normalizeLine ∘ HunkLine.content) ∘ (Prod.fst : HunkLine × Nat → HunkLine) := rfl

theorem map_normalized_side (hunk : DiffHunk) :
    (hunk.side true).map SideLine.normalized = hunk.newLines.map normalizeLine := by
  unfold DiffHunk.side DiffHunk.newLines
  rw [List.map_map, List.map_map]
  rw [normalized_comp_sideLine, ← List.map_map, List.zipIdx_map_fst]

theorem window_of_part (hpart : excerpt <:+: hunk.newLines) : ∃ window, window <:+: hunk.side true ∧
      window.map SideLine.normalized = excerpt.map normalizeLine := by
  obtain ⟨front, back, heq⟩ := hpart
  have hmap := map_normalized_side hunk
  rw [← heq, List.map_append, List.map_append] at hmap
  obtain ⟨start, ending, hside, hstart, _⟩ := List.map_eq_append_iff.mp hmap
  obtain ⟨first, window, rfl, _, hwindow⟩ := List.map_eq_append_iff.mp hstart
  exact ⟨window, ⟨first, ending, hside.symm⟩, hwindow⟩

theorem newline_not_mem_newLines (hparsed : hunk.Parsed) {line : Text}
    (hline : line ∈ hunk.newLines) : '\n' ∉ line := by
  obtain ⟨source, hsource, rfl⟩ := List.mem_map.mp hline
  exact hparsed.oneLine source (List.mem_filter.mp hsource).1

theorem span_of_part (hpart : window <:+: hunk.side newSide) (hne : window ≠ []) :
    ∃ base, span window = (base % 2 ^ 32, (base + (window.length - 1)) % 2 ^ 32) ∧
      ∀ more < window.length, ∃ line ∈ hunk.side newSide, line.number = (base + more) % 2 ^ 32 := by
  obtain ⟨front, back, heq⟩ := hpart
  have hlength := List.length_pos_of_ne_nil hne
  have hget :
    ∀ more < window.length, (hunk.side newSide)[front.length + more]? = window[more]? := by
    intro more hmore
    rw [← heq, List.append_assoc, List.getElem?_append_right (Nat.le_add_right _ _),
      Nat.add_sub_cancel_left, List.getElem?_append_left hmore]
  have hnumber : ∀ more < window.length, (window[more]?.map SideLine.number).getD 0 =
      (hunk.sideStart newSide + front.length + more) % 2 ^ 32 := by
    intro more hmore
    have hside := side_getElem? hunk newSide (front.length + more)
    rw [hget more hmore, List.getElem?_eq_getElem hmore] at hside
    obtain ⟨line, _, hline⟩ := Option.map_eq_some_iff.mp hside.symm
    rw [List.getElem?_eq_getElem hmore, ← hline, ← Nat.add_assoc]
    rfl
  refine ⟨hunk.sideStart newSide + front.length, ?_, ?_⟩
  · unfold span
    rw [List.head?_eq_getElem?, List.getLast?_eq_getElem?, hnumber 0 hlength, hnumber _ (by omega)]
    rfl
  · intro more hmore
    refine ⟨window[more], ?_, ?_⟩
    · rw [← heq]
      exact List.mem_append_left _ (List.mem_append_right _ (List.getElem_mem hmore))
    · have hline := hnumber more hmore
      rw [List.getElem?_eq_getElem hmore] at hline
      exact hline

theorem toI32_sub_le {first last more : Nat} (hle : last ≤ first + more) :
    toI32 last - toI32 first ≤ more := by
  unfold toI32
  split <;> split <;> omega

theorem reported_sub_le (hpart : window <:+: hunk.side newSide) (hne : window ≠ []) :
    (reported window).2 - (reported window).1 ≤ (window.length - 1 : Nat) := by
  obtain ⟨base, hspan, _⟩ := span_of_part hpart hne
  unfold reported
  rw [hspan]
  apply toI32_sub_le
  dsimp only
  omega

theorem reported_sub_eq (hpart : window <:+: hunk.side true) (hne : window ≠ [])
    (hfit : ∀ line ∈ hunk.side true, line.number < 2 ^ 31) :
    (reported window).2 - (reported window).1 = (window.length - 1 : Nat) := by
  obtain ⟨base, hspan, hnumbers⟩ := span_of_part hpart hne
  have hlength := List.length_pos_of_ne_nil hne
  have hbound : base % 2 ^ 32 + (window.length - 1) < 2 ^ 31 := by
    by_contra hover
    -- One of the lines would have the first number that does not fit.
    obtain ⟨line, hline, hnumber⟩ := hnumbers 0 hlength
    have hfirst := hfit line hline
    rw [hnumber, Nat.add_zero] at hfirst
    obtain ⟨other, hother, hotherNumber⟩ := hnumbers (2 ^ 31 - base % 2 ^ 32) (by omega)
    have hsecond := hfit other hother
    rw [hotherNumber] at hsecond
    omega
  have hlast : (base + (window.length - 1)) % 2 ^ 32 = base % 2 ^ 32 + (window.length - 1) := by
    omega
  unfold reported toI32
  rw [hspan]
  dsimp only
  rw [hlast, if_pos hbound, if_pos (by omega)]
  omega

/-! ## Every excerpt -/

theorem exists_firstSide {targets : List Text} (hfound : occurrences hunks targets newSide ≠ []) :
    ∃ side, occurrences hunks targets side ≠ [] ∧
      (side = false → occurrences hunks targets true = []) := by
  by_cases htrue : occurrences hunks targets true = []
  · cases newSide with
    | true => exact absurd htrue hfound
    | false => exact ⟨false, hfound, fun _ => htrue⟩
  · exact ⟨true, htrue, by simp⟩

theorem resolved_sub_lt (hparsed : ∀ hunk ∈ hunks, hunk.Parsed) {range : Int × Int}
    (hresolved : resolveIssueLines ⟨some snippet, none⟩ hunks = some range) :
    range.2 - range.1 < (ResolveTarget.mk (some snippet) none).targets.length := by
  by_cases hnone : (ResolveTarget.mk (some snippet) none).targets = [] ∨
      ∀ newSide, occurrences hunks (ResolveTarget.mk (some snippet) none).targets newSide = []
  · rw [resolveIssueLines, snippetMatch_eq_none hparsed hnone] at hresolved
    split at hresolved
    next => contradiction
    next => contradiction
  · push Not at hnone
    obtain ⟨hne, newSide, hfound⟩ := hnone
    obtain ⟨side, hside, hfirst⟩ := exists_firstSide hfound
    obtain ⟨window, hleast, hreported⟩ := resolve_of_occurs hparsed hne hside hfirst
    obtain ⟨hunk, _, hpart, hmap⟩ := (mem_occurrences hne).mp hleast.mem
    have hlength : window.length = (ResolveTarget.mk (some snippet) none).targets.length := by
      rw [← List.length_map (f := SideLine.normalized), hmap]
    have hwindow : window ≠ [] := by
      rintro rfl
      exact hne (List.eq_nil_of_length_eq_zero hlength.symm)
    have hbound := reported_sub_le hpart hwindow
    have hpos := List.length_pos_of_ne_nil hwindow
    rw [hresolved, Option.some.injEq] at hreported
    rw [← hreported] at hbound
    omega

theorem targets_excerpt (hsnippet : IsSnippetOf snippet excerpt)
    (honeLine : ∀ line ∈ excerpt, '\n' ∉ line) (claimed : Option Int) :
    (ResolveTarget.mk (some snippet) claimed).targets =
      ((trimBlank excerpt).map normalizeLine).filter (· ≠ []) := by
  rw [filter_normalized_trimBlank, ← splitAndNormalize_snippet hsnippet honeLine]
  rfl

theorem resolved_of_full (hparsed : ∀ hunk ∈ hunks, hunk.Parsed) (hhunk : hunk ∈ hunks)
    {lines : List Text} (hlines : lines <:+: hunk.newLines) (hne : lines ≠ [])
    {target : ResolveTarget} (htargets : target.targets = lines.map normalizeLine) :
    ResolvesTo hunks lines (resolveIssueLines target hunks) := by
  have hnonempty : target.targets ≠ [] := by
    rw [htargets]
    exact fun hnil => hne (List.map_eq_nil_iff.mp hnil)
  obtain ⟨window, hwindow, hmap⟩ := window_of_part hlines
  have hfound : occurrences hunks target.targets true ≠ [] := by
    apply List.ne_nil_of_mem (a := window)
    refine (mem_occurrences hnonempty).mpr ⟨hunk, hhunk, hwindow, ?_⟩
    rw [hmap, htargets]
  obtain ⟨found, hleast, hresolved⟩ := resolve_of_occurs hparsed hnonempty hfound (by simp)
  obtain ⟨other, hother, hpart, hmatch⟩ := (mem_occurrences hnonempty).mp hleast.mem
  exact ⟨other, hother, found, hpart, hmatch.trans htargets, hresolved⟩

theorem length_le_targets (hparsed : ∀ hunk ∈ hunks, hunk.Parsed) (hfit : NumbersFit hunks)
    {lines : List Text} (hne : lines ≠ [])
    (hresolved : ResolvesTo hunks lines (resolveIssueLines ⟨some snippet, none⟩ hunks)) :
    lines.length ≤ (ResolveTarget.mk (some snippet) none).targets.length := by
  obtain ⟨hunk, hhunk, window, hpart, hmap, hresult⟩ := hresolved
  have hlength : window.length = lines.length := by
    rw [← List.length_map (f := SideLine.normalized), hmap, List.length_map]
  have hwindow : window ≠ [] := by
    rintro rfl
    exact hne (List.eq_nil_of_length_eq_zero hlength.symm)
  have hexact := reported_sub_eq hpart hwindow (hfit hunk hhunk)
  have hshort := resolved_sub_lt hparsed hresult
  omega

/-- An excerpt is resolved to an occurrence whatever the claim if no line of it, but those at its
ends, is blank; and only then, where the numbers fit. -/
theorem excerpt_resolved_iff (diffSection : Text) (hunk : DiffHunk) (excerpt : List Text)
    (snippet : Text) (hhunk : hunk ∈ parseHunks diffSection) (hexcerpt : excerpt <:+: hunk.newLines)
    (hline : ∃ line ∈ excerpt, isBlankLine line = false) (hsnippet : IsSnippetOf snippet excerpt) :
    let hunks := parseHunks diffSection
    let resolved := ∀ claimed, ResolvesTo hunks (trimBlank excerpt)
      (resolveIssueLines ⟨some snippet, claimed⟩ hunks)
    ((∀ line ∈ trimBlank excerpt, normalizeLine line ≠ []) → resolved) ∧
      (NumbersFit hunks → resolved → ∀ line ∈ trimBlank excerpt, normalizeLine line ≠ []) := by
  intro hunks resolved
  have hparsed : ∀ hunk ∈ hunks, hunk.Parsed := fun hunk hhunk => parsed_of_mem_parseHunks hhunk
  have honeLine : ∀ line ∈ excerpt, '\n' ∉ line := by
    intro line hmem
    exact newline_not_mem_newLines (hparsed hunk hhunk) (hexcerpt.subset hmem)
  have htargets := targets_excerpt hsnippet honeLine
  have htrimmed := trimBlank_ne_nil hline
  constructor
  · intro hfull claimed
    have hall : ((trimBlank excerpt).map normalizeLine).filter (· ≠ []) =
        (trimBlank excerpt).map normalizeLine := by
      apply List.filter_eq_self.mpr
      intro line hmem
      obtain ⟨source, hsource, rfl⟩ := List.mem_map.mp hmem
      exact decide_eq_true (hfull source hsource)
    exact resolved_of_full hparsed hhunk ((trimBlank_part excerpt).trans hexcerpt) htrimmed
      ((htargets claimed).trans hall)
  · intro hfit hresolved line hmem hempty
    -- Without the blank line the targets are fewer than the lines.
    have hdropped : (((trimBlank excerpt).map normalizeLine).filter (· ≠ [])).length <
        ((trimBlank excerpt).map normalizeLine).length :=
      List.length_filter_lt_length_iff_exists.mpr
        ⟨normalizeLine line, List.mem_map_of_mem hmem, by simp [hempty]⟩
    rw [List.length_map, ← htargets none] at hdropped
    have hlength := length_le_targets hparsed hfit htrimmed (hresolved none)
    omega

section Samples

def spacedSection : Text := "@@ -1,2 +1,4 @@\n a\n+b\n+\n+c\n"

def spacedHunk : DiffHunk := ((parseHunks spacedSection).head?).getD ⟨0, 0, []⟩

theorem excerpt_resolved_of_two : ResolvesTo (parseHunks spacedSection) (trimBlank ["a", "b"])
      (resolveIssueLines ⟨some "a\nb", some 7⟩ (parseHunks spacedSection)) :=
  (excerpt_resolved_iff spacedSection spacedHunk ["a", "b"] "a\nb"
    (by decide) (by decide) (by decide) (.inr (by decide))).1 (by decide) (some 7)

/-- The snippet with the blank line is not found. -/
theorem spaced_excerpt_lost : ["b".toList, [], "c".toList] <:+: spacedHunk.newLines ∧
      IsSnippetOf "b\n\nc" ["b", [], "c"] ∧
      resolveIssueLines ⟨some "b\n\nc", none⟩ (parseHunks spacedSection) = none := by
  refine ⟨by decide, .inr (by decide), by decide⟩

end Samples

end Difflore.Review

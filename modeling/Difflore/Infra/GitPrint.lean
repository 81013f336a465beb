import Difflore.Infra.GitDiff

/-! # Diffs as git prints them

Every file has a header with its two paths, further lines about the file, and
hunks. Behind the mark of a hunk line stands any text.
-/

namespace Difflore.Infra

open Foundation Text
open Review (DiffHunkRecord DiffContentRecord)

def Bare (c : Char) : Prop := c ≠ '"' ∧ c ≠ '\\' ∧ 32 ≤ c.toNat ∧ c.toNat ≠ 127

inductive LineMark
  | context
  | removed
  | added
  | noNewline

def LineMark.symbol : LineMark → Char
  | context => ' '
  | removed => '-'
  | added => '+'
  | noNewline => '\\'

structure PrintedHunk where
  ranges : Text
  lines : List (LineMark × Text)
  ranges_oneLine : '\n' ∉ ranges
  lines_oneLine : ∀ line ∈ lines, '\n' ∉ line.2

namespace PrintedHunk

variable (hunk : PrintedHunk)

def header : Text := hunkMark ++ hunk.ranges

def lineTexts : List Text := hunk.lines.map fun line => line.1.symbol :: line.2

def text : List Text := hunk.header :: hunk.lineTexts

def record : DiffHunkRecord := ⟨hunk.header, unlines hunk.lineTexts⟩

end PrintedHunk

/-- A changed text file. Lines between the header and the hunks are no headers of
other kinds. -/
structure ChangedFile where
  oldPath : Text
  newPath : Text
  extended : List Text
  hunks : List PrintedHunk
  oldPath_bare : ∀ c ∈ oldPath, Bare c
  newPath_bare : ∀ c ∈ newPath, Bare c
  newPath_ne : newPath ≠ []
  extended_oneLine : ∀ line ∈ extended, line ≠ [] ∧ '\n' ∉ line
  extended_plain : ∀ line ∈ extended, ¬ hunkMark <+: line ∧ ¬ diffGit <+: line ∧
    ¬ binaryFiles <+: line ∧ stripCr line ≠ gitBinaryPatch

def oldPrefix : Text := ['a', '/']

namespace ChangedFile

variable (file : ChangedFile)

def names : Text := oldPrefix ++ (file.oldPath ++ ' ' :: (newPrefix ++ file.newPath))

def hunkLines : List Text := file.hunks.flatMap PrintedHunk.text

def printed : List Text := (diffGit ++ file.names) :: (file.extended ++ file.hunkLines)

def record : DiffContentRecord := ⟨file.newPath, file.hunks.map PrintedHunk.record⟩

end ChangedFile

def printDiff (files : List ChangedFile) : Text := files.flatMap fun file => unlines file.printed

def secondWord (s : Text) : Text := (trimStart (s.dropWhile wordEnd)).takeWhile wordEnd

/-- The new path is the second word of the header, and no line that is read with its
line feed ends in a carriage return. The last line of a section has no line feed
unless the section is the last. -/
structure ChangedFile.Plain (file : ChangedFile) (last : Bool) : Prop where
  new_word : ∀ c ∈ file.newPath, isWhitespace c = false
  old_word : secondWord (oldPrefix ++ file.oldPath) = [] ∨
    secondWord (oldPrefix ++ file.oldPath) = newPrefix ++ file.newPath
  ends_kept : ∀ line ∈ if last then file.hunkLines else file.hunkLines.dropLast,
    line.getLast? ≠ some '\r'

def AllPlain : List ChangedFile → Prop
  | [] => True
  | file :: rest => file.Plain rest.isEmpty ∧ AllPlain rest

/-! ## The path -/

theorem wordEnd_newPrefix : ∀ c ∈ newPrefix, wordEnd c = true := List.all_eq_true.mp (by decide)

theorem wordEnd_iff {c : Char} : wordEnd c = true ↔ isWhitespace c = false := by
  simp [wordEnd]

theorem parseDiffPathToken_unquoted {input : Text} (hquote : (trimStart input).head? ≠ some '"')
    (hne : (trimStart input).takeWhile wordEnd ≠ []) :
    parseDiffPathToken input = some ((trimStart input).takeWhile wordEnd,
        (trimStart input).dropWhile wordEnd) := by
  have hstrip : stripPrefix ['"'] (trimStart input) = none := by
    rw [stripPrefix, if_neg]
    rintro ⟨rest, hrest⟩
    rw [← hrest] at hquote
    exact hquote rfl
  rw [parseDiffPathToken, hstrip]
  exact if_neg hne

theorem trimStart_of_wordEnd {c : Char} (hc : wordEnd c = true) (rest : Text) :
    trimStart (c :: rest) = c :: rest :=
  List.dropWhile_cons_of_neg (by simp [wordEnd_iff.mp hc])

theorem trimStart_dropWhile_append (s t : Text) {c : Char} (hc : wordEnd c = true) :
    trimStart ((s ++ ' ' :: c :: t).dropWhile wordEnd) =
      if trimStart (s.dropWhile wordEnd) = [] then c :: t
      else trimStart (s.dropWhile wordEnd) ++ ' ' :: c :: t := by
  have hdrop : (s ++ ' ' :: c :: t).dropWhile wordEnd = s.dropWhile wordEnd ++ ' ' :: c :: t := by
    rw [List.dropWhile_append]
    split
    next hempty =>
      rw [List.isEmpty_iff.mp hempty, List.dropWhile_cons_of_neg (by decide)]
      rfl
    next => rfl
  have hblank : trimStart (' ' :: c :: t) = c :: t := by
    rw [trimStart, List.dropWhile_cons_of_pos (by decide)]
    exact trimStart_of_wordEnd hc t
  rw [hdrop, trimStart, List.dropWhile_append, ← trimStart, ← trimStart]
  simp only [List.isEmpty_iff, hblank]

theorem trimStart_trimStart (s : Text) : trimStart (trimStart s) = trimStart s :=
  List.dropWhile_idempotent _ s

theorem wordEnd_of_mem_secondWord {s : Text} {c : Char} (hc : c ∈ secondWord s) :
    wordEnd c = true :=
  List.mem_takeWhile_imp hc

theorem mem_of_mem_trimStart_dropWhile {s : Text} {c : Char}
    (hc : c ∈ trimStart (s.dropWhile wordEnd)) : c ∈ s :=
  (List.dropWhile_suffix _).subset ((List.dropWhile_suffix _).subset hc)

namespace ChangedFile

variable (file : ChangedFile)

theorem trimStart_names : trimStart (file.names.dropWhile wordEnd) =
      if trimStart ((oldPrefix ++ file.oldPath).dropWhile wordEnd) = [] then
        newPrefix ++ file.newPath
      else trimStart ((oldPrefix ++ file.oldPath).dropWhile wordEnd) ++
        ' ' :: (newPrefix ++ file.newPath) := by
  have hnames :
    file.names = (oldPrefix ++ file.oldPath) ++ ' ' :: 'b' :: ('/' :: file.newPath) := by
    simp [names, newPrefix]
  rw [hnames]
  exact trimStart_dropWhile_append _ _ (by decide)

theorem parseBPath_eq : parseBPathFromDiffGit (diffGit ++ file.names) =
      (parseDiffPathToken (trimStart (file.names.dropWhile wordEnd))).bind fun bPath =>
        stripPrefix newPrefix bPath.1 := by
  have hstart : trimStart file.names = file.names := trimStart_of_wordEnd (by decide) _
  have hfirst : parseDiffPathToken file.names =
      some (file.names.takeWhile wordEnd, file.names.dropWhile wordEnd) := by
    rw [parseDiffPathToken_unquoted, hstart]
    · rw [hstart]
      exact fun heq => absurd (Option.some.inj heq) (by decide)
    · rw [hstart, names, oldPrefix, List.cons_append, List.takeWhile_cons_of_pos (by decide)]
      exact List.cons_ne_nil _ _
  rw [parseBPathFromDiffGit, stripPrefix_append, Option.bind_some, hfirst, Option.bind_some]

theorem not_quote_of_mem {c : Char} (hc : c ∈ oldPrefix ++ file.oldPath) : c ≠ '"' := by
  rcases List.mem_append.mp hc with hmem | hmem
  · rintro rfl
    exact absurd hmem (by decide)
  · exact (file.oldPath_bare c hmem).1

theorem parseBPath_iff : parseBPathFromDiffGit (diffGit ++ file.names) = some file.newPath ↔
      (∀ c ∈ file.newPath, isWhitespace c = false) ∧ (secondWord (oldPrefix ++ file.oldPath) = [] ∨
          secondWord (oldPrefix ++ file.oldPath) = newPrefix ++ file.newPath) := by
  have hnames := file.trimStart_names
  have hquote : ∀ c ∈ trimStart ((oldPrefix ++ file.oldPath).dropWhile wordEnd), c ≠ '"' :=
    fun c hc => file.not_quote_of_mem (mem_of_mem_trimStart_dropWhile hc)
  rw [parseBPath_eq]
  by_cases hword : trimStart ((oldPrefix ++ file.oldPath).dropWhile wordEnd) = []
  · have hsecond : secondWord (oldPrefix ++ file.oldPath) = [] := by
      rw [secondWord, hword]
      rfl
    rw [if_pos hword] at hnames
    have hstart : trimStart (newPrefix ++ file.newPath) = newPrefix ++ file.newPath :=
      trimStart_of_wordEnd (by decide) _
    have htake : (newPrefix ++ file.newPath).takeWhile wordEnd =
        newPrefix ++ file.newPath.takeWhile wordEnd :=
      List.takeWhile_append_of_pos wordEnd_newPrefix
    rw [hnames, parseDiffPathToken_unquoted, hstart, htake, Option.bind_some, stripPrefix_append,
      Option.some.injEq, List.takeWhile_eq_self_iff, and_iff_left (.inl hsecond)]
    · simp only [wordEnd_iff]
    · rw [hstart]
      exact fun heq => absurd (Option.some.inj heq) (by decide)
    · rw [hstart, htake]
      exact List.cons_ne_nil _ _
  · rw [if_neg hword] at hnames
    obtain ⟨first, rest, hfirst⟩ := List.exists_cons_of_ne_nil hword
    have hsecond : secondWord (oldPrefix ++ file.oldPath) = (first :: rest).takeWhile wordEnd := by
      rw [secondWord, hfirst]
    have hspace : wordEnd first = true := by
      have hhead := head_trimStart ((oldPrefix ++ file.oldPath).dropWhile wordEnd) first
      rw [hfirst] at hhead
      exact wordEnd_iff.mpr (hhead rfl)
    have hne : secondWord (oldPrefix ++ file.oldPath) ≠ [] := by
      rw [hsecond, List.takeWhile_cons_of_pos hspace]
      exact List.cons_ne_nil _ _
    have hstart : trimStart (trimStart (file.names.dropWhile wordEnd)) =
        first :: rest ++ ' ' :: (newPrefix ++ file.newPath) := by
      rw [trimStart_trimStart, hnames, hfirst]
    have htake : (first :: rest ++ ' ' :: (newPrefix ++ file.newPath)).takeWhile wordEnd =
        secondWord (oldPrefix ++ file.oldPath) := by
      rw [hsecond, List.takeWhile_append]
      split
      next hall =>
        rw [List.takeWhile_cons_of_neg (by decide), List.append_nil]
        exact (List.IsPrefix.eq_of_length (List.takeWhile_prefix _) hall).symm
      next => rfl
    rw [parseDiffPathToken_unquoted, hstart, htake, Option.bind_some]
    · constructor
      · intro hstrip
        have hwords : secondWord (oldPrefix ++ file.oldPath) = newPrefix ++ file.newPath :=
          stripPrefix_eq_some hstrip
        refine ⟨?_, .inr hwords⟩
        intro c hc
        apply wordEnd_iff.mp
        apply wordEnd_of_mem_secondWord (s := oldPrefix ++ file.oldPath)
        rw [hwords]
        exact List.mem_append_right _ hc
      · rintro ⟨_, hnone | hwords⟩
        · exact absurd hnone hne
        · rw [hwords, stripPrefix_append]
    · rw [hstart]
      intro heq
      exact hquote first (by rw [hfirst]; exact .head _) (Option.some.inj heq)
    · rw [hstart, htake]
      exact hne

end ChangedFile

end Difflore.Infra

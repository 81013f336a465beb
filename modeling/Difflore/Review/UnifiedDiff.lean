import Difflore.Review.Sections

/-! # Multi-file unified diffs

The two forms the review reads: as git prints them, and as they are put
together from parsed records. Hunk lines hold any text behind their marker.
-/

namespace Difflore.Review

open Foundation Text

structure UnifiedHunk where
  header : Text
  lines : List Text
  header_marked : isHunkHeader header = true
  header_oneLine : '\n' ∉ header
  lines_oneLine : ∀ line ∈ lines, '\n' ∉ line
  lines_marked : ∀ line ∈ lines, ∀ c ∈ line.head?, c ∈ [' ', '+', '-', '\\']

def UnifiedHunk.text (hunk : UnifiedHunk) : List Text := hunk.header :: hunk.lines

def hunkLines (hunks : List UnifiedHunk) : List Text := (hunks.flatMap UnifiedHunk.text).map stripCr

/-- How git prints a path with special characters: in quotes, some escaped. -/
structure GitQuoting where
  quotes : Char → Bool
  escape : Char → Text
  quotes_quote : quotes '"' = true
  quotes_newline : quotes '\n' = true
  escape_ne_nil : ∀ c, escape c ≠ []
  escape_oneLine : ∀ c, '\n' ∉ escape c

namespace GitQuoting

variable (quoting : GitQuoting)

def label : Option Text → Text
  | none => "/dev/null"
  | some path =>
    if path.any quoting.quotes then
      "\"b/" ++ path.flatMap (fun c => if quoting.quotes c then quoting.escape c else [c]) ++ "\""
    else "b/" ++ path

variable {quoting} in
theorem label_plain {path : Text} (hplain : path.any quoting.quotes = false) :
    quoting.label (some path) = "b/" ++ path := by
  unfold label
  exact if_neg (by rw [hplain]; exact Bool.false_ne_true)

variable {quoting} in
theorem label_quoted {path : Text} (hquoted : path.any quoting.quotes = true) :
    quoting.label (some path) =
      "\"b/" ++ path.flatMap (fun c => if quoting.quotes c then quoting.escape c else [c]) ++
        "\"" := by
  unfold label
  exact if_pos hquoted

/-- The `+++` line; a name with a space is followed by a tab. -/
def newSideLine (path : Option Text) : Text :=
  "+++ " ++ quoting.label path ++ if ' ' ∈ quoting.label path then ['\t'] else []

end GitQuoting

def octalEscape (byte : Nat) : Text :=
  ['\\', Nat.digitChar (byte / 64 % 8), Nat.digitChar (byte / 8 % 8), Nat.digitChar (byte % 8)]

def cEscapes : List (Char × Char) :=
  [('\x07', 'a'), ('\x08', 'b'), ('\t', 't'), ('\n', 'n'), ('\x0b', 'v'), ('\x0c', 'f'),
    ('\r', 'r'), ('"', '"'), ('\\', '\\')]

def cEscape (c : Char) : Text :=
  match cEscapes.lookup c with
  | some letter => ['\\', letter]
  | none => (String.utf8EncodeChar c).flatMap fun byte => octalEscape byte.toNat

theorem newline_not_mem_octalEscape (byte : Nat) : '\n' ∉ octalEscape byte := by
  have hdigit : ∀ digit < 8, '\n' ≠ Nat.digitChar digit := by decide
  have hmod : ∀ n, n % 8 < 8 := fun n => Nat.mod_lt n (by decide)
  simp only [octalEscape, List.mem_cons, List.not_mem_nil, or_false, not_or]
  exact ⟨by decide, hdigit _ (hmod _), hdigit _ (hmod _), hdigit _ (hmod _)⟩

def cQuoting : GitQuoting where
  quotes c := c = '"' || c = '\\' || c.toNat < 32 || 126 < c.toNat
  escape := cEscape
  quotes_quote := by decide
  quotes_newline := by decide
  escape_ne_nil c := by
    unfold cEscape
    split
    next => exact List.cons_ne_nil _ _
    next =>
      cases hbytes : String.utf8EncodeChar c with
      | nil => exact absurd hbytes String.utf8EncodeChar_ne_nil
      | cons byte rest => exact List.cons_ne_nil _ _
  escape_oneLine c := by
    unfold cEscape
    split
    next letter hletter =>
      have hletters : ∀ entry ∈ cEscapes, '\n' ∉ ['\\', entry.2] := by decide
      obtain ⟨front, back, heq, _⟩ := List.lookup_eq_some_iff.mp hletter
      exact hletters (c, letter) (by rw [heq]; exact List.mem_append_right _ (.head _))
    next =>
      intro hmem
      obtain ⟨byte, _, hbyte⟩ := List.mem_flatMap.mp hmem
      exact newline_not_mem_octalEscape _ hbyte

/-- One file as git prints it. Lines in front of the new side's name are the
`diff --git` line, and others that are no headers of the kinds looked for. -/
structure GitFile where
  names : Text
  extended : List Text
  newPath : Option Text
  hunks : List UnifiedHunk
  names_oneLine : '\n' ∉ names
  extended_oneLine : ∀ line ∈ extended, '\n' ∉ line
  extended_plain : ∀ line ∈ extended, isGitHeader line = false ∧ isHunkHeader line = false ∧
    ¬ "+++ " <+: line
  deleted_adds_nothing : newPath = none → ∀ hunk ∈ hunks, ∀ line ∈ hunk.lines, line.head? ≠ some '+'

namespace GitFile

variable (quoting : GitQuoting) (file : GitFile)

/-- The lines behind the `diff --git` line. -/
def rest : List Text := file.extended ++ if file.hunks = [] then []
    else quoting.newSideLine file.newPath :: file.hunks.flatMap UnifiedHunk.text

def text : Text :=
  unlines (("diff --git " ++ file.names) :: file.rest quoting)

end GitFile

structure RecordFile where
  path : Text
  hunks : List UnifiedHunk
  path_oneLine : '\n' ∉ path

namespace RecordFile

def record (file : RecordFile) : DiffContentRecord where
  filePath := file.path
  hunks := file.hunks.map fun hunk => ⟨hunk.header, unlines hunk.lines⟩

def lines (file : RecordFile) : List Text :=
  ("--- a/" ++ file.path) :: ("+++ b/" ++ file.path) ::
    file.hunks.flatMap UnifiedHunk.text

theorem diffRecordPatch_record (file : RecordFile) :
    diffRecordPatch file.record = unlines file.lines := by
  have hhunks : (file.hunks.map fun hunk =>
        (⟨hunk.header, unlines hunk.lines⟩ : DiffHunkRecord)).flatMap
          (fun hunk => hunk.header ++ "\n".toList ++ hunk.body) =
      unlines (file.hunks.flatMap UnifiedHunk.text) := by
    induction file.hunks with
    | nil => rfl
    | cons hunk rest ih =>
      rw [List.map_cons, List.flatMap_cons, ih, List.flatMap_cons, unlines_append]
      simp [UnifiedHunk.text, unlines]
  unfold diffRecordPatch record lines
  rw [hhunks]
  simp [unlines]

end RecordFile

inductive MultiFileDiff (quoting : GitQuoting)
  | git (files : List GitFile) (distinct : (files.filterMap GitFile.newPath).Nodup)
  | records (files : List RecordFile)

namespace MultiFileDiff

variable {quoting : GitQuoting}

def text : MultiFileDiff quoting → Text
  | git files _ => files.flatMap (GitFile.text quoting)
  | records files => diffRecordsToString (files.map RecordFile.record)

def changed : MultiFileDiff quoting → List (Text × List UnifiedHunk)
  | git files _ =>
    (files.filter (!·.hunks.isEmpty)).filterMap fun file => file.newPath.map (·, file.hunks)
  | records files => (files.filter (!·.hunks.isEmpty)).map fun file => (file.path, file.hunks)

def ownHunks (diff : MultiFileDiff quoting) (path : Text) : List DiffHunk :=
  match diff.changed.lookup path with
  | none => []
  | some hunks => parseHunks (unlines (hunkLines hunks))

end MultiFileDiff

section Read

theorem hunk_line_head {hunk : UnifiedHunk} {line : Text} (hline : line ∈ hunk.lines) :
    ∀ c ∈ (stripCr line).head?, c ∈ [' ', '+', '-', '\\'] := by
  intro c hc
  apply hunk.lines_marked line hline
  rcases stripCr_cases line with heq | heq
  · rwa [← heq] at hc
  · rw [heq]
    cases hstripped : stripCr line with
    | nil => simp [hstripped] at hc
    | cons first others =>
      rw [hstripped] at hc
      exact hc

theorem isGitHeader_of_head {line : Text} (hhead : ∀ c ∈ line.head?, c ≠ 'd') :
    isGitHeader line = false := by
  cases line with
  | nil => rfl
  | cons c rest =>
    have hc : c ≠ 'd' := hhead c rfl
    simp [isGitHeader, List.isPrefixOf, Ne.symm hc]

theorem isHunkHeader_of_head {line : Text} (hhead : ∀ c ∈ line.head?, c ≠ '@') :
    isHunkHeader line = false := by
  cases line with
  | nil => rfl
  | cons c rest =>
    have hc : c ≠ '@' := hhead c rfl
    simp [isHunkHeader, List.isPrefixOf, Ne.symm hc]

theorem namedPath_of_head {line : Text} (hhead : line.head? ≠ some '+') :
    namedPath line = none := by
  cases hnamed : namedPath line with
  | none => rfl
  | some path =>
    obtain ⟨rest, rfl⟩ := (namedPath_spec hnamed).1
    exact absurd rfl hhead

theorem hunk_header_head (hunk : UnifiedHunk) : (stripCr hunk.header).head? = some '@' := by
  have hmarked := hunk.header_marked
  rw [← isHunkHeader_stripCr, isHunkHeader, List.isPrefixOf_iff_prefix] at hmarked
  obtain ⟨rest, hrest⟩ := hmarked
  rw [← hrest]
  rfl

theorem hunkLines_oneLine (hunks : List UnifiedHunk) : ∀ line ∈ hunkLines hunks, '\n' ∉ line := by
  intro line hline
  obtain ⟨raw, hraw, rfl⟩ := List.mem_map.mp hline
  obtain ⟨hunk, _, hmem⟩ := List.mem_flatMap.mp hraw
  apply newline_not_mem_stripCr
  rcases List.mem_cons.mp hmem with rfl | hmem
  · exact hunk.header_oneLine
  · exact hunk.lines_oneLine raw hmem

theorem isGitHeader_hunkLines (hunks : List UnifiedHunk) :
    ∀ line ∈ hunkLines hunks, isGitHeader line = false := by
  intro line hline
  obtain ⟨raw, hraw, rfl⟩ := List.mem_map.mp hline
  obtain ⟨hunk, _, hmem⟩ := List.mem_flatMap.mp hraw
  rcases List.mem_cons.mp hmem with rfl | hmem
  · apply isGitHeader_of_head
    rw [hunk_header_head]
    rintro c ⟨⟩
    decide
  · apply isGitHeader_of_head
    rintro c hc rfl
    exact absurd (hunk_line_head hmem _ hc) (by decide)

theorem hunkLines_cons {hunks : List UnifiedHunk} (hne : hunks ≠ []) :
    ∃ header rest, hunkLines hunks = header :: rest ∧ isHunkHeader header = true ∧
      namedPath header = none := by
  cases hunks with
  | nil => contradiction
  | cons hunk others =>
    have hmarked : isHunkHeader (stripCr hunk.header) = true := by
      rw [isHunkHeader_stripCr]
      exact hunk.header_marked
    refine ⟨stripCr hunk.header, _, rfl, hmarked, namedPath_of_head ?_⟩
    rw [hunk_header_head]
    decide

end Read

end Difflore.Review

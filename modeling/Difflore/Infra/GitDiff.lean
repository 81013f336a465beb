import Difflore.Foundation.LetterCode
import Difflore.Foundation.Marker
import Difflore.Review.UnifiedDiff

/-! # Reading a diff that git printed

Sections are split at the `diff --git` headers, the path is the second word of the
header or a quoted string, and hunks are collected line by line.
-/

namespace Difflore.Infra

open Foundation Text
open Review (DiffHunkRecord DiffContentRecord)

def octalDigit (c : Char) : Option Nat :=
  if '0'.toNat ≤ c.toNat ∧ c.toNat ≤ '7'.toNat then some (c.toNat - '0'.toNat) else none

/-- Read at most `count` more octal digits. -/
def readOctal (value : Nat) : Nat → Text → Nat × Text
  | 0, rest => (value, rest)
  | _ + 1, [] => (value, [])
  | count + 1, c :: rest =>
    (octalDigit c).elim (value, c :: rest) fun digit => readOctal (value * 8 + digit) count rest

theorem length_readOctal (value count : Nat) (rest : Text) :
    (readOctal value count rest).2.length ≤ rest.length := by
  induction count generalizing value rest with
  | zero => exact le_refl _
  | succ count ih =>
    cases rest with
    | nil => exact le_refl _
    | cons c rest =>
      rw [readOctal]
      cases octalDigit c with
      | none => exact le_refl _
      | some digit => exact (ih _ rest).trans (Nat.le_succ _)

/-- What a backslash and this character stand for, unless it is an octal digit. -/
def unescape (c : Char) : Char :=
  if c = 'n' then '\n' else if c = 'r' then '\r' else if c = 't' then '\t' else c

def parseQuotedDiffPath (input : Text) (out : Text) : Option (Text × Text) :=
  match input with
  | [] => none
  | c :: rest =>
    if c = '"' then some (out, rest)
    else if c = '\\' then
      match rest with
      | [] => none
      | escaped :: rest =>
        match octalDigit escaped with
        | some digit =>
          parseQuotedDiffPath (readOctal digit 2 rest).2
            (out ++ [Char.ofNat (readOctal digit 2 rest).1])
        | none => parseQuotedDiffPath rest (out ++ [unescape escaped])
    else parseQuotedDiffPath rest (out ++ [c])
  termination_by input.length
  decreasing_by
    · have hrest := length_readOctal digit 2 rest
      simp only [List.length_cons]
      omega
    · simp only [List.length_cons]
      omega
    · simp only [List.length_cons]
      omega

def wordEnd (c : Char) : Bool := !isWhitespace c

def parseDiffPathToken (input : Text) : Option (Text × Text) :=
  let input := trimStart input
  (stripPrefix ['"'] input).elim
    (if input.takeWhile wordEnd = [] then none
      else some (input.takeWhile wordEnd, input.dropWhile wordEnd))
    fun rest => parseQuotedDiffPath rest []

def diffGit : Text := "diff --git "

def newPrefix : Text := ['b', '/']

def parseBPathFromDiffGit (firstLine : Text) : Option Text :=
  (stripPrefix diffGit firstLine).bind fun rest =>
    (parseDiffPathToken rest).bind fun aPath =>
      (parseDiffPathToken (trimStart aPath.2)).bind fun bPath =>
        stripPrefix newPrefix bPath.1

def hunkMark : Text := ['@', '@']

/-- `current` is the hunk being read. -/
def hunksFrom (current : Option DiffHunkRecord) : List Text → List DiffHunkRecord
  | [] => current.toList
  | line :: rest =>
    if hunkMark.isPrefixOf line then current.toList ++ hunksFrom (some ⟨line, []⟩) rest
    else hunksFrom (current.map fun hunk => ⟨hunk.header, hunk.body ++ (line ++ ['\n'])⟩) rest

def parseHunks (diffSection : Text) : List DiffHunkRecord := hunksFrom none (Text.lines diffSection)

def binaryFiles : Text := "Binary files "

def gitBinaryPatch : Text := "GIT binary patch"

def isBinaryDiffSection (diffSection : Text) : Bool :=
  (Text.lines diffSection).any fun line => binaryFiles.isPrefixOf line || line = gitBinaryPatch

def sectionRecord (diffSection : Text) : Option DiffContentRecord :=
  let filePath := (parseBPathFromDiffGit ((Text.lines diffSection).headD [])).getD []
  if filePath = [] then none
  else if parseHunks diffSection = [] && isBinaryDiffSection diffSection then none
  else some ⟨filePath, parseHunks diffSection⟩

def sections (output : Text) : List Text := (match split ('\n' :: diffGit) output with
    | [] => []
    | first :: rest => first :: rest.map (diffGit ++ ·)).filter fun part => trim part ≠ []

def parseGitDiff (output : Text) : List DiffContentRecord :=
  if trim output = [] then []
  else if (sections output).length = 1 && !diffGit.isPrefixOf ((sections output).headD []) then []
  else (sections output).filterMap sectionRecord

/-! ## Reading back the paths that git quotes

Git escapes the bytes of a path. Reading gives one character for each escape, so what comes back
is computed character by character, and it is the path where each of its characters comes back.
-/

@[simp]
theorem parseQuotedDiffPath_quote (rest out : Text) :
    parseQuotedDiffPath ('"' :: rest) out = some (out, rest) := by
  rw [parseQuotedDiffPath.eq_def]
  exact if_pos rfl

theorem parseQuotedDiffPath_plain {c : Char} (hquote : c ≠ '"') (hslash : c ≠ '\\')
    (s out : Text) : parseQuotedDiffPath (c :: s) out = parseQuotedDiffPath s (out ++ [c]) := by
  rw [parseQuotedDiffPath.eq_def]
  exact (if_neg hquote).trans (if_neg hslash)

theorem parseQuotedDiffPath_escape {letter : Char} (hletter : octalDigit letter = none)
    (s out : Text) : parseQuotedDiffPath ('\\' :: letter :: s) out =
      parseQuotedDiffPath s (out ++ [unescape letter]) := by
  rw [parseQuotedDiffPath, if_neg (by decide), if_pos rfl]
  simp only [hletter]

theorem parseQuotedDiffPath_octal {letter : Char} {digit : Nat}
    (hletter : octalDigit letter = some digit) (s out : Text) :
    parseQuotedDiffPath ('\\' :: letter :: s) out = parseQuotedDiffPath (readOctal digit 2 s).2
        (out ++ [Char.ofNat (readOctal digit 2 s).1]) := by
  rw [parseQuotedDiffPath, if_neg (by decide), if_pos rfl]
  simp only [hletter]

theorem octalDigit_digitChar (n : Nat) : octalDigit (Nat.digitChar (n % 8)) = some (n % 8) := by
  have hdigits : ∀ digit < 8, octalDigit (Nat.digitChar digit) = some digit := by decide
  exact hdigits _ (Nat.mod_lt n (by decide))

theorem readOctal_digitChar (value count n : Nat) (s : Text) :
    readOctal value (count + 1) (Nat.digitChar (n % 8) :: s) =
      readOctal (value * 8 + n % 8) count s := by
  rw [readOctal, octalDigit_digitChar]
  rfl

theorem parseQuotedDiffPath_octalEscape {byte : Nat} (hbyte : byte < 256) (s out : Text) :
    parseQuotedDiffPath (Review.octalEscape byte ++ s) out =
      parseQuotedDiffPath s (out ++ [Char.ofNat byte]) := by
  have hread : readOctal (byte / 64 % 8) 2
      (Nat.digitChar (byte / 8 % 8) :: Nat.digitChar (byte % 8) :: s) = (byte, s) := by
    rw [readOctal_digitChar, readOctal_digitChar, readOctal]
    refine Prod.ext ?_ rfl
    show (byte / 64 % 8 * 8 + byte / 8 % 8) * 8 + byte % 8 = byte
    omega
  rw [Review.octalEscape, List.cons_append, List.cons_append,
    parseQuotedDiffPath_octal (octalDigit_digitChar _)]
  rw [List.cons_append, List.cons_append, List.nil_append, hread]

theorem parseQuotedDiffPath_bytes (bytes : List UInt8) (s out : Text) :
    parseQuotedDiffPath (bytes.flatMap (fun byte => Review.octalEscape byte.toNat) ++ s) out =
      parseQuotedDiffPath s (out ++ bytes.map fun byte => Char.ofNat byte.toNat) := by
  induction bytes generalizing out with
  | nil => simp
  | cons byte bytes ih =>
    rw [List.flatMap_cons, List.append_assoc,
      parseQuotedDiffPath_octalEscape byte.toNat_lt, ih, List.map_cons, List.append_assoc]
    rfl

def quotedLetter (c : Char) : Text :=
  if Review.cQuoting.quotes c then Review.cEscape c else [c]

def readLetter (c : Char) : Text :=
  if Review.cQuoting.quotes c then
    match Review.cEscapes.lookup c with
    | some letter => [unescape letter]
    | none => (String.utf8EncodeChar c).map fun byte => Char.ofNat byte.toNat
  else [c]

theorem octalDigit_letter {c letter : Char} (hlookup : Review.cEscapes.lookup c = some letter) :
    octalDigit letter = none := by
  have hletters : ∀ entry ∈ Review.cEscapes, octalDigit entry.2 = none := by decide
  obtain ⟨front, back, heq, -⟩ := List.lookup_eq_some_iff.mp hlookup
  exact hletters (c, letter) (heq ▸ List.mem_append_right _ (.head _))

theorem parseQuotedDiffPath_quotedLetter (c : Char) (s out : Text) :
    parseQuotedDiffPath (quotedLetter c ++ s) out =
      parseQuotedDiffPath s (out ++ readLetter c) := by
  unfold quotedLetter readLetter
  cases hquotes : Review.cQuoting.quotes c with
  | false =>
    rw [if_neg Bool.false_ne_true, if_neg Bool.false_ne_true, List.singleton_append]
    have hplain : ∀ d, Review.cQuoting.quotes d = true → c ≠ d := by
      rintro d hd rfl
      rw [hquotes] at hd
      contradiction
    exact parseQuotedDiffPath_plain (hplain _ rfl) (hplain _ rfl) s out
  | true =>
    rw [if_pos rfl, if_pos rfl, Review.cEscape]
    cases hlookup : Review.cEscapes.lookup c with
    | some letter => exact parseQuotedDiffPath_escape (octalDigit_letter hlookup) s out
    | none => exact parseQuotedDiffPath_bytes _ s out

def quotedText (path : Text) : Text := path.flatMap quotedLetter

def quotedForm (path : Text) : Text := '"' :: (quotedText path ++ ['"'])

theorem parseQuotedDiffPath_quotedText (path rest out : Text) :
    parseQuotedDiffPath (quotedText path ++ '"' :: rest) out =
      some (out ++ path.flatMap readLetter, rest) := by
  unfold quotedText
  induction path generalizing out with
  | nil =>
    rw [List.flatMap_nil, List.flatMap_nil, List.append_nil]
    exact parseQuotedDiffPath_quote rest out
  | cons c path ih =>
    rw [List.flatMap_cons, List.append_assoc, parseQuotedDiffPath_quotedLetter, ih,
      List.flatMap_cons, List.append_assoc]

/-- The characters that come back: ASCII, but for the four whose escape is a letter the reader
does not know. -/
def ReadsBack (c : Char) : Prop := c.toNat < 128 ∧ c.toNat ∉ [7, 8, 11, 12]

instance (c : Char) : Decidable (ReadsBack c) := inferInstanceAs (Decidable (_ ∧ _))

theorem readLetter_ne_nil (c : Char) : readLetter c ≠ [] := by
  unfold readLetter
  split
  next =>
    split
    next => exact List.cons_ne_nil _ _
    next =>
      rw [ne_eq, List.map_eq_nil_iff]
      exact String.utf8EncodeChar_ne_nil
  next => exact List.cons_ne_nil _ _

theorem readLetter_ascii : ∀ n < 128,
    (readLetter (Char.ofNat n) = [Char.ofNat n] ↔ ReadsBack (Char.ofNat n)) := by decide

theorem readLetter_wide {c : Char} (hc : 128 ≤ c.toNat) : readLetter c ≠ [c] := by
  have hquotes : Review.cQuoting.quotes c = true := by
    have hwide : 126 < c.toNat := by omega
    show (_ || decide (126 < c.toNat)) = true
    rw [decide_eq_true hwide, Bool.or_true]
  have hlookup : Review.cEscapes.lookup c = none := by
    have hnarrow : ∀ entry ∈ Review.cEscapes, entry.1.toNat < 128 := by decide
    rw [List.lookup_eq_none_iff]
    intro entry hentry
    have hentry := hnarrow entry hentry
    rw [bne_iff_ne]
    rintro rfl
    omega
  have hsize : c.utf8Size ≠ 1 := by
    intro hone
    have hval := UInt32.le_iff_toNat_le.mp (Char.utf8Size_eq_one_iff.mp hone)
    have hbound : (127 : UInt32).toNat = 127 := rfl
    have htoNat : c.val.toNat = c.toNat := rfl
    omega
  intro hself
  unfold readLetter at hself
  rw [if_pos hquotes, hlookup] at hself
  have hlength := congrArg List.length hself
  rw [List.length_map, String.length_utf8EncodeChar] at hlength
  exact hsize hlength

theorem readLetter_eq_iff (c : Char) : readLetter c = [c] ↔ ReadsBack c := by
  by_cases hc : c.toNat < 128
  · have hascii := readLetter_ascii c.toNat hc
    rwa [Char.ofNat_toNat] at hascii
  · exact iff_of_false (readLetter_wide (by omega)) fun hreads => hc hreads.1

theorem flatMap_readLetter_iff (path : Text) :
    path.flatMap readLetter = path ↔ ∀ c ∈ path, ReadsBack c := by
  rw [LetterCode.flatMap_eq_self_iff readLetter_ne_nil]
  exact forall₂_congr fun c _ => readLetter_eq_iff c

end Difflore.Infra

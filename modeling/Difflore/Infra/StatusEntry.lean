import Difflore.Foundation.Occurrence
import Difflore.Infra.GitDiff
import Difflore.Infra.Hex

/-! # Reading the lines of `git status --porcelain`

A line is two status letters, a space, and a path in quotes or as it is. The line of a rename or
a copy has the path it came from in front of an arrow.
-/

namespace Difflore.Infra

open Foundation Text

/-- Cut a text at a byte offset; there is no cut inside a character. -/
def splitAtByte : Nat → Text → Option (Text × Text)
  | 0, s => some ([], s)
  | _ + 1, [] => none
  | count + 1, c :: s =>
    if c.utf8Size ≤ count + 1 then
      (splitAtByte (count + 1 - c.utf8Size) s).map fun cut => (c :: cut.1, cut.2)
    else none
  termination_by _ s => s

def branchPrefix : Text := "## "

def arrow : Text := " -> "

def parsePorcelainPath (rawPath : Text) : Option Text :=
  let rawPath := trim rawPath
  if rawPath = [] then none
  else
    match stripPrefix ['"'] rawPath with
    | some rest => (parseQuotedDiffPath rest []).map Prod.fst
    | none => some rawPath

def parsePorcelainRenameDestination (rawPath : Text) : Option Text :=
  match stripPrefix ['"'] rawPath with
  | some source =>
    (parseQuotedDiffPath source []).bind fun cut =>
      (stripPrefix ['-', '>'] (trimStart cut.2)).bind fun rest =>
        parsePorcelainPath (trimStart rest)
  | none => (rsplitOnce arrow rawPath).bind fun cut => parsePorcelainPath cut.2

def renames (letter : Option Char) : Bool := letter = some 'R' || letter = some 'C'

def parsePorcelainStatusLine (line : Text) : Option (Text × Text) :=
  if branchPrefix.isPrefixOf line || byteLength line < 4 then none
  else
    (splitAtByte 2 line).bind fun front =>
      (splitAtByte 3 line).bind fun back =>
        let status := front.1
        let rawPath := trim back.2
        if rawPath = [] then none
        else
          (if renames status[0]? || renames status[1]? then
            parsePorcelainRenameDestination rawPath
          else parsePorcelainPath rawPath).bind fun path =>
            if path = [] then none else some (status, path)

/-! ## Status lines with a quoted path

The lines git prints for a path in quotes: one that stays where it is, or one that was renamed or
copied. The path a file came from may be in quotes too, or stand there as it is.
-/

/-- Two status letters. The line of the branch starts with two hash signs. -/
structure StatusCode where
  x : Char
  y : Char
  x_ascii : x.toNat < 128
  y_ascii : y.toNat < 128
  not_branch : ¬ (x = '#' ∧ y = '#')

namespace StatusCode

variable (code : StatusCode)

def text : Text := [code.x, code.y]

def moves : Bool := renames (some code.x) || renames (some code.y)

end StatusCode

inductive PrintedSource
  | quoted (path : Text)
  | plain (path : Text) (unquoted : path.any Review.cQuoting.quotes = false)
      (nonblank : trimStart path ≠ [])

def PrintedSource.text : PrintedSource → Text
  | quoted path => quotedForm path
  | plain path _ _ => path

structure StatusEntry where
  code : StatusCode
  source : Option PrintedSource
  path : Text
  source_isSome : source.isSome = code.moves
  path_ne_nil : path ≠ []

namespace StatusEntry

def lead : Option PrintedSource → Text
  | none => []
  | some source => source.text ++ arrow

def rawPath (entry : StatusEntry) : Text := lead entry.source ++ quotedForm entry.path

def line (entry : StatusEntry) : Text := entry.code.text ++ ' ' :: entry.rawPath

/-- Behind a source without quotes the last arrow of the line is looked for. -/
def ArrowFound (path : Text) : Option PrintedSource → Prop
  | some (.plain _ _ _) => ¬ arrow <:+: path
  | _ => True

end StatusEntry

theorem quotedForm_eq (path : Text) : quotedForm path = '"' :: quotedText path ++ ['"'] := rfl

theorem quotedForm_ne_nil (path : Text) : quotedForm path ≠ [] := List.cons_ne_nil _ _

theorem trim_append_quotedForm {front : Text} (hfront : trimStart front ≠ [] ∨ front = [])
    (path : Text) :
    trim (front ++ quotedForm path) = trimStart front ++ quotedForm path := by
  have hstart : trimStart (front ++ quotedForm path) = trimStart front ++ quotedForm path := by
    obtain hne | rfl := hfront
    · unfold trimStart at hne ⊢
      rw [List.dropWhile_append, if_neg (by simpa using hne)]
    · exact List.dropWhile_cons_of_neg (by decide)
  rw [trim, hstart, quotedForm_eq, ← List.append_assoc]
  exact List.rdropWhile_concat_neg _ _ _ (by decide)

theorem trim_quotedForm (path : Text) : trim (quotedForm path) = quotedForm path :=
  trim_append_quotedForm (.inr rfl) path

theorem stripPrefix_quotedForm (path rest : Text) :
    stripPrefix ['"'] (quotedForm path ++ rest) = some (quotedText path ++ '"' :: rest) := by
  rw [quotedForm, List.cons_append, List.append_assoc]
  exact stripPrefix_append ['"'] _

theorem parsePorcelainPath_quotedForm (path : Text) :
    parsePorcelainPath (quotedForm path) = some (path.flatMap readLetter) := by
  have hstrip := stripPrefix_quotedForm path []
  rw [List.append_nil] at hstrip
  unfold parsePorcelainPath
  rw [trim_quotedForm]
  simp only [quotedForm_ne_nil, if_false, hstrip, parseQuotedDiffPath_quotedText,
    Option.map_some, List.nil_append]

theorem parsePorcelainPath_eq_some {rawPath path : Text}
    (hread : parsePorcelainPath rawPath = some path) :
    (∃ tail, trim rawPath = '"' :: tail ∧
      (parseQuotedDiffPath tail []).map Prod.fst = some path) ∨ trim rawPath = path := by
  simp only [parsePorcelainPath] at hread
  split at hread
  next => contradiction
  next =>
    split at hread
    next tail htail => exact .inl ⟨tail, stripPrefix_eq_some htail, hread⟩
    next => exact .inr (Option.some.inj hread)

theorem splitAtByte_ascii {c : Char} (hc : c.toNat < 128) (count : Nat) (s : Text) :
    splitAtByte (count + 1) (c :: s) = (splitAtByte count s).map fun cut =>
      (c :: cut.1, cut.2) := by
  have hsize : c.utf8Size = 1 :=
    Char.utf8Size_eq_one_iff.mpr (UInt32.le_iff_toNat_le.mpr (Nat.le_of_lt_succ hc))
  rw [splitAtByte, hsize, if_pos (by omega), Nat.add_sub_cancel]

theorem length_le_byteLength (s : Text) : s.length ≤ byteLength s := by
  induction s with
  | nil => exact le_refl _
  | cons c s ih =>
    have hpos := c.utf8Size_pos
    unfold byteLength at ih ⊢
    rw [List.map_cons, List.sum_cons, List.length_cons]
    omega

theorem parsePorcelainStatusLine_code (code : StatusCode) {raw : Text} (hraw : trim raw ≠ []) :
    parsePorcelainStatusLine (code.text ++ ' ' :: raw) =
      (if code.moves then parsePorcelainRenameDestination (trim raw)
        else parsePorcelainPath (trim raw)).bind fun path =>
          if path = [] then none else some (code.text, path) := by
  have hbranch : branchPrefix.isPrefixOf (code.text ++ ' ' :: raw) = false := by
    rw [Bool.eq_false_iff, ne_eq, List.isPrefixOf_iff_prefix]
    rintro ⟨rest, hrest⟩
    obtain ⟨hx, hrest⟩ := List.cons.inj hrest
    exact code.not_branch ⟨hx.symm, (List.cons.inj hrest).1.symm⟩
  have hlength : ¬ byteLength (code.text ++ ' ' :: raw) < 4 := by
    have hle := length_le_byteLength (code.text ++ ' ' :: raw)
    have hpos : 0 < raw.length := by
      refine List.length_pos_of_ne_nil ?_
      rintro rfl
      exact hraw rfl
    have htotal : (code.text ++ ' ' :: raw).length = raw.length + 3 := rfl
    omega
  have htwo : splitAtByte 2 (code.text ++ ' ' :: raw) = some (code.text, ' ' :: raw) := by
    unfold StatusCode.text
    rw [List.cons_append, List.cons_append, splitAtByte_ascii code.x_ascii,
      splitAtByte_ascii code.y_ascii, List.nil_append, splitAtByte]
    rfl
  have hthree : splitAtByte 3 (code.text ++ ' ' :: raw) = some (code.text ++ [' '], raw) := by
    unfold StatusCode.text
    rw [List.cons_append, List.cons_append, splitAtByte_ascii code.x_ascii,
      splitAtByte_ascii code.y_ascii, List.nil_append, splitAtByte_ascii (by decide), splitAtByte]
    rfl
  unfold parsePorcelainStatusLine
  rw [hbranch, Bool.false_or, decide_eq_false hlength, if_neg Bool.false_ne_true, htwo, hthree,
    Option.bind_some, Option.bind_some]
  exact if_neg hraw

/-! ## Renames -/

theorem renameDestination_quoted (source path : Text) :
    parsePorcelainRenameDestination (quotedForm source ++ arrow ++ quotedForm path) =
      some (path.flatMap readLetter) := by
  have harrow : trimStart (arrow ++ quotedForm path) = ['-', '>'] ++ (' ' :: quotedForm path) := by
    rw [show arrow = [' ', '-', '>', ' '] from rfl]
    rfl
  have hdest : trimStart (' ' :: quotedForm path) = quotedForm path :=
    (List.dropWhile_cons_of_pos (by decide)).trans (List.dropWhile_cons_of_neg (by decide))
  unfold parsePorcelainRenameDestination
  rw [List.append_assoc, stripPrefix_quotedForm]
  show (parseQuotedDiffPath _ []).bind _ = _
  rw [parseQuotedDiffPath_quotedText, Option.bind_some, harrow, stripPrefix_append,
    Option.bind_some, hdest, parsePorcelainPath_quotedForm]

theorem renameDestination_plain {source : Text} (hsource : ∀ c ∈ source, c ≠ '"') (rest : Text)
    (hne : source ≠ []) :
    parsePorcelainRenameDestination (source ++ rest) =
      (rsplitOnce arrow (source ++ rest)).bind fun cut => parsePorcelainPath cut.2 := by
  have hstrip : stripPrefix ['"'] (source ++ rest) = none := by
    obtain ⟨c, source, rfl⟩ := List.exists_cons_of_ne_nil hne
    rw [stripPrefix_eq_none, List.cons_append, List.cons_prefix_cons]
    intro hquote
    exact hsource c (.head _) hquote.1.symm
  unfold parsePorcelainRenameDestination
  rw [hstrip]

theorem mem_cEscape {c d : Char} (hd : d ∈ Review.cEscape c) :
    d = '\\' ∨ (c, d) ∈ Review.cEscapes ∨ ∃ digit < 8, d = Nat.digitChar digit := by
  unfold Review.cEscape at hd
  split at hd
  next letter hletter =>
    obtain ⟨front, back, heq, -⟩ := List.lookup_eq_some_iff.mp hletter
    obtain rfl | rfl := List.mem_pair.mp hd
    · exact .inl rfl
    · exact .inr (.inl (heq ▸ List.mem_append_right _ (.head _)))
  next =>
    obtain ⟨byte, -, hbyte⟩ := List.mem_flatMap.mp hd
    simp only [Review.octalEscape, List.mem_cons, List.not_mem_nil, or_false] at hbyte
    obtain hslash | hdigit | hdigit | hdigit := hbyte
    · exact .inl hslash
    · exact .inr (.inr ⟨_, Nat.mod_lt _ (by decide), hdigit⟩)
    · exact .inr (.inr ⟨_, Nat.mod_lt _ (by decide), hdigit⟩)
    · exact .inr (.inr ⟨_, Nat.mod_lt _ (by decide), hdigit⟩)

theorem quotedLetter_keeps_arrow : LetterCode.Keeps quotedLetter arrow where
  ne_nil c := by
    unfold quotedLetter
    split
    next => exact Review.cQuoting.escape_ne_nil c
    next => exact List.cons_ne_nil _ _
  plain a ha := by
    have hplain : arrow.all (fun a => quotedLetter a = [a]) = true := by decide
    exact of_decide_eq_true (List.all_eq_true.mp hplain a ha)
  other c hc d hd := by
    have hletters : ∀ entry ∈ Review.cEscapes, entry.2 ∉ arrow := by decide
    have hdigits : ∀ digit < 8, Nat.digitChar digit ∉ arrow := by decide
    unfold quotedLetter at hc hd
    split at hd
    next hquotes =>
      obtain rfl | hentry | ⟨digit, hlt, rfl⟩ := mem_cEscape hd
      · decide
      · exact hletters _ hentry
      · exact hdigits digit hlt
    next hquotes => exact absurd (if_neg hquotes) hc

theorem arrow_infix_quotedText (path : Text) : arrow <:+: quotedText path ↔ arrow <:+: path :=
  LetterCode.Keeps.infix_iff quotedLetter_keeps_arrow

/-- Only the character `"` itself is written with a quote. -/
theorem quote_not_mem_quotedLetter {c : Char} (hc : c ≠ '"') : '"' ∉ quotedLetter c := by
  have hletters : ∀ entry ∈ Review.cEscapes, entry.2 = '"' → entry.1 = '"' := by decide
  have hdigits : ∀ digit < 8, '"' ≠ Nat.digitChar digit := by decide
  intro hmem
  unfold quotedLetter at hmem
  split at hmem
  next =>
    obtain hslash | hentry | ⟨digit, hlt, hdigit⟩ := mem_cEscape hmem
    · contradiction
    · exact hc (hletters _ hentry rfl)
    · exact hdigits digit hlt hdigit
  next => exact hc (List.mem_singleton.mp hmem).symm

theorem closing_quote {path front back : Text}
    (hsplit : quotedText path ++ ['"'] = front ++ '"' :: back)
    (hfront : front.getLast? ≠ some '\\') : back = [] := by
  induction path generalizing front with
  | nil =>
    have hlength := congrArg List.length hsplit
    rw [List.length_append, List.length_cons] at hlength
    exact List.eq_nil_of_length_eq_zero (by simp [quotedText] at hlength; omega)
  | cons c path ih =>
    have hlater : ∀ {word later : Text}, front = word ++ later → later.getLast? ≠ some '\\' := by
      rintro word later rfl hlast
      rw [List.getLast?_append, hlast] at hfront
      exact hfront rfl
    unfold quotedText at hsplit ih
    rw [List.flatMap_cons, List.append_assoc] at hsplit
    by_cases hc : c = '"'
    · subst hc
      rw [show quotedLetter '"' = ['\\', '"'] from rfl, List.cons_append] at hsplit
      -- the letter is the quote behind its backslash
      cases front with
      | nil => exact absurd (List.cons.inj hsplit).1 (by decide)
      | cons slash front =>
        obtain ⟨hslash, hquote⟩ := List.cons.inj hsplit
        subst hslash
        cases front with
        | nil => exact absurd rfl hfront
        | cons quote front =>
          obtain ⟨hquote, hrest⟩ := List.cons.inj hquote
          exact ih hrest (@hlater ['\\', quote] front rfl)
    · obtain ⟨later, heq, hsplit⟩ | ⟨later, heq, hsplit⟩ := List.append_eq_append_iff.mp hsplit
      · exact ih hsplit (hlater heq)
      · cases later with
        | nil => exact @ih [] hsplit.symm (by simp)
        | cons d later =>
          obtain ⟨rfl, -⟩ := List.cons.inj hsplit
          refine absurd ?_ (quote_not_mem_quotedLetter hc)
          rw [heq]
          exact List.mem_append_right _ (.head _)

theorem renameDestination_found {source path : Text} (hsource : ∀ c ∈ source, c ≠ '"')
    (hne : source ≠ []) (hpath : ¬ arrow <:+: path) :
    parsePorcelainRenameDestination (source ++ (arrow ++ quotedForm path)) =
      some (path.flatMap readLetter) := by
  have hlast : ¬ arrow <:+: ['-', '>', ' '] ++ quotedForm path := by
    have hquote : ' ' ∉ ['-', '>'] := by decide
    intro hlater
    have htext : quotedForm path = ['"'] ++ (quotedText path ++ ['"']) := rfl
    rw [show ['-', '>', ' '] ++ quotedForm path = ['-', '>'] ++ (' ' :: quotedForm path) from rfl,
      arrow, show " -> " = ' ' :: ['-', '>', ' '] from rfl,
      LetterCode.infix_append_iff hquote, List.infix_cons_iff, htext,
      LetterCode.infix_append_iff (by decide), List.infix_concat_iff] at hlater
    obtain hhere | hend | hinside := hlater
    · exact absurd (List.cons_prefix_cons.mp (List.cons_prefix_cons.mp hhere).2).1 (by decide)
    · obtain ⟨front, hfront⟩ := hend
      have hends := congrArg List.getLast? hfront
      rw [List.getLast?_append, List.getLast?_append] at hends
      have hends : some ' ' = some '"' := hends
      exact absurd (Option.some.inj hends) (by decide)
    · exact hpath ((arrow_infix_quotedText path).mp hinside)
  rw [renameDestination_plain hsource _ hne]
  have hcut := rsplitOnce_of_last hlast source
  exact (congrArg (Option.bind · _) hcut).trans (parsePorcelainPath_quotedForm path)

theorem renameDestination_lost {source path : Text} (hsource : ∀ c ∈ source, c ≠ '"')
    (hne : source ≠ []) (hpath : arrow <:+: path) :
    parsePorcelainRenameDestination (source ++ (arrow ++ quotedForm path)) ≠ some path := by
  have htext : arrow <:+: quotedText path ++ ['"'] :=
    ((arrow_infix_quotedText path).mpr hpath).trans (List.prefix_append _ _).isInfix
  obtain ⟨⟨before, rest⟩, hcut⟩ :=
    Option.ne_none_iff_exists'.mp (mt rsplitOnce_eq_none.mp (not_not_intro htext))
  obtain ⟨hsplit, hlast⟩ := rsplitOnce_eq_some (by decide) hcut
  have hline : source ++ (arrow ++ quotedForm path) =
      (source ++ arrow ++ ['"']) ++ (quotedText path ++ ['"']) := by
    rw [List.append_assoc, List.append_assoc]
    rfl
  obtain ⟨front, back, htrim, hfront, -⟩ := exists_eq_trim rest
  rw [renameDestination_plain hsource _ hne, hline, rsplitOnce_append htext, hcut,
    Option.map_some, Option.bind_some]
  intro hread
  obtain ⟨tail, hquote, hread⟩ | hplain := parsePorcelainPath_eq_some hread
  · -- what is left is read as quoted only if it is the closing quote
    rw [hquote] at htrim
    have hclosing : quotedText path ++ ['"'] =
        (before ++ arrow ++ front) ++ '"' :: (tail ++ back) := by
      rw [hsplit, htrim]
      simp
    have hslash : (before ++ arrow ++ front).getLast? ≠ some '\\' := by
      rw [List.getLast?_append, List.getLast?_append]
      cases hend : front.getLast? with
      | none => exact fun heq => absurd (Option.some.inj heq) (by decide)
      | some c =>
        intro heq
        obtain rfl : c = '\\' := Option.some.inj heq
        exact absurd (hfront _ (List.mem_of_getLast? hend)) (by decide)
    obtain ⟨rfl, -⟩ := List.append_eq_nil_iff.mp (closing_quote hclosing hslash)
    rw [parseQuotedDiffPath] at hread
    contradiction
  · rw [hplain] at htrim
    exact hlast (hpath.trans ⟨front, back, by rw [htrim, List.append_assoc]⟩)

/-! ## Every line with a quoted path -/

/-- Each character comes back, and the arrow that is found is the one git wrote. -/
def Recoverable (path : Text) (source : Option PrintedSource) : Prop :=
  (∀ c ∈ path, ReadsBack c) ∧ StatusEntry.ArrowFound path source

theorem PrintedSource.trim_text (source : PrintedSource) (path : Text) :
    trim (source.text ++ arrow ++ quotedForm path) =
      trimStart source.text ++ (arrow ++ quotedForm path) := by
  have hne : trimStart source.text ≠ [] := by
    cases source with
    | quoted path =>
      have hstart : trimStart (quotedForm path) = quotedForm path :=
        List.dropWhile_cons_of_neg (by decide)
      exact hstart ▸ quotedForm_ne_nil path
    | plain path unquoted nonblank => exact nonblank
  have hstart : trimStart (source.text ++ arrow) = trimStart source.text ++ arrow := by
    unfold trimStart at hne ⊢
    rw [List.dropWhile_append, if_neg (by simpa using hne)]
  rw [trim_append_quotedForm, hstart, List.append_assoc]
  left
  rw [hstart]
  exact fun hnil => hne (List.append_eq_nil_iff.mp hnil).1

theorem renameDestination_iff (source : PrintedSource) (path : Text) :
    parsePorcelainRenameDestination (trim (source.text ++ arrow ++ quotedForm path)) =
      some path ↔ Recoverable path (some source) := by
  rw [source.trim_text]
  unfold Recoverable
  rw [← flatMap_readLetter_iff]
  cases source with
  | quoted from_ =>
    have hstart : trimStart (PrintedSource.quoted from_).text = quotedForm from_ :=
      List.dropWhile_cons_of_neg (by decide)
    rw [hstart, ← List.append_assoc, renameDestination_quoted, Option.some_inj]
    exact (and_iff_left trivial).symm
  | plain from_ unquoted nonblank =>
    have hsource : ∀ c ∈ trimStart from_, c ≠ '"' := by
      rintro c hc rfl
      have hquotes := List.any_eq_false.mp unquoted _ ((List.dropWhile_sublist _).subset hc)
      exact hquotes rfl
    by_cases hpath : arrow <:+: path
    · refine iff_of_false (renameDestination_lost hsource nonblank hpath) ?_
      exact fun hrecoverable => hrecoverable.2 hpath
    · have hfound := renameDestination_found hsource nonblank hpath
      refine (Eq.congr_left hfound).trans ?_
      rw [Option.some_inj]
      exact (and_iff_left hpath).symm

theorem parsePorcelainStatusLine_iff (entry : StatusEntry) :
    parsePorcelainStatusLine entry.line = some (entry.code.text, entry.path) ↔
      Recoverable entry.path entry.source := by
  obtain ⟨code, source, path, hmoves, hpath⟩ := entry
  have hkept : ∀ read : Option Text,
      (read.bind fun path => if path = [] then none else some (code.text, path)) =
        some (code.text, path) ↔ read = some path := by
    intro read
    rw [Option.bind_eq_some_iff]
    constructor
    · rintro ⟨found, rfl, hfound⟩
      obtain ⟨-, heq⟩ := Option.ite_none_left_eq_some.mp hfound
      rw [(Prod.mk.inj (Option.some.inj heq)).2]
    · rintro rfl
      exact ⟨path, rfl, if_neg hpath⟩
  unfold StatusEntry.line StatusEntry.rawPath
  cases source with
  | none =>
    have hstays : code.moves = false := hmoves.symm
    rw [parsePorcelainStatusLine_code, hstays, if_neg Bool.false_ne_true, hkept]
    · show parsePorcelainPath (trim (quotedForm path)) = some path ↔ _
      rw [trim_quotedForm, parsePorcelainPath_quotedForm, Option.some_inj, flatMap_readLetter_iff]
      exact (and_iff_left trivial).symm
    · show trim (quotedForm path) ≠ []
      rw [trim_quotedForm]
      exact quotedForm_ne_nil path
  | some source =>
    have hmoved : code.moves = true := hmoves.symm
    rw [parsePorcelainStatusLine_code, hmoved, if_pos rfl, hkept]
    · exact renameDestination_iff source path
    · show trim (source.text ++ arrow ++ quotedForm path) ≠ []
      rw [source.trim_text]
      simp [quotedForm_ne_nil]

/-- The text behind the closing quote is always exact. The path comes back, alone, on its status
line and behind the arrow of a rename, if and only if it is ASCII without the four escape letters
the reader does not know, and no arrow of its own hides the one behind a plain source. -/
theorem quotedPath_recovered_iff (path rest : Text) (source : PrintedSource) (entry : StatusEntry) :
    (parseQuotedDiffPath (quotedText path ++ '"' :: rest) []).map Prod.snd = some rest ∧
    (parseQuotedDiffPath (quotedText path ++ '"' :: rest) [] = some (path, rest) ↔
      ∀ c ∈ path, ReadsBack c) ∧
    (parsePorcelainRenameDestination (trim (source.text ++ arrow ++ quotedForm path)) =
      some path ↔ Recoverable path (some source)) ∧
    (parsePorcelainStatusLine entry.line = some (entry.code.text, entry.path) ↔
      Recoverable entry.path entry.source) := by
  refine ⟨?_, ?_, renameDestination_iff source path, parsePorcelainStatusLine_iff entry⟩
  · rw [parseQuotedDiffPath_quotedText]
    rfl
  · rw [parseQuotedDiffPath_quotedText, List.nil_append, Option.some_inj, Prod.mk_inj,
      flatMap_readLetter_iff]
    exact and_iff_left rfl

def untracked : StatusCode where
  x := '?'
  y := '?'
  x_ascii := by decide
  y_ascii := by decide
  not_branch := by decide

/-- The path `é.rs`, which git has not seen before. -/
def accented : StatusEntry where
  code := untracked
  source := none
  path := ['é', '.', 'r', 's']
  source_isSome := rfl
  path_ne_nil := by decide

/-- Each of its two bytes comes back as a character. -/
theorem accented_misread :
    parsePorcelainStatusLine accented.line = some (untracked.text, "Ã©.rs".toList) ∧
      parsePorcelainStatusLine accented.line ≠ some (untracked.text, accented.path) ∧
      parseQuotedDiffPath (quotedText accented.path ++ ['"']) [] ≠ some (accented.path, []) := by
  have hraw : trim accented.rawPath = quotedForm accented.path := trim_quotedForm _
  have hread : accented.path.flatMap readLetter = "Ã©.rs" := by decide
  have hline : parsePorcelainStatusLine accented.line = some (untracked.text, "Ã©.rs".toList) := by
    unfold StatusEntry.line
    rw [parsePorcelainStatusLine_code, hraw]
    · show (parsePorcelainPath (quotedForm accented.path)).bind _ = _
      rw [parsePorcelainPath_quotedForm, hread]
      rfl
    · exact hraw ▸ quotedForm_ne_nil accented.path
  refine ⟨hline, ?_, ?_⟩
  · rw [hline]
    decide
  · rw [parseQuotedDiffPath_quotedText, List.nil_append, hread]
    decide

end Difflore.Infra

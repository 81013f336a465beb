import Difflore.Foundation.OrderedMap
import Difflore.Infra.ScopeForms
import Difflore.Infra.StatusEntry
import Mathlib.Algebra.Order.BigOperators.Group.List
import Mathlib.Algebra.Order.Group.Nat
import Mathlib.Data.Char

/-! # The front matter of agent files

An agent file may begin with lines between two rows of dashes that say what the file is about
and which files it is for. What comes behind them is the body. It is cut off at a count of bytes
that takes every line end for one byte.
-/

namespace Difflore.Ingest.AgentFiles

open Foundation Text Infra

variable {mark : Char} {p special : Char → Bool} {s glob : Text}

/-! ## The front matter -/

structure Frontmatter where
  values : OrderedMap Text Text
  filePatterns : List Text

def Frontmatter.default : Frontmatter := ⟨.empty, []⟩

def dashes : Text := ['-', '-', '-']

/-- What is read of the lines so far; `heading` is the section that indented lines are in. -/
structure FrontmatterLines where
  values : OrderedMap Text Text
  filePatterns : List Text
  heading : Option Text

def patternKeys : List Text := ["globs", "glob", "file_patterns", "file-patterns"]

/-- `trim_matches('"').trim_matches('\'')`. -/
def unquote (s : Text) : Text := trimMatches (fun c => c = '\'') (trimMatches (fun c => c = '"') s)

def parseListValue (value : Text) : List Text :=
  let trimmed := ((trim value).dropWhile fun c => c = '[').rdropWhile fun c => c = ']'
  ((trimmed.splitOn ',').map fun part => unquote (trim part)).filter (· ≠ [])

def FrontmatterLines.readLine (found : FrontmatterLines) (line : Text) : FrontmatterLines :=
  let trimmed := trim line
  if trimmed = [] || trimmed.head? = some '#' then found
  else
    let isNested := line.head? = some ' ' || line.head? = some '\t'
    if !isNested && trimmed.getLast? = some ':' && !(decide ([':', ' '] <:+: trimmed)) then
      { found with heading := some (toAsciiLowercase (trimmed.rdropWhile fun c => c = ':')) }
    else
      match splitOnce ':' trimmed with
      | none => found
      | some (rawKey, rawValue) =>
        let ownKey := toAsciiLowercase (trim rawKey)
        let key := if isNested then (found.heading.map fun heading =>
          heading ++ '.' :: ownKey).getD ownKey else ownKey
        let value := unquote (trim rawValue)
        { values := found.values.insert key value
          filePatterns := if key ∈ patternKeys then found.filePatterns ++ parseListValue value
            else found.filePatterns
          heading := if isNested then found.heading else none }

def parseFrontmatter (raw : Text) : Frontmatter :=
  let found := (Text.lines raw).foldl FrontmatterLines.readLine ⟨.empty, [], none⟩
  ⟨found.values, (found.filePatterns.insertionSort (· ≤ ·)).dedup⟩

def closeFrontmatter (offset : Nat) (raw : Text) : List Text → Option (Text × Nat)
  | [] => none
  | line :: lines =>
    let lineLen := byteLength line + 1
    if trim line = dashes then some (raw, offset + lineLen)
    else closeFrontmatter (offset + lineLen) (raw ++ line ++ ['\n']) lines

def getFrom (offset : Nat) (input : Text) : Option Text := (splitAtByte offset input).map Prod.snd

def splitFrontmatter (input : Text) : Frontmatter × Text :=
  if dashes <+: input then
    match Text.lines input with
    | [] => (.default, input)
    | first :: lines =>
      if trim first = dashes then
        match closeFrontmatter (byteLength first + 1) [] lines with
        | none => (.default, input)
        | some (raw, offset) => (parseFrontmatter raw, (getFrom offset input).getD [])
      else (.default, input)
  else (.default, input)

theorem byteLength_append (s rest : Text) :
    byteLength (s ++ rest) = byteLength s + byteLength rest := by
  rw [byteLength, List.map_append, List.sum_append]
  rfl

theorem byteLength_eq_zero : byteLength s = 0 ↔ s = [] := by
  refine ⟨fun hzero => ?_, fun hnil => hnil ▸ rfl⟩
  have hle := length_le_byteLength s
  exact List.length_eq_zero_iff.mp (by omega)

theorem splitAtByte_append (s rest : Text) :
    splitAtByte (byteLength s) (s ++ rest) = some (s, rest) := by
  induction s with
  | nil =>
    rw [byteLength, List.map_nil, List.sum_nil, List.nil_append, splitAtByte]
  | cons c s ih =>
    have hpos := c.utf8Size_pos
    have hlength : byteLength (c :: s) = byteLength s + (c.utf8Size - 1) + 1 := by
      rw [byteLength, List.map_cons, List.sum_cons, byteLength]
      omega
    have hback : byteLength s + (c.utf8Size - 1) + 1 - c.utf8Size = byteLength s := by omega
    rw [List.cons_append, hlength, splitAtByte, if_pos (by omega), hback, ih]
    rfl

theorem splitAtByte_eq_some {count : Nat} {front back : Text}
    (hcut : splitAtByte count s = some (front, back)) :
    s = front ++ back ∧ byteLength front = count := by
  induction s generalizing count front with
  | nil =>
    cases count with
    | zero =>
      rw [splitAtByte, Option.some.injEq, Prod.mk.injEq] at hcut
      obtain ⟨rfl, rfl⟩ := hcut
      exact ⟨rfl, rfl⟩
    | succ count => rw [splitAtByte] at hcut; contradiction
  | cons c s ih =>
    cases count with
    | zero =>
      rw [splitAtByte, Option.some.injEq, Prod.mk.injEq] at hcut
      obtain ⟨rfl, rfl⟩ := hcut
      exact ⟨rfl, rfl⟩
    | succ count =>
      rw [splitAtByte] at hcut
      split at hcut
      next hfits =>
        obtain ⟨cut, hrest, hcons⟩ := Option.map_eq_some_iff.mp hcut
        obtain ⟨rfl, rfl⟩ := Prod.mk.inj hcons
        obtain ⟨hs, hcount⟩ := ih hrest
        refine ⟨congrArg (c :: ·) hs, ?_⟩
        rw [byteLength] at hcount ⊢
        rw [List.map_cons, List.sum_cons]
        omega
      next => contradiction

/-! ## Documents -/

inductive LineEnd
  | lf
  | crlf
  deriving DecidableEq

def LineEnd.text : LineEnd → Text
  | lf => ['\n']
  | crlf => Text.crlf

def LineEnd.ended (lineEnd : LineEnd) (front : List Text) : Text :=
  front.flatMap fun line => line ++ lineEnd.text

theorem LineEnd.ended_cons (lineEnd : LineEnd) (line : Text) (front : List Text) :
    lineEnd.ended (line :: front) = line ++ lineEnd.text ++ lineEnd.ended front :=
  List.flatMap_cons

/-- A document with front matter and a body behind it. The closing dashes may end the file
without a line end. -/
structure FrontDocument where
  lineEnd : LineEnd
  front : List Text
  closed : Bool
  body : Text
  oneLine : ∀ line ∈ front, '\n' ∉ line
  noOtherEnd : lineEnd = .lf → ∀ line ∈ front, line.getLast? ≠ some '\r'
  noDashes : ∀ line ∈ front, trim line ≠ dashes
  ends : closed = false → body = []

namespace FrontDocument

variable (document : FrontDocument)

def head : Text := dashes ++ document.lineEnd.text ++ document.lineEnd.ended document.front ++
    dashes ++ if document.closed then document.lineEnd.text else []

def text : Text := document.head ++ document.body

/-- How many bytes of the head the offset leaves out when line ends are two bytes. -/
def uncounted : Nat := document.front.length + if document.closed then 2 else 0

end FrontDocument

theorem lines_lineEnd {line : Text} (hline : '\n' ∉ line) {lineEnd : LineEnd}
    (hend : lineEnd = .lf → line.getLast? ≠ some '\r') (rest : Text) :
    Text.lines (line ++ lineEnd.text ++ rest) = line :: Text.lines rest := by
  cases lineEnd with
  | lf =>
    have hread := linesFrom_append hline rest []
    rw [List.reverse_nil, List.nil_append, stripCr_of_getLast? (hend rfl)] at hread
    rw [LineEnd.text, List.append_assoc, List.singleton_append]
    exact hread
  | crlf =>
    have hcr : '\n' ∉ line ++ ['\r'] := by simp [hline]
    have hread := linesFrom_append hcr rest []
    rw [List.reverse_nil, List.nil_append, stripCr_concat] at hread
    rw [LineEnd.text, Text.crlf, List.append_assoc]
    rw [List.append_assoc] at hread
    exact hread

theorem lines_ended {front : List Text} (hfront : ∀ line ∈ front, '\n' ∉ line)
    {lineEnd : LineEnd} (hend : lineEnd = .lf → ∀ line ∈ front, line.getLast? ≠ some '\r')
    (rest : Text) :
    Text.lines (lineEnd.ended front ++ rest) = front ++ Text.lines rest := by
  induction front with
  | nil => rfl
  | cons line front ih =>
    rw [LineEnd.ended_cons, List.append_assoc, lines_lineEnd (hfront line (.head _))
      (fun heq => hend heq line (.head _)), List.cons_append,
      ih (fun other hother => hfront other (.tail _ hother))
        (fun heq other hother => hend heq other (.tail _ hother))]

def counted (front : List Text) : Nat := (front.map fun line => byteLength line + 1).sum

theorem closeFrontmatter_append {front : List Text}
    (hfront : ∀ line ∈ front, trim line ≠ dashes) (offset : Nat) (raw : Text) (rest : List Text) :
    closeFrontmatter offset raw (front ++ dashes :: rest) =
      some (raw ++ unlines front, offset + counted front + 4) := by
  induction front generalizing offset raw with
  | nil =>
    have htrim : trim dashes = dashes := by decide
    have hlength : byteLength dashes = 3 := by decide
    rw [List.nil_append, closeFrontmatter, if_pos htrim, hlength]
    simp [counted, unlines]
  | cons line front ih =>
    rw [List.cons_append, closeFrontmatter, if_neg (hfront line (.head _)),
      ih fun other hother => hfront other (.tail _ hother)]
    have hraw : raw ++ line ++ ['\n'] ++ unlines front = raw ++ unlines (line :: front) := by
      rw [unlines, unlines, List.flatMap_cons, List.append_assoc, List.append_assoc,
        List.append_assoc]
    have hoffset : offset + (byteLength line + 1) + counted front + 4 =
        offset + counted (line :: front) + 4 := by
      rw [counted, counted, List.map_cons, List.sum_cons]
      omega
    rw [hraw, hoffset]

theorem byteLength_ended (front : List Text) (lineEnd : LineEnd) :
    byteLength (lineEnd.ended front) + front.length =
      counted front + front.length * byteLength lineEnd.text := by
  induction front with
  | nil => simp [LineEnd.ended, counted, byteLength]
  | cons line front ih =>
    rw [LineEnd.ended_cons, byteLength_append, byteLength_append, List.length_cons, counted,
      List.map_cons, List.sum_cons, ← counted]
    rw [Nat.add_mul, Nat.one_mul]
    omega

namespace FrontDocument

variable (document : FrontDocument)

theorem lines_text :
    ∃ rest, Text.lines document.text = dashes :: document.front ++ dashes :: rest := by
  have hdashes : '\n' ∉ dashes := by decide
  have hplain : dashes.getLast? ≠ some '\r' := by decide
  rw [text, head, List.append_assoc, List.append_assoc, List.append_assoc,
    lines_lineEnd hdashes fun _ => hplain]
  rw [lines_ended document.oneLine document.noOtherEnd]
  cases hclosed : document.closed with
  | true =>
    rw [if_pos rfl, ← List.append_assoc, lines_lineEnd hdashes fun _ => hplain]
    exact ⟨_, rfl⟩
  | false =>
    rw [document.ends hclosed]
    exact ⟨[], rfl⟩

theorem split_text : splitFrontmatter document.text = (parseFrontmatter (unlines document.front),
      (getFrom (counted document.front + 8) document.text).getD []) := by
  obtain ⟨rest, hlines⟩ := document.lines_text
  have hdashes : dashes <+: document.text := by
    rw [text, head, List.append_assoc, List.append_assoc, List.append_assoc, List.append_assoc]
    exact List.prefix_append _ _
  have htrim : trim dashes = dashes := by decide
  have hlength : byteLength dashes + 1 = 4 := by decide
  rw [splitFrontmatter, if_pos hdashes, hlines, List.cons_append]
  dsimp only
  rw [if_pos htrim, closeFrontmatter_append document.noDashes, hlength, List.nil_append]
  dsimp only
  rw [show 4 + counted document.front + 4 = counted document.front + 8 by omega]

theorem byteLength_head : byteLength document.head = 6 + byteLength document.lineEnd.text +
      byteLength (document.lineEnd.ended document.front) +
      if document.closed then byteLength document.lineEnd.text else 0 := by
  have hlength : byteLength dashes = 3 := by decide
  rw [head, byteLength_append, byteLength_append, byteLength_append, byteLength_append, hlength]
  cases document.closed with
  | true => rw [if_pos rfl, if_pos rfl]; omega
  | false => rw [if_neg (by decide), if_neg (by decide)]; simp [byteLength]; omega

theorem offset_of_lineEnd : match document.lineEnd with
    | .lf => counted document.front + 8 =
        byteLength document.head + if document.closed then 0 else 1
    | .crlf => counted document.front + 8 + document.uncounted = byteLength document.head := by
  have hhead := document.byteLength_head
  have hends := byteLength_ended document.front document.lineEnd
  have hlf : byteLength LineEnd.lf.text = 1 := by decide
  have hcrlf : byteLength LineEnd.crlf.text = 2 := by decide
  rw [uncounted]
  cases hend : document.lineEnd with
  | lf =>
    rw [hend, hlf] at hhead hends
    dsimp only
    cases hclosed : document.closed <;> rw [hclosed] at hhead <;> simp at hhead ⊢ <;> omega
  | crlf =>
    rw [hend, hcrlf] at hhead hends
    dsimp only
    cases hclosed : document.closed <;> rw [hclosed] at hhead <;> simp at hhead ⊢ <;> omega

theorem getFrom_lf (hend : document.lineEnd = .lf) :
    (getFrom (counted document.front + 8) document.text).getD [] = document.body := by
  have hoffset := document.offset_of_lineEnd
  rw [hend] at hoffset
  dsimp only at hoffset
  cases hclosed : document.closed with
  | true =>
    rw [hclosed, if_pos rfl] at hoffset
    rw [hoffset, getFrom, text, Nat.add_zero, splitAtByte_append]
    rfl
  | false =>
    rw [document.ends hclosed]
    rw [hclosed, if_neg (by decide)] at hoffset
    cases hget : getFrom (counted document.front + 8) document.text with
    | none => rfl
    | some rest =>
      rw [getFrom] at hget
      obtain ⟨⟨front, back⟩, hcut, rfl⟩ := Option.map_eq_some_iff.mp hget
      obtain ⟨htext, hfront⟩ := splitAtByte_eq_some hcut
      have hlength := congrArg byteLength htext
      rw [text, document.ends hclosed, List.append_nil, byteLength_append] at hlength
      omega

theorem getFrom_crlf (hend : document.lineEnd = .crlf) :
    (getFrom (counted document.front + 8) document.text).getD [] = document.body ↔
      document.body = [] ∧ ∀ tail : Text, tail <:+ document.head →
        byteLength tail = document.uncounted → tail = [] := by
  have hoffset := document.offset_of_lineEnd
  rw [hend] at hoffset
  dsimp only at hoffset
  by_cases hcuts : ∃ tail : Text, tail <:+ document.head ∧ byteLength tail = document.uncounted
  · obtain ⟨tail, ⟨front, hhead⟩, htail⟩ := hcuts
    have hfront : counted document.front + 8 = byteLength front := by
      have hlength := congrArg byteLength hhead
      rw [byteLength_append] at hlength
      omega
    have hget : getFrom (counted document.front + 8) document.text =
        some (tail ++ document.body) := by
      rw [getFrom, hfront, text, ← hhead, List.append_assoc, splitAtByte_append]
      rfl
    rw [hget, Option.getD_some, List.append_left_eq_self]
    refine ⟨fun hnil => ?_, fun hunseen => hunseen.2 tail ⟨front, hhead⟩ htail⟩
    have hzero : document.uncounted = 0 := by rw [← htail, hnil]; rfl
    refine ⟨?_, fun other _ hother => byteLength_eq_zero.mp (hother.trans hzero)⟩
    -- Nothing is left out only when no front matter precedes dashes at the end of the file.
    cases hclosed : document.closed with
    | true =>
      rw [uncounted, hclosed, if_pos rfl] at hzero
      omega
    | false => exact document.ends hclosed
  · have hget : getFrom (counted document.front + 8) document.text = none := by
      rw [getFrom, Option.map_eq_none_iff]
      cases hcut : splitAtByte (counted document.front + 8) document.text with
      | none => rfl
      | some cut =>
        obtain ⟨front, back⟩ := cut
        obtain ⟨htext, hfront⟩ := splitAtByte_eq_some hcut
        rw [text] at htext
        rcases List.append_eq_append_iff.mp htext with ⟨extra, hextra, -⟩ | ⟨tail, htail, -⟩
        · have hlength := congrArg byteLength hextra
          rw [byteLength_append] at hlength
          exact absurd ⟨[], List.nil_suffix, by rw [byteLength_eq_zero.mpr rfl]; omega⟩ hcuts
        · have hlength := congrArg byteLength htail
          rw [byteLength_append] at hlength
          exact absurd ⟨tail, ⟨front, htail.symm⟩, by omega⟩ hcuts
    rw [hget, Option.getD_none, eq_comm]
    exact ⟨fun hnil => ⟨hnil, fun tail hsuffix htail => absurd ⟨tail, hsuffix, htail⟩ hcuts⟩,
      fun hunseen => hunseen.1⟩

end FrontDocument

/-! ## Inline lists -/

def escape (mark : Char) (special : Char → Bool) (s : Text) : Text :=
  s.flatMap fun c => if special c then [mark, c] else [c]

def inDouble (c : Char) : Bool := c = '"' || c = '\\'

inductive GlobStyle
  | bare
  | single
  | double

def GlobStyle.write : GlobStyle → Text → Text
  | bare, glob => glob
  | single, glob => '\'' :: escape '\'' (fun c => c = '\'') glob ++ ['\'']
  | double, glob => '"' :: escape '\\' inDouble glob ++ ['"']

def outsideBraces (depth : Nat) : Text → Text
  | [] => []
  | '{' :: rest => outsideBraces (depth + 1) rest
  | '}' :: rest => outsideBraces (depth - 1) rest
  | c :: rest => if depth = 0 then c :: outsideBraces depth rest else outsideBraces depth rest

structure Bare (glob : Text) : Prop where
  nonempty : glob ≠ []
  noBracket : '[' ∉ glob ∧ ']' ∉ glob
  noComma : ',' ∉ outsideBraces 0 glob
  head : ∀ c ∈ glob.head?, isWhitespace c = false ∧ c ≠ '"' ∧ c ≠ '\''
  last : ∀ c ∈ glob.getLast?, isWhitespace c = false ∧ c ≠ '"' ∧ c ≠ '\''

def IsBlank (s : Text) : Prop := ∀ c ∈ s, c = ' ' ∨ c = '\t'

structure GlobItem where
  style : GlobStyle
  glob : Text
  before : Text
  after : Text
  oneLine : '\n' ∉ glob
  bare : style = .bare → Bare glob
  blank : IsBlank before ∧ IsBlank after

namespace GlobItem

variable (item : GlobItem)

def written : Text := item.style.write item.glob

def text : Text := item.before ++ item.written ++ item.after

/-- The item reads as its glob: the glob is not empty and has no comma, in single quotes no
single quote, and in double quotes nothing to escape and no single quote at an end. -/
def Plain : Prop := item.glob ≠ [] ∧ ',' ∉ item.glob ∧ match item.style with
    | .bare => True
    | .single => '\'' ∉ item.glob
    | .double => '"' ∉ item.glob ∧ '\\' ∉ item.glob ∧
        item.glob.head? ≠ some '\'' ∧ item.glob.getLast? ≠ some '\''

def patterns : List Text :=
  ((item.text.splitOn ',').map fun part => unquote (trim part)).filter (· ≠ [])

end GlobItem

def ownKey (line : Text) : Option Text :=
  (splitOnce ':' (trim line)).map fun cut => toAsciiLowercase (trim cut.1)

def globsLine (gap : Text) (items : List GlobItem) (rest : Text) : Text :=
  "globs:" ++ (gap ++ ('[' :: [','].intercalate (items.map GlobItem.text) ++ ']' :: rest))

/-- A document whose front matter lists globs in brackets, and names no other patterns. -/
structure GlobDocument extends FrontDocument where
  above : List Text
  gap : Text
  items : List GlobItem
  rest : Text
  below : List Text
  blank : IsBlank gap ∧ IsBlank rest
  frontLines : front = above ++ globsLine gap items rest :: below
  others : ∀ line ∈ above ++ below, ∀ key ∈ ownKey line, key ∉ patternKeys

namespace GlobDocument

variable (document : GlobDocument)

def globs : List Text := document.items.map GlobItem.glob

def patterns : List Text := (splitFrontmatter document.text).1.filePatterns

def Exact : Prop := ∀ pattern, pattern ∈ document.patterns ↔ pattern ∈ document.globs

end GlobDocument

theorem IsBlank.isWhitespace (hs : IsBlank s) : ∀ c ∈ s, Text.isWhitespace c = true := by
  intro c hc
  rcases hs c hc with rfl | rfl <;> decide

theorem trim_append_of_isWhitespace {rest : Text} (hrest : ∀ c ∈ rest, isWhitespace c = true) :
    trim (s ++ rest) = trim s := by
  induction rest using List.reverseRecOn with
  | nil => rw [List.append_nil]
  | append_singleton rest c ih =>
    rw [← List.append_assoc, trim_concat_of_isWhitespace (hrest c (by simp)),
      ih fun d hd => hrest d (List.mem_append_left _ hd)]

theorem trim_isWhitespace_append {front : Text} (hfront : ∀ c ∈ front, isWhitespace c = true) :
    trim (front ++ s) = trim s := by
  induction front with
  | nil => rfl
  | cons c front ih =>
    rw [List.cons_append, trim_cons_of_isWhitespace (hfront c (.head _)),
      ih fun d hd => hfront d (.tail _ hd)]

theorem trimMatches_of_ends (hhead : ∀ c ∈ s.head?, p c = false)
    (hlast : ∀ c ∈ s.getLast?, p c = false) : trimMatches p s = s := by
  have hdrop : s.dropWhile p = s := by
    cases s with
    | nil => rfl
    | cons c rest => exact List.dropWhile_cons_of_neg (by simp [hhead c rfl])
  rw [trimMatches, hdrop]
  refine List.rdropWhile_eq_self_iff.mpr fun hne => ?_
  simp [hlast _ (List.getLast?_eq_some_getLast hne)]

theorem trimMatches_quoted (hmark : p mark = true) (hhead : ∀ c ∈ s.head?, p c = false) :
    trimMatches p (mark :: s ++ [mark]) = s.rdropWhile p := by
  have hdrop : (mark :: s ++ [mark]).dropWhile p = if s = [] then [] else s ++ [mark] := by
    rw [List.cons_append, List.dropWhile_cons_of_pos hmark]
    cases s with
    | nil => simp [hmark]
    | cons c rest =>
      rw [if_neg (List.cons_ne_nil _ _), List.cons_append]
      exact List.dropWhile_cons_of_neg (by simp [hhead c rfl])
  rw [trimMatches, hdrop]
  split
  next hnil => rw [hnil]
  next => exact List.rdropWhile_concat_pos _ _ _ hmark

theorem head_trimMatches (p : Char → Bool) (s : Text) :
    ∀ c ∈ (trimMatches p s).head?, p c = false := by
  intro c hc
  obtain ⟨rest, hrest⟩ := List.head?_eq_some_iff.mp hc
  obtain ⟨dropped, hdropped⟩ : trimMatches p s <+: s.dropWhile p := List.rdropWhile_prefix ..
  have hhead := List.head?_dropWhile_not p s
  rw [← hdropped, hrest, List.cons_append, List.head?_cons] at hhead
  simpa using hhead

theorem getLast_trimMatches (p : Char → Bool) (s : Text) :
    ∀ c ∈ (trimMatches p s).getLast?, p c = false := by
  intro c hc
  have hne : trimMatches p s ≠ [] := by
    intro heq
    simp [heq] at hc
  have hlast := List.rdropWhile_last_not _ _ hne
  rw [List.getLast?_eq_some_getLast hne] at hc
  obtain rfl := Option.some.inj hc
  exact Bool.not_eq_true _ ▸ hlast

theorem mem_of_mem_trimMatches {c : Char} (hc : c ∈ trimMatches p s) : c ∈ s :=
  (List.dropWhile_sublist _).subset ((List.rdropWhile_prefix ..).subset hc)

theorem readLine_other {found : FrontmatterLines} {line : Text}
    (hline : ∀ key ∈ ownKey line, key ∉ patternKeys) :
    (found.readLine line).filePatterns = found.filePatterns := by
  have hnested : ∀ key ∈ patternKeys, '.' ∉ key := by decide
  rw [FrontmatterLines.readLine]
  dsimp only
  split
  next => rfl
  next =>
    split
    next => rfl
    next =>
      rw [ownKey] at hline
      cases hcut : splitOnce ':' (trim line) with
      | none => rfl
      | some cut =>
        obtain ⟨rawKey, rawValue⟩ := cut
        rw [hcut, Option.map_some] at hline
        have hown := hline _ rfl
        dsimp only at hown ⊢
        refine if_neg fun hkey => ?_
        split at hkey
        next =>
          cases hheading : found.heading with
          | none =>
            rw [hheading] at hkey
            exact hown hkey
          | some heading =>
            rw [hheading] at hkey
            exact hnested _ hkey (by simp)
        next => exact hown hkey

theorem foldl_readLine_other {ls : List Text}
    (hls : ∀ line ∈ ls, ∀ key ∈ ownKey line, key ∉ patternKeys) (found : FrontmatterLines) :
    (ls.foldl FrontmatterLines.readLine found).filePatterns = found.filePatterns := by
  induction ls generalizing found with
  | nil => rfl
  | cons line ls ih =>
    rw [List.foldl_cons, ih fun other hother => hls other (.tail _ hother),
      readLine_other (hls line (.head _))]

theorem ownKey_stripCr (line : Text) : ownKey (stripCr line) = ownKey line := by
  rw [ownKey, Text.trim_stripCr, ownKey]

theorem head_bracketed {p : Char → Prop} {first : Char} (hfirst : p first) (s : Text)
    (last : Char) :
    ∀ c ∈ (first :: s ++ [last]).head?, p c := by
  intro c hc
  rw [List.cons_append, List.head?_cons, Option.mem_some] at hc
  exact hc ▸ hfirst

theorem last_bracketed {p : Char → Prop} {last : Char} (hlast : p last) (s : Text) :
    ∀ c ∈ (s ++ [last]).getLast?, p c := by
  intro c hc
  rw [List.getLast?_concat, Option.mem_some] at hc
  exact hc ▸ hlast

theorem unquote_bracketed (inner : Text) :
    unquote ('[' :: inner ++ [']']) = '[' :: inner ++ [']'] := by
  have hdouble : trimMatches (fun c => c = '"') ('[' :: inner ++ [']']) = '[' :: inner ++ [']'] :=
    trimMatches_of_ends (head_bracketed (by decide) inner ']') (last_bracketed (by decide) _)
  rw [unquote, hdouble]
  exact trimMatches_of_ends (head_bracketed (by decide) inner ']') (last_bracketed (by decide) _)

theorem readLine_bracketed {gap inner rest : Text} (hgap : IsBlank gap) (hrest : IsBlank rest)
    (found : FrontmatterLines) :
    (found.readLine ("globs:" ++ (gap ++ ('[' :: inner ++ ']' :: rest)))).filePatterns =
      found.filePatterns ++ parseListValue ('[' :: inner ++ [']']) := by
  have hcore : "globs" ++ ':' :: (gap ++ ('[' :: inner ++ [']'])) =
      'g' :: ("lobs:" ++ gap ++ '[' :: inner) ++ [']'] := by simp
  have htrim : trim ("globs:" ++ (gap ++ ('[' :: inner ++ ']' :: rest))) =
      'g' :: ("lobs:" ++ gap ++ '[' :: inner) ++ [']'] := by
    have hsplit : "globs:" ++ (gap ++ ('[' :: inner ++ ']' :: rest)) =
        'g' :: ("lobs:" ++ gap ++ '[' :: inner) ++ [']'] ++ rest := by simp
    rw [hsplit, trim_append_of_isWhitespace hrest.isWhitespace]
    exact trim_of_ends (head_bracketed (by decide) _ _) (last_bracketed (by decide) _)
  have hvalue : trim (gap ++ ('[' :: inner ++ [']'])) = '[' :: inner ++ [']'] := by
    rw [trim_isWhitespace_append hgap.isWhitespace]
    exact trim_of_ends (head_bracketed (by decide) _ _) (last_bracketed (by decide) _)
  have hcolon : ':' ∉ "globs".toList := by decide
  have hkey : toAsciiLowercase (trim "globs") = "globs" := by decide
  have hpattern : "globs".toList ∈ patternKeys := by decide
  have hnotNested : (decide (List.head? ("globs:".toList ++
      (gap ++ ('[' :: inner ++ ']' :: rest))) = some ' ') || decide (List.head? ("globs:".toList ++
      (gap ++ ('[' :: inner ++ ']' :: rest))) = some '\t')) = false := rfl
  have hlast : List.getLast? ('g' :: ("lobs:" ++ gap ++ '[' :: inner) ++ [']']) = some ']' :=
    List.getLast?_concat
  rw [FrontmatterLines.readLine, htrim]
  dsimp only
  rw [hnotNested, hlast, if_neg (by simp), if_neg (by simp), ← hcore, splitOnce_append hcolon]
  dsimp only
  rw [hvalue, unquote_bracketed, hkey, if_neg Bool.false_ne_true, if_pos hpattern]

/-! ## Items -/

theorem escape_concat (mark : Char) (special : Char → Bool) (s : Text) (c : Char) :
    escape mark special (s ++ [c]) =
      escape mark special s ++ if special c then [mark, c] else [c] := by
  rw [escape, List.flatMap_append, List.flatMap_singleton, escape]

theorem escape_of_none (hs : ∀ c ∈ s, special c = false) : escape mark special s = s := by
  rw [escape, List.flatMap_congr (g := fun c => [c]) fun c hc => by rw [hs c hc]; rfl]
  exact List.flatMap_singleton' s

theorem mem_escape {c : Char} (hc : c ∈ escape mark special s) : c = mark ∨ c ∈ s := by
  obtain ⟨d, hd, hin⟩ := List.mem_flatMap.mp hc
  split at hin
  next =>
    rcases List.mem_cons.mp hin with hmark | hlast
    · exact .inl hmark
    · exact .inr (List.mem_singleton.mp hlast ▸ hd)
  next => exact .inr (List.mem_singleton.mp hin ▸ hd)

theorem comma_not_mem_quoted {quote : Char} (hquote : ',' ≠ quote) (hmark : ',' ≠ mark)
    (hs : ',' ∉ s) :
    ',' ∉ quote :: escape mark special s ++ [quote] := by
  intro hmem
  rcases List.mem_append.mp hmem with hfront | hlast
  · rcases List.mem_cons.mp hfront with hc | hin
    · exact hquote hc
    · exact (mem_escape hin).elim hmark hs
  · exact hquote (List.mem_singleton.mp hlast)

theorem head_escape (mark : Char) (special : Char → Bool) (s : Text) :
    ∀ c ∈ (escape mark special s).head?, (c = mark ∧ ∃ d ∈ s.head?, special d = true) ∨
      c ∈ s.head? ∧ special c = false := by
  intro c hc
  cases s with
  | nil => contradiction
  | cons d rest =>
    rw [escape, List.flatMap_cons] at hc
    cases hd : special d with
    | true =>
      rw [hd, if_pos rfl, List.cons_append, List.head?_cons, Option.mem_some] at hc
      exact .inl ⟨hc.symm, d, rfl, hd⟩
    | false =>
      rw [hd, if_neg (by decide), List.cons_append, List.head?_cons, Option.mem_some] at hc
      exact .inr ⟨by rw [← hc]; rfl, hc ▸ hd⟩

theorem getLast_escape (mark : Char) (special : Char → Bool) (s : Text) :
    (escape mark special s).getLast? = s.getLast? := by
  induction s using List.reverseRecOn with
  | nil => rfl
  | append_singleton s c ih =>
    rw [escape_concat]
    split <;> simp

def weight (s : Text) : Nat := (s.map fun c => if c = '"' then 1 else 2).sum

theorem weight_append (s rest : Text) : weight (s ++ rest) = weight s + weight rest := by
  rw [weight, List.map_append, List.sum_append, weight, weight]

theorem weight_eq_zero : weight s = 0 ↔ s = [] := by
  refine ⟨fun hzero => ?_, fun hnil => hnil ▸ rfl⟩
  cases s with
  | nil => rfl
  | cons c s =>
    rw [weight, List.map_cons, List.sum_cons] at hzero
    split at hzero <;> omega

theorem weight_escape (hmark : mark ≠ '"') (special : Char → Bool) (s : Text) :
    weight (escape mark special s) = weight s + 2 * s.countP special := by
  induction s with
  | nil => rfl
  | cons c s ih =>
    rw [escape, List.flatMap_cons, weight_append, ← escape, ih, List.countP_cons, weight, weight,
      weight, List.map_cons, List.sum_cons]
    cases special c with
    | true =>
      rw [if_pos rfl, if_pos rfl, List.map_cons, List.sum_cons, if_neg hmark, List.map_singleton,
        List.sum_singleton]
      omega
    | false =>
      rw [if_neg Bool.false_ne_true, if_neg Bool.false_ne_true, List.map_singleton,
        List.sum_singleton]
      omega

theorem rdropWhile_escape (s : Text) (c : Char) :
    (escape '\\' inDouble (s ++ [c])).rdropWhile (fun d => d = '"') =
      escape '\\' inDouble s ++
        if c = '"' then ['\\'] else if c = '\\' then ['\\', '\\'] else [c] := by
  rw [escape_concat]
  by_cases hquote : c = '"'
  · rw [hquote, if_pos (by decide), if_pos rfl]
    rw [List.append_cons, List.rdropWhile_concat_pos _ _ _ (by decide),
      List.rdropWhile_concat_neg _ _ _ (by decide)]
  · rw [if_neg hquote]
    by_cases hslash : c = '\\'
    · rw [hslash, if_pos (by decide), if_pos rfl, List.append_cons,
        List.rdropWhile_concat_neg _ _ _ (by decide)]
    · have hplain : inDouble c = false := by simp [inDouble, hquote, hslash]
      rw [hplain, if_neg Bool.false_ne_true, if_neg hslash,
        List.rdropWhile_concat_neg _ _ _ (by simpa using hquote)]

theorem weight_escape_le (s : Text) : weight (escape '\\' inDouble s) ≤
      weight ((escape '\\' inDouble s).rdropWhile fun c => c = '"') + s.countP inDouble := by
  induction s using List.reverseRecOn with
  | nil => exact Nat.le_refl _
  | append_singleton s c _ =>
    rw [rdropWhile_escape, escape_concat, weight_append, weight_append, List.countP_append,
      List.countP_singleton]
    by_cases hquote : c = '"'
    · rw [hquote, if_pos (by decide), if_pos rfl, if_pos (by decide)]
      have hboth : weight ['\\', '"'] = 3 := rfl
      have hmark : weight ['\\'] = 2 := rfl
      omega
    · rw [if_neg hquote]
      by_cases hslash : c = '\\'
      · rw [hslash, if_pos (by decide), if_pos rfl]
        omega
      · have hplain : inDouble c = false := by simp [inDouble, hquote, hslash]
        rw [hplain, if_neg Bool.false_ne_true, if_neg hslash]
        omega

theorem unquote_bare (hglob : Bare glob) : unquote glob = glob := by
  have hdouble : trimMatches (fun c => c = '"') glob = glob :=
    trimMatches_of_ends (fun c hc => decide_eq_false (hglob.head c hc).2.1)
      fun c hc => decide_eq_false (hglob.last c hc).2.1
  rw [unquote, hdouble]
  exact trimMatches_of_ends (fun c hc => decide_eq_false (hglob.head c hc).2.2)
    fun c hc => decide_eq_false (hglob.last c hc).2.2

theorem unquote_single (hhead : glob.head? ≠ some '\'') (hlast : glob.getLast? ≠ some '\'') :
    unquote (GlobStyle.single.write glob) = escape '\'' (fun c => c = '\'') glob := by
  have hends : ∀ c ∈ (escape '\'' (fun c => c = '\'') glob).head?, c ≠ '\'' := by
    intro c hc heq
    rcases head_escape _ _ _ c hc with ⟨-, d, hd, hspecial⟩ | ⟨hin, -⟩
    · exact hhead (of_decide_eq_true hspecial ▸ hd)
    · exact hhead (heq ▸ hin)
  have hdouble : trimMatches (fun c => c = '"') (GlobStyle.single.write glob) =
      GlobStyle.single.write glob :=
    trimMatches_of_ends (head_bracketed (by decide) _ _) (last_bracketed (by decide) _)
  rw [unquote, hdouble, GlobStyle.write, trimMatches_quoted (by decide) fun c hc =>
    decide_eq_false (hends c hc)]
  refine List.rdropWhile_eq_self_iff.mpr fun hne hmark => ?_
  have hfound := List.getLast?_eq_some_getLast hne
  rw [getLast_escape, of_decide_eq_true hmark] at hfound
  exact hlast hfound

theorem unquote_double (hhead : glob.head? ≠ some '\'') (hlast : glob.getLast? ≠ some '\'') :
    unquote (GlobStyle.double.write glob) =
      (escape '\\' inDouble glob).rdropWhile fun c => c = '"' := by
  have hends : ∀ c ∈ (escape '\\' inDouble glob).head?, c ≠ '"' ∧ c ≠ '\'' := by
    intro c hc
    rcases head_escape _ _ _ c hc with ⟨rfl, -⟩ | ⟨hin, hplain⟩
    · decide
    · rw [inDouble, Bool.or_eq_false_iff, decide_eq_false_iff_not] at hplain
      exact ⟨hplain.1, fun heq => hhead (heq ▸ hin)⟩
  have hdouble : trimMatches (fun c => c = '"') (GlobStyle.double.write glob) =
      (escape '\\' inDouble glob).rdropWhile fun c => c = '"' :=
    trimMatches_quoted (by decide) fun c hc => decide_eq_false (hends c hc).1
  rw [unquote, hdouble]
  apply trimMatches_of_ends
  · intro c hc
    obtain ⟨rest, hrest⟩ := List.head?_eq_some_iff.mp hc
    obtain ⟨dropped, hdropped⟩ := List.rdropWhile_prefix (fun c => decide (c = '"'))
      (escape '\\' inDouble glob)
    refine decide_eq_false (hends c ?_).2
    rw [← hdropped, hrest]
    rfl
  · intro c hc
    refine decide_eq_false fun heq => ?_
    induction glob using List.reverseRecOn with
    | nil => simp [escape] at hc
    | append_singleton glob d _ =>
      rw [rdropWhile_escape] at hc
      rw [List.getLast?_concat] at hlast
      split at hc
      next => simp_all
      next =>
        split at hc
        next => simp_all
        next => simp_all

namespace GlobItem

variable (item : GlobItem)

theorem ends_written : (∀ c ∈ item.written.head?, isWhitespace c = false ∧ c ≠ '[') ∧
    ∀ c ∈ item.written.getLast?, isWhitespace c = false ∧ c ≠ ']' := by
  rw [written]
  cases hstyle : item.style with
  | bare =>
    have hbare := item.bare hstyle
    exact ⟨fun c hc => ⟨(hbare.head c hc).1, fun heq =>
        hbare.noBracket.1 (heq ▸ List.mem_of_mem_head? hc)⟩,
      fun c hc => ⟨(hbare.last c hc).1, fun heq =>
        hbare.noBracket.2 (heq ▸ List.mem_of_mem_getLast? hc)⟩⟩
  | single | double =>
    exact ⟨head_bracketed (p := fun c => isWhitespace c = false ∧ c ≠ '[') (by decide) _ _,
      last_bracketed (p := fun c => isWhitespace c = false ∧ c ≠ ']') (by decide) _⟩

theorem trim_text : trim item.text = item.written := by
  rw [text, trim_append_of_isWhitespace item.blank.2.isWhitespace,
    trim_isWhitespace_append item.blank.1.isWhitespace]
  exact trim_of_ends (fun c hc => (item.ends_written.1 c hc).1)
    fun c hc => (item.ends_written.2 c hc).1

theorem written_ne_nil : item.written ≠ [] := by
  rw [written]
  cases hstyle : item.style with
  | bare => exact (item.bare hstyle).nonempty
  | single => exact List.cons_ne_nil _ _
  | double => exact List.cons_ne_nil _ _

theorem comma_not_mem_text (hglob : ',' ∉ item.glob) : ',' ∉ item.text := by
  have hblank : ∀ {s : Text}, IsBlank s → ',' ∉ s := fun hs hmem => by
    rcases hs _ hmem with hc | hc <;> exact absurd hc (by decide)
  have hwritten : ',' ∉ item.written := by
    rw [written]
    intro hmem
    cases hstyle : item.style with
    | bare =>
      rw [hstyle] at hmem
      exact hglob hmem
    | single =>
      rw [hstyle] at hmem
      exact comma_not_mem_quoted (by decide) (by decide) hglob hmem
    | double =>
      rw [hstyle] at hmem
      exact comma_not_mem_quoted (by decide) (by decide) hglob hmem
  rw [text, List.mem_append, List.mem_append]
  rintro ((hbefore | hin) | hafter)
  · exact hblank item.blank.1 hbefore
  · exact hwritten hin
  · exact hblank item.blank.2 hafter

theorem patterns_of_comma (hglob : ',' ∉ item.glob) :
    item.patterns = if unquote item.written = [] then [] else [unquote item.written] := by
  rw [patterns, List.splitOn_eq_splitOnP, List.splitOnP_eq_singleton fun c hc => by
    simpa using fun heq : c = ',' => item.comma_not_mem_text hglob (heq ▸ hc), List.map_singleton,
    trim_text]
  split <;> simp_all

theorem of_mem_patterns {pattern : Text} (hpattern : pattern ∈ item.patterns) :
    ',' ∉ pattern ∧ pattern ≠ [] ∧ pattern.head? ≠ some '\'' ∧ pattern.getLast? ≠ some '\'' := by
  rw [patterns, List.mem_filter, List.mem_map] at hpattern
  obtain ⟨⟨part, hpart, rfl⟩, hne⟩ := hpattern
  rw [List.splitOn_eq_splitOnP] at hpart
  refine ⟨fun hmem => ?_, by simpa using hne, fun hhead => ?_, fun hlast => ?_⟩
  · have hin := mem_of_mem_trim (mem_of_mem_trimMatches (mem_of_mem_trimMatches hmem))
    exact absurd (forall_of_mem_splitOnP hpart _ hin) (by decide)
  · exact absurd (head_trimMatches _ _ _ hhead) (by decide)
  · exact absurd (getLast_trimMatches _ _ _ hlast) (by decide)

theorem patterns_of_plain (hplain : item.Plain) : item.patterns = [item.glob] := by
  obtain ⟨hne, hcomma, hstyled⟩ := hplain
  have hread : unquote item.written = item.glob := by
    rw [written]
    cases hstyle : item.style with
    | bare => exact unquote_bare (item.bare hstyle)
    | single =>
      rw [hstyle] at hstyled
      have hquote : '\'' ∉ item.glob := hstyled
      rw [unquote_single (fun hhead => hquote (List.mem_of_mem_head? hhead))
        (fun hlast => hquote (List.mem_of_mem_getLast? hlast)),
        escape_of_none fun c hc => decide_eq_false fun heq : c = '\'' => hquote (heq ▸ hc)]
    | double =>
      rw [hstyle] at hstyled
      obtain ⟨hquote, hslash, hhead, hlast⟩ := hstyled
      have hnone : ∀ c ∈ item.glob, inDouble c = false := fun c hc => by
        rw [inDouble, Bool.or_eq_false_iff, decide_eq_false_iff_not, decide_eq_false_iff_not]
        exact ⟨fun heq => hquote (heq ▸ hc), fun heq => hslash (heq ▸ hc)⟩
      rw [unquote_double hhead hlast, escape_of_none hnone]
      refine List.rdropWhile_eq_self_iff.mpr fun hne hlast => hquote ?_
      exact of_decide_eq_true hlast ▸ List.getLast_mem hne
  rw [item.patterns_of_comma hcomma, hread, if_neg hne]

theorem weight_glob (hne : item.glob ≠ []) (hcomma : ',' ∉ item.glob)
    (hhead : item.glob.head? ≠ some '\'') (hlast : item.glob.getLast? ≠ some '\'') :
    weight item.glob ≤ weight (unquote item.written) ∧
      (weight item.glob = weight (unquote item.written) → item.Plain) := by
  rw [written]
  cases hstyle : item.style with
  | bare =>
    rw [GlobStyle.write, unquote_bare (item.bare hstyle)]
    exact ⟨Nat.le_refl _, fun _ => ⟨hne, hcomma, by rw [hstyle]; trivial⟩⟩
  | single =>
    rw [unquote_single hhead hlast, weight_escape (by decide)]
    refine ⟨Nat.le_add_right _ _, fun heq => ⟨hne, hcomma, ?_⟩⟩
    have hcount : item.glob.countP (fun c => c = '\'') = 0 := by omega
    rw [hstyle]
    exact fun hquote => absurd (List.countP_eq_zero.mp hcount _ hquote) (by decide)
  | double =>
    have hle := weight_escape_le item.glob
    rw [weight_escape (by decide)] at hle
    rw [unquote_double hhead hlast]
    refine ⟨by omega, fun heq => ⟨hne, hcomma, ?_⟩⟩
    have hcount := List.countP_eq_zero.mp (show item.glob.countP inDouble = 0 by omega)
    rw [hstyle]
    exact ⟨fun hquote => absurd (hcount _ hquote) (by decide),
      fun hslash => absurd (hcount _ hslash) (by decide), hhead, hlast⟩

end GlobItem

/-! ## The list -/

theorem splitOn_intercalate_flatMap {parts : List Text} (hparts : parts ≠ []) :
    ([','].intercalate parts).splitOn ',' = parts.flatMap (·.splitOn ',') := by
  induction parts with
  | nil => contradiction
  | cons part rest ih =>
    cases rest with
    | nil => simp
    | cons other rest =>
      rw [List.intercalate_cons_of_ne_nil (List.cons_ne_nil _ _), List.append_assoc,
        List.singleton_append, List.splitOn_eq_splitOnP, List.splitOnP_append_cons _ _ (by simp),
        ← List.splitOn_eq_splitOnP, ← List.splitOn_eq_splitOnP, ih (List.cons_ne_nil _ _)]
      rfl

theorem ends_intercalate {p q : Char → Prop} {parts : List Text}
    (hparts : ∀ part ∈ parts, part ≠ [] ∧ (∀ c ∈ part.head?, p c) ∧ ∀ c ∈ part.getLast?, q c) :
    (∀ c ∈ ([','].intercalate parts).head?, p c) ∧
      ∀ c ∈ ([','].intercalate parts).getLast?, q c := by
  induction parts with
  | nil => exact ⟨fun c hc => absurd hc (by simp), fun c hc => absurd hc (by simp)⟩
  | cons part rest ih =>
    obtain ⟨hne, hhead, hlast⟩ := hparts part (.head _)
    cases rest with
    | nil =>
      rw [List.intercalate_singleton]
      exact ⟨hhead, hlast⟩
    | cons other rest =>
      have hrest := ih fun found hfound => hparts found (.tail _ hfound)
      have hother := (hparts other (by simp)).1
      rw [List.intercalate_cons_of_ne_nil (List.cons_ne_nil _ _)]
      have hjoined : [','].intercalate (other :: rest) ≠ [] := by
        cases rest with
        | nil => rwa [List.intercalate_singleton]
        | cons third rest =>
          rw [List.intercalate_cons_of_ne_nil (List.cons_ne_nil _ _)]
          simp
      refine ⟨fun c hc => ?_, fun c hc => ?_⟩
      · rw [List.append_assoc, List.head?_append_of_ne_nil _ hne] at hc
        exact hhead c hc
      · rw [List.getLast?_append_of_ne_nil _ hjoined] at hc
        exact hrest.2 c hc

theorem GlobItem.ends_text (item : GlobItem) :
    item.text ≠ [] ∧ (∀ c ∈ item.text.head?, c ≠ '[') ∧ ∀ c ∈ item.text.getLast?, c ≠ ']' := by
  have hblank : ∀ {s : Text} {c : Char}, IsBlank s → c ∈ s → c ≠ '[' ∧ c ≠ ']' := fun hs hc => by
    rcases hs _ hc with rfl | rfl <;> decide
  have hwritten := item.written_ne_nil
  rw [text]
  refine ⟨by simp [hwritten], fun c hc => ?_, fun c hc => ?_⟩
  · rw [List.append_assoc, List.head?_append, Option.mem_def, Option.or_eq_some_iff] at hc
    rcases hc with hbefore | ⟨-, hrest⟩
    · exact (hblank item.blank.1 (List.mem_of_mem_head? hbefore)).1
    · rw [List.head?_append_of_ne_nil _ hwritten] at hrest
      exact (item.ends_written.1 c hrest).2
  · rw [List.getLast?_append, Option.mem_def, Option.or_eq_some_iff] at hc
    rcases hc with hafter | ⟨-, hrest⟩
    · exact (hblank item.blank.2 (List.mem_of_mem_getLast? hafter)).2
    · rw [List.getLast?_append_of_ne_nil _ hwritten] at hrest
      exact (item.ends_written.2 c hrest).2

theorem parseListValue_bracketed {inner : Text} (hhead : ∀ c ∈ inner.head?, c ≠ '[')
    (hlast : ∀ c ∈ inner.getLast?, c ≠ ']') :
    parseListValue ('[' :: inner ++ [']']) =
      ((inner.splitOn ',').map fun part => unquote (trim part)).filter (· ≠ []) := by
  have htrim : trim ('[' :: inner ++ [']']) = '[' :: inner ++ [']'] :=
    trim_of_ends (head_bracketed (by decide) _ _) (last_bracketed (by decide) _)
  have hopen : ('[' :: inner ++ [']']).dropWhile (fun c => decide (c = '[')) = inner ++ [']'] := by
    rw [List.cons_append, List.dropWhile_cons_of_pos (by decide)]
    cases inner with
    | nil => rfl
    | cons c inner => exact List.dropWhile_cons_of_neg (by simpa using hhead c rfl)
  have hclose : (inner ++ [']']).rdropWhile (fun c => decide (c = ']')) = inner := by
    rw [List.rdropWhile_concat_pos _ _ _ (by decide)]
    refine List.rdropWhile_eq_self_iff.mpr fun hne hmark => ?_
    exact hlast _ (List.getLast?_eq_some_getLast hne) (of_decide_eq_true hmark)
  rw [parseListValue, htrim, hopen, hclose]

theorem parseListValue_items (items : List GlobItem) :
    parseListValue ('[' :: [','].intercalate (items.map GlobItem.text) ++ [']']) =
      items.flatMap GlobItem.patterns := by
  have hends := @ends_intercalate (· ≠ '[') (· ≠ ']') (items.map GlobItem.text) fun part hpart => by
    obtain ⟨item, -, rfl⟩ := List.mem_map.mp hpart
    exact item.ends_text
  rw [parseListValue_bracketed hends.1 hends.2]
  by_cases hitems : items = []
  · rw [hitems]
    decide
  · rw [splitOn_intercalate_flatMap (by simpa using hitems), List.flatMap_map, List.map_flatMap,
      List.filter_flatMap]
    rfl

namespace GlobDocument

variable (document : GlobDocument)

theorem mem_patterns {pattern : Text} :
    pattern ∈ document.patterns ↔ ∃ item ∈ document.items, pattern ∈ item.patterns := by
  have hother : ∀ {ls : List Text}, (∀ line ∈ ls, ∀ key ∈ ownKey line, key ∉ patternKeys) →
      ∀ line ∈ ls.map stripCr, ∀ key ∈ ownKey line, key ∉ patternKeys := by
    intro ls hls line hline
    obtain ⟨raw, hraw, rfl⟩ := List.mem_map.mp hline
    rw [ownKey_stripCr]
    exact hls raw hraw
  have hplain : stripCr (globsLine document.gap document.items document.rest) =
      globsLine document.gap document.items document.rest := by
    refine stripCr_of_getLast? fun hlast => ?_
    rw [globsLine, ← List.append_assoc, ← List.append_assoc, List.getLast?_append_of_ne_nil _
      (List.cons_ne_nil _ _), ← List.singleton_append, List.getLast?_append,
      Option.or_eq_some_iff] at hlast
    rcases hlast with hrest | ⟨-, hbracket⟩
    · rcases document.blank.2 _ (List.mem_of_mem_getLast? hrest) with hc | hc <;>
        exact absurd hc (by decide)
    · exact absurd hbracket (by decide)
  rw [patterns, FrontDocument.split_text, parseFrontmatter]
  dsimp only
  rw [List.mem_dedup, List.mem_insertionSort, lines_unlines document.oneLine,
    document.frontLines, List.map_append, List.map_cons, List.foldl_append, List.foldl_cons, hplain,
    foldl_readLine_other (hother fun line hline =>
      document.others line (List.mem_append_right _ hline)), globsLine,
    readLine_bracketed document.blank.1 document.blank.2,
    foldl_readLine_other (hother fun line hline =>
      document.others line (List.mem_append_left _ hline)), parseListValue_items,
    List.nil_append, List.mem_flatMap]

theorem exact_of_plain (hplain : ∀ item ∈ document.items, item.Plain) : document.Exact := by
  intro pattern
  rw [mem_patterns, globs, List.mem_map]
  constructor
  · rintro ⟨item, hitem, hpattern⟩
    rw [item.patterns_of_plain (hplain item hitem), List.mem_singleton] at hpattern
    exact ⟨item, hitem, hpattern.symm⟩
  · rintro ⟨item, hitem, rfl⟩
    exact ⟨item, hitem, by rw [item.patterns_of_plain (hplain item hitem), List.mem_singleton]⟩

theorem plain_of_exact (hnodup : document.globs.Nodup) (hexact : document.Exact) :
    ∀ item ∈ document.items, item.Plain := by
  have hform : ∀ item ∈ document.items, ',' ∉ item.glob ∧ item.glob ≠ [] ∧
      item.glob.head? ≠ some '\'' ∧ item.glob.getLast? ≠ some '\'' := by
    intro item hitem
    obtain ⟨other, -, hpattern⟩ := document.mem_patterns.mp
      ((hexact item.glob).mpr (List.mem_map_of_mem hitem))
    exact other.of_mem_patterns hpattern
  have hweight : ∀ item ∈ document.items, weight item.glob ≤ weight (unquote item.written) :=
    fun item hitem => by
      obtain ⟨hcomma, hne, hhead, hlast⟩ := hform item hitem
      exact (item.weight_glob hne hcomma hhead hlast).1
  have hread : ∀ item ∈ document.items, item.patterns = [unquote item.written] := by
    intro item hitem
    obtain ⟨hcomma, hne, -⟩ := hform item hitem
    rw [item.patterns_of_comma hcomma, if_neg fun hnil => hne ?_]
    have hzero := hweight item hitem
    rw [hnil] at hzero
    exact weight_eq_zero.mp (Nat.le_zero.mp hzero)
  -- As many patterns as globs, and every glob among them: they are the same texts.
  have hperm : document.globs.Perm (document.items.map fun item => unquote item.written) := by
    refine (List.subperm_of_subset hnodup fun glob hglob => ?_).perm_of_length_le ?_
    · obtain ⟨item, hitem, hpattern⟩ := document.mem_patterns.mp ((hexact glob).mpr hglob)
      rw [hread item hitem, List.mem_singleton] at hpattern
      exact List.mem_map.mpr ⟨item, hitem, hpattern.symm⟩
    · rw [globs, List.length_map, List.length_map]
  have hsum := (hperm.map weight).sum_nat
  rw [globs, List.map_map, List.map_map] at hsum
  intro item hitem
  obtain ⟨hcomma, hne, hhead, hlast⟩ := hform item hitem
  refine (item.weight_glob hne hcomma hhead hlast).2 ?_
  by_contra hlighter
  have hlt := List.sum_lt_sum (weight ∘ GlobItem.glob)
    (weight ∘ fun item => unquote item.written) hweight
    ⟨item, hitem, lt_of_le_of_ne (hweight item hitem) hlighter⟩
  exact absurd hsum (Nat.ne_of_lt hlt)

end GlobDocument

/-- The body is cut off where it begins when the line ends are one byte, or when there is no body
and the offset falls inside a character; and the patterns are the globs when every item is plain,
and only then when no glob is listed twice. -/
theorem front_matter_exact_iff (document : FrontDocument) :
    ((splitFrontmatter document.text).2 = document.body ↔
      document.lineEnd = .lf ∨ (document.body = [] ∧ ∀ tail : Text, tail <:+ document.head →
        byteLength tail = document.uncounted → tail = [])) ∧
    ∀ document : GlobDocument, ((∀ item ∈ document.items, item.Plain) → document.Exact) ∧
      (document.globs.Nodup → document.Exact → ∀ item ∈ document.items, item.Plain) := by
  refine ⟨?_, fun document => ⟨document.exact_of_plain, document.plain_of_exact⟩⟩
  rw [document.split_text]
  dsimp only
  cases hend : document.lineEnd with
  | lf => exact iff_of_true (document.getFrom_lf hend) (.inl rfl)
  | crlf =>
    rw [document.getFrom_crlf hend, or_iff_right (by decide)]

def plainList : GlobDocument where
  lineEnd := .crlf
  front := ["globs: [ src/*.rs, 'a b', \"[x]\"]"]
  closed := true
  body := []
  oneLine := by decide
  noOtherEnd := by decide
  noDashes := by decide
  ends := by decide
  above := []
  gap := [' ']
  items := [⟨.bare, "src/*.rs", [' '], [], by decide, fun _ => ⟨by decide, by decide, by decide,
        by rintro _ ⟨⟩; decide, by rintro _ ⟨⟩; decide⟩, by simp [IsBlank]⟩,
    ⟨.single, "a b", [' '], [], by decide, nofun, by simp [IsBlank]⟩,
    ⟨.double, "[x]", [' '], [], by decide, nofun, by simp [IsBlank]⟩]
  rest := []
  below := []
  blank := by simp [IsBlank]
  frontLines := by decide
  others := by decide

def crlfBody : FrontDocument where
  lineEnd := .crlf
  front := ["type: user"]
  closed := true
  body := "Be brief."
  oneLine := by decide
  noOtherEnd := by decide
  noDashes := by decide
  ends := by decide

theorem front_matter_exact_styles :
    (∀ item ∈ plainList.items, item.Plain) ∧ plainList.Exact ∧ plainList.globs.Nodup := by
  have hplain : ∀ item ∈ plainList.items, item.Plain := by
    simp [plainList, GlobItem.Plain]
  exact ⟨hplain, ((front_matter_exact_iff crlfBody).2 plainList).1 hplain, by decide⟩

def braceList : GlobDocument where
  lineEnd := .lf
  front := ["globs: [\"*.\x7bts,tsx\x7d\"]"]
  closed := true
  body := []
  oneLine := by decide
  noOtherEnd := by decide
  noDashes := by decide
  ends := by decide
  above := []
  gap := [' ']
  items := [⟨.double, "*.\x7bts,tsx\x7d", [], [], by decide, nofun, by simp [IsBlank]⟩]
  rest := []
  below := []
  blank := by simp [IsBlank]
  frontLines := by decide
  others := by decide

theorem front_matter_not_exact : (splitFrontmatter crlfBody.text).2 = "-\r\nBe brief.".toList ∧
      (splitFrontmatter crlfBody.text).2 ≠ crlfBody.body ∧
      braceList.patterns = ["*.\x7bts".toList, "tsx\x7d".toList] ∧ ¬ braceList.Exact := by
  have hpatterns : braceList.patterns = ["*.\x7bts".toList, "tsx\x7d".toList] := by decide +kernel
  have htext : crlfBody.text =
      "---\r\ntype: user\r\n--".toList ++ "-\r\nBe brief.".toList := by decide +kernel
  have hoffset : counted crlfBody.front + 8 = byteLength "---\r\ntype: user\r\n--".toList := by
    decide +kernel
  have hbody : (splitFrontmatter crlfBody.text).2 = "-\r\nBe brief.".toList := by
    rw [FrontDocument.split_text, htext, hoffset, getFrom, splitAtByte_append]
    rfl
  refine ⟨hbody, ?_, hpatterns, fun hexact => ?_⟩
  · rw [hbody]
    decide
  have hfound := (hexact "*.\x7bts,tsx\x7d".toList).mpr (by decide)
  rw [hpatterns] at hfound
  exact absurd hfound (by decide)

end Difflore.Ingest.AgentFiles

import Difflore.Foundation.Json
import Mathlib

/-! # Decisions in the answers of a model

The answer of a model is prose around one JSON text. The text is cut out of the answer from the
first opening bracket to a last closing one, and the decisions are read from it.
-/

namespace Difflore.Memory

open Foundation Text

def rfindChar (c : Char) (s : Text) : Option Nat :=
  (s.reverse.findIdx? (· = c)).map (s.length - 1 - ·)

def findChar (c : Char) (s : Text) : Option Nat := s.findIdx? (· = c)

def openingIndex (trimmed : Text) : Option Nat :=
  match findChar '\x7b' trimmed, findChar '[' trimmed with
  | some object, some array => some (min object array)
  | some object, none => some object
  | none, some array => some array
  | none, none => none

/-- The last closing brace, or the last closing bracket where there is no brace. -/
def closingIndex (trimmed : Text) : Option Nat :=
  (rfindChar '\x7d' trimmed).or (rfindChar ']' trimmed)

def startsWithOpening (s : Text) : Bool := s.head?.any (· ∈ ['\x7b', '['])

def extractJsonObject (raw : Text) : Option Text :=
  let trimmed := trim raw
  if startsWithOpening trimmed then some trimmed
  else
    (openingIndex trimmed).bind fun start =>
      (closingIndex trimmed).bind fun last =>
        if start < last then some ((trimmed.take (last + 1)).drop start) else none

/-! ## Decisions -/

/-- The JSON library: a value of a text, and the decisions of an array or of an envelope. -/
structure DecisionReader (α : Type) where
  fromStr : Text → Except Text Json
  items : Json → Except Text (List α)
  envelope : Json → Except Text (List α)

structure DecisionErrors where
  noJson : Text
  invalidJson : Text
  parseFailed : Text

section Decisions

variable {α : Type} (reader : DecisionReader α)

def parseDecisions (errors : DecisionErrors) (raw : Text) : Except Text (List α) :=
  match extractJsonObject raw with
  | none => .error errors.noJson
  | some jsonText =>
    match reader.fromStr jsonText with
    | .error err => .error (errors.invalidJson ++ err)
    | .ok value =>
      match (if value.asArray.isSome then reader.items value else reader.envelope value) with
      | .error err => .error (errors.parseFailed ++ err)
      | .ok decisions => .ok decisions

end Decisions

def soundConfidence (confidence : Rat) : Rat :=
  if 0 ≤ confidence ∧ confidence ≤ 1 then confidence else 0

inductive MemoryCuratorAction
  | enable
  | review

inductive MemoryCuratorScope
  | universal
  | languageWide
  | pathScoped

def MemoryCuratorScope.parse (value : Text) : Option MemoryCuratorScope :=
  let name := toAsciiLowercase (trim value)
  if name = "universal" then some .universal
  else if name ∈ ["language_wide", "language-wide", "languagewide"].map String.toList then
    some .languageWide
  else if name ∈ ["path_scoped", "path-scoped", "pathscoped"].map String.toList then
    some .pathScoped
  else none

structure AiCuratorDecision where
  groupId : Text
  action : Text
  confidence : Rat
  title : Option Text
  rule : Option Text
  reason : Option Text
  scope : Option Text

structure MemoryCuratorDecision where
  groupId : Text
  action : MemoryCuratorAction
  confidence : Rat
  title : Option Text
  rule : Option Text
  reason : Option Text
  scope : Option MemoryCuratorScope

def AiCuratorDecision.into (value : AiCuratorDecision) : MemoryCuratorDecision where
  groupId := value.groupId
  action := if eqIgnoreAsciiCase (trim value.action) "enable" then .enable
    else .review
  confidence := soundConfidence value.confidence
  title := value.title
  rule := value.rule
  reason := value.reason
  scope := value.scope.bind MemoryCuratorScope.parse

def parseCuratorDecisions (reader : DecisionReader AiCuratorDecision) (raw : Text) :
    Except Text (List MemoryCuratorDecision) :=
  (parseDecisions reader
    { noJson := "local AI CLI did not return JSON"
      invalidJson := "local AI CLI returned invalid JSON: "
      parseFailed := "local AI CLI decision parse failed: " } raw).map
    (·.map AiCuratorDecision.into)

inductive JudgeVerdict
  | contradicts
  | compatible

structure AiJudgeDecision where
  conflictId : Text
  verdict : Text
  confidence : Rat
  rationale : Option Text

structure JudgeDecision where
  conflictId : Text
  verdict : JudgeVerdict
  confidence : Rat
  rationale : Option Text

def truncateChars (value : Text) (limit : Nat) : Text :=
  if limit < value.length then value.take limit ++ "..." else value

def JudgeVerdict.parse (value : Text) : Option JudgeVerdict :=
  let name := toAsciiLowercase (trim value)
  if name = "contradicts" then some .contradicts
  else if name = "compatible" then some .compatible
  else none

def AiJudgeDecision.normalize (value : AiJudgeDecision) : Option JudgeDecision :=
  (JudgeVerdict.parse value.verdict).bind fun verdict =>
    let conflictId := trim value.conflictId
    if conflictId = [] then none
    else some
      { conflictId
        verdict
        confidence := soundConfidence value.confidence
        rationale := (value.rationale.map fun text => truncateChars (trim text) 600).filter
          (· ≠ []) }

def parseJudgeDecisions (reader : DecisionReader AiJudgeDecision) (raw : Text) :
    Except Text (List JudgeDecision) :=
  (parseDecisions reader
    { noJson := "local AI judge did not return JSON"
      invalidJson := "local AI judge returned invalid JSON: "
      parseFailed := "local AI judge parse failed: " } raw).map
    (·.filterMap AiJudgeDecision.normalize)

def brackets : List Char := ['\x7b', '\x7d', '[', ']']

def IsProse (s : Text) : Prop := ∀ c ∈ s, c ∉ brackets

inductive IsContainer : Text → Prop
  | object (inner : Text) : IsContainer ('\x7b' :: (inner ++ ['\x7d']))
  | array (inner : Text) : IsContainer ('[' :: (inner ++ [']']))

/-- The JSON text is cut out of the answer, and both kinds of decisions are read from it. -/
structure ReadsJson (front json back : Text) : Prop where
  extracts : extractJsonObject (front ++ (json ++ back)) = some json
  curator : ∀ reader,
    parseCuratorDecisions reader (front ++ (json ++ back)) = parseCuratorDecisions reader json
  judge : ∀ reader,
    parseJudgeDecisions reader (front ++ (json ++ back)) = parseJudgeDecisions reader json

/-- Nothing stands in front of the JSON text and nothing behind it; or something stands in front
of it, and an array has no closing brace in it. -/
def CutOut (front json back : Text) : Prop :=
  if ∀ c ∈ front, isWhitespace c then ∀ c ∈ back, isWhitespace c
  else json.head? = some '\x7b' ∨ '\x7d' ∉ json

theorem findChar_eq_none {c : Char} {s : Text} (hs : c ∉ s) : findChar c s = none := by
  unfold findChar
  rw [List.findIdx?_eq_none_iff]
  intro d hd
  simp only [decide_eq_false_iff_not]
  rintro rfl
  exact hs hd

theorem findChar_append {c : Char} {front back : Text} (hfront : c ∉ front) :
    findChar c (front ++ c :: back) = some front.length := by
  have hnone := findChar_eq_none hfront
  unfold findChar at hnone ⊢
  rw [List.findIdx?_append, hnone, List.findIdx?_cons]
  simp

theorem length_le_of_findChar {c : Char} {front back : Text} {i : Nat} (hfront : c ∉ front)
    (hfind : findChar c (front ++ back) = some i) : front.length ≤ i := by
  have hnone := findChar_eq_none hfront
  unfold findChar at hnone hfind
  rw [List.findIdx?_append, hnone, Option.none_or] at hfind
  obtain ⟨j, _, rfl⟩ := Option.map_eq_some_iff.mp hfind
  omega

theorem rfindChar_eq_none {c : Char} {s : Text} (hs : c ∉ s) : rfindChar c s = none := by
  have hnone := findChar_eq_none (c := c) (s := s.reverse) (by simpa using hs)
  unfold findChar at hnone
  rw [rfindChar, hnone, Option.map_none]

theorem rfindChar_append {c : Char} {front back : Text} (hback : c ∉ back) :
    rfindChar c (front ++ c :: back) = some front.length := by
  have hreverse : (front ++ c :: back).reverse = back.reverse ++ c :: front.reverse := by simp
  have hfind : findChar c (back.reverse ++ c :: front.reverse) = some back.reverse.length :=
    findChar_append (by simpa using hback)
  unfold findChar at hfind
  rw [rfindChar, hreverse, hfind, Option.map_some, List.length_reverse, List.length_append,
    List.length_cons]
  congr 1
  omega

theorem openingIndex_append {front rest : Text} {c : Char} (hfront : IsProse front)
    (hc : c = '\x7b' ∨ c = '[') : openingIndex (front ++ c :: rest) = some front.length := by
  have hbrace : '\x7b' ∉ front := fun hmem => hfront _ hmem (by decide)
  have hbracket : '[' ∉ front := fun hmem => hfront _ hmem (by decide)
  unfold openingIndex
  rcases hc with rfl | rfl
  · rw [findChar_append hbrace]
    cases hfind : findChar '[' (front ++ '\x7b' :: rest) with
    | none => rfl
    | some i => exact congrArg some (min_eq_left (length_le_of_findChar hbracket hfind))
  · rw [findChar_append hbracket]
    cases hfind : findChar '\x7b' (front ++ '[' :: rest) with
    | none => rfl
    | some i => exact congrArg some (min_eq_right (length_le_of_findChar hbrace hfind))

theorem cut_eq {front middle back : Text} {last : Nat}
    (hlast : last + 1 = front.length + middle.length) :
    ((front ++ (middle ++ back)).take (last + 1)).drop front.length = middle := by
  rw [hlast, ← List.append_assoc, ← List.length_append, List.take_left, List.drop_left]

theorem IsContainer.head {json : Text} (hjson : IsContainer json) :
    ∃ c rest, json = c :: rest ∧ (c = '\x7b' ∨ c = '[') := by
  cases hjson with
  | object inner => exact ⟨_, _, rfl, .inl rfl⟩
  | array inner => exact ⟨_, _, rfl, .inr rfl⟩

theorem IsContainer.last {json : Text} (hjson : IsContainer json) :
    ∃ c rest, json = rest ++ [c] ∧ isWhitespace c = false := by
  cases hjson with
  | object inner => exact ⟨'\x7d', '\x7b' :: inner, rfl, by decide⟩
  | array inner => exact ⟨']', '[' :: inner, rfl, by decide⟩

theorem not_isWhitespace_of_opening {c : Char} (hc : c = '\x7b' ∨ c = '[') :
    isWhitespace c = false := by
  rcases hc with rfl | rfl <;> decide

theorem trim_append (front back : Text) {json : Text} (hjson : IsContainer json) :
    trim (front ++ (json ++ back)) = trimStart front ++ (json ++ trimEnd back) := by
  obtain ⟨c, rest, rfl, hc⟩ := hjson.head
  have hstart : trimStart (front ++ (c :: rest ++ back)) =
      trimStart front ++ (c :: rest ++ back) := by
    unfold trimStart
    rw [List.dropWhile_append]
    split
    next hempty =>
      rw [List.isEmpty_iff.mp hempty, List.nil_append, List.cons_append, List.dropWhile_cons,
        if_neg (by simp [not_isWhitespace_of_opening hc])]
    next => rfl
  obtain ⟨d, init, hinit, hd⟩ := hjson.last
  unfold trim
  rw [hstart, hinit]
  unfold trimEnd List.rdropWhile
  have hreverse : (trimStart front ++ (init ++ [d] ++ back)).reverse =
      back.reverse ++ d :: (trimStart front ++ init).reverse := by simp
  rw [hreverse, List.dropWhile_append]
  split
  next hempty =>
    rw [List.isEmpty_iff.mp hempty, List.dropWhile_cons, if_neg (by simp [hd])]
    simp
  next => simp

theorem trimStart_eq_nil_iff {s : Text} : trimStart s = [] ↔ ∀ c ∈ s, isWhitespace c = true :=
  List.dropWhile_eq_nil_iff

theorem trimEnd_eq_nil_iff {s : Text} : trimEnd s = [] ↔ ∀ c ∈ s, isWhitespace c = true :=
  List.rdropWhile_eq_nil_iff

theorem IsProse.trimStart {s : Text} (hs : IsProse s) : IsProse (Text.trimStart s) :=
  fun c hc => hs c ((List.dropWhile_sublist _).subset hc)

theorem IsProse.trimEnd {s : Text} (hs : IsProse s) : IsProse (Text.trimEnd s) :=
  fun c hc => hs c ((List.rdropWhile_prefix _ _).subset hc)

/-! ## Cutting -/

theorem extractJsonObject_of_opening {raw : Text} (hopening : startsWithOpening (trim raw)) :
    extractJsonObject raw = some (trim raw) :=
  if_pos hopening

theorem extractJsonObject_self {json : Text} (hjson : IsContainer json) :
    extractJsonObject json = some json := by
  have htrim : trim json = json := by
    have happend := trim_append [] [] hjson
    simpa [trimStart, trimEnd] using happend
  have hopening : startsWithOpening (trim json) := by
    obtain ⟨c, rest, rfl, hc⟩ := hjson.head
    rw [htrim]
    rcases hc with rfl | rfl <;> rfl
  rw [extractJsonObject_of_opening hopening, htrim]

theorem startsWithOpening_of_prose {s rest : Text} (hs : IsProse s) (hne : s ≠ []) :
    startsWithOpening (s ++ rest) = false := by
  obtain ⟨c, front, rfl⟩ := List.exists_cons_of_ne_nil hne
  have hc := hs c (.head _)
  simp only [brackets, List.mem_cons, List.not_mem_nil, or_false, not_or] at hc
  simp [startsWithOpening, hc]

theorem extractJsonObject_of_prose {raw front middle back : Text} {c : Char}
    (htrim : trim raw = front ++ (c :: middle ++ back)) (hfront : IsProse front)
    (hne : front ≠ []) (hc : c = '\x7b' ∨ c = '[') (hmiddle : middle ≠ [])
    (hclosing : closingIndex (trim raw) = some (front.length + middle.length)) :
    extractJsonObject raw = some (c :: middle) := by
  have hopening : openingIndex (trim raw) = some front.length := by
    rw [htrim, List.cons_append, openingIndex_append hfront hc]
  have hpositive := List.length_pos_of_ne_nil hmiddle
  unfold extractJsonObject
  simp only [hopening, hclosing, Option.bind_some]
  rw [htrim, startsWithOpening_of_prose hfront hne, if_neg (by decide), if_pos (by omega),
    cut_eq (by rw [List.length_cons]; omega)]

theorem closingIndex_of_brace {front back : Text} (hback : '\x7d' ∉ back) :
    closingIndex (front ++ '\x7d' :: back) = some front.length := by
  rw [closingIndex, rfindChar_append hback, Option.some_or]

theorem closingIndex_of_bracket {front back : Text} (hfront : '\x7d' ∉ front)
    (hback : '\x7d' ∉ back) (hbracket : ']' ∉ back) :
    closingIndex (front ++ ']' :: back) = some front.length := by
  have hnone : '\x7d' ∉ front ++ ']' :: back := by simp [hfront, hback]
  rw [closingIndex, rfindChar_eq_none hnone, Option.none_or, rfindChar_append hbracket]

theorem extractJsonObject_iff_of_prose {front json back : Text} (hjson : IsContainer json)
    (hfront : IsProse front) (hback : IsProse back) (hne : trimStart front ≠ []) :
    extractJsonObject (front ++ (json ++ back)) = some json ↔
      json.head? = some '\x7b' ∨ '\x7d' ∉ json := by
  have htrim := trim_append front back hjson
  have hstart := hfront.trimStart
  have hbrace : '\x7d' ∉ trimEnd back := fun hmem => hback.trimEnd _ hmem (by decide)
  have hbracket : ']' ∉ trimEnd back := fun hmem => hback.trimEnd _ hmem (by decide)
  have hstartBrace : '\x7d' ∉ trimStart front := fun hmem => hstart _ hmem (by decide)
  cases hjson with
  | object inner =>
    refine iff_of_true (extractJsonObject_of_prose htrim hstart hne (.inl rfl) (by simp) ?_)
      (.inl rfl)
    have hparts : trimStart front ++ ('\x7b' :: (inner ++ ['\x7d']) ++ trimEnd back) =
        (trimStart front ++ '\x7b' :: inner) ++ '\x7d' :: trimEnd back := by simp
    rw [htrim, hparts, closingIndex_of_brace hbrace]
    simp
  | array inner =>
    by_cases hinner : '\x7d' ∈ inner
    · refine iff_of_false (fun hwhole => ?_) (by simp [hinner])
      -- the last brace of the array stands in front of its last bracket
      obtain ⟨later, earlier, hsplit, hlater⟩ :=
        List.eq_append_cons_of_mem (List.mem_reverse.mpr hinner)
      have hinnerEq : inner = earlier.reverse ++ '\x7d' :: later.reverse := by
        rw [← List.reverse_inj, hsplit]
        simp
      have hparts : '[' :: (inner ++ [']']) ++ trimEnd back =
          '[' :: (earlier.reverse ++ ['\x7d']) ++ (later.reverse ++ ']' :: trimEnd back) := by
        simp [hinnerEq]
      have hclosing : closingIndex (trim (front ++ ('[' :: (inner ++ [']']) ++ back))) =
          some ((trimStart front).length + (earlier.reverse ++ ['\x7d']).length) := by
        have hrest : '\x7d' ∉ later.reverse ++ ']' :: trimEnd back := by
          simp [hlater, hbrace]
        have hall : trimStart front ++ ('[' :: (earlier.reverse ++ ['\x7d']) ++
            (later.reverse ++ ']' :: trimEnd back)) =
            (trimStart front ++ '[' :: earlier.reverse) ++
              '\x7d' :: (later.reverse ++ ']' :: trimEnd back) := by simp
        rw [htrim, hparts, hall, closingIndex_of_brace hrest]
        simp
      rw [hparts] at htrim
      rw [extractJsonObject_of_prose htrim hstart hne (.inr rfl) (by simp) hclosing,
        Option.some.injEq, hinnerEq] at hwhole
      simpa using congrArg List.length hwhole
    · refine iff_of_true (extractJsonObject_of_prose htrim hstart hne (.inr rfl) (by simp) ?_)
        (.inr (by simp [hinner]))
      have hparts : trimStart front ++ ('[' :: (inner ++ [']']) ++ trimEnd back) =
          (trimStart front ++ '[' :: inner) ++ ']' :: trimEnd back := by simp
      rw [htrim, hparts, closingIndex_of_bracket (by simp [hstartBrace, hinner]) hbrace hbracket]
      simp

theorem parseDecisions_congr {α : Type} {reader : DecisionReader α} {errors : DecisionErrors}
    {raw other : Text} (hsame : extractJsonObject raw = extractJsonObject other) :
    parseDecisions reader errors raw = parseDecisions reader errors other := by
  rw [parseDecisions, hsame, parseDecisions]

/-- The decisions are those of the JSON text exactly if prose stands in front of an object or of
an array without a closing brace, or nothing stands around the JSON text. -/
theorem readsJson_iff_cutOut {front json back : Text} (hjson : IsContainer json)
    (hfront : IsProse front) (hback : IsProse back) :
    ReadsJson front json back ↔ CutOut front json back := by
  have hextract : ReadsJson front json back ↔
      extractJsonObject (front ++ (json ++ back)) = some json := by
    refine ⟨ReadsJson.extracts, fun hextracts => ⟨hextracts, fun reader => ?_, fun reader => ?_⟩⟩
    · rw [parseCuratorDecisions, parseDecisions_congr
        (hextracts.trans (extractJsonObject_self hjson).symm), parseCuratorDecisions]
    · rw [parseJudgeDecisions, parseDecisions_congr
        (hextracts.trans (extractJsonObject_self hjson).symm), parseJudgeDecisions]
  rw [hextract, CutOut]
  split
  next hblank =>
    rw [← trimStart_eq_nil_iff] at hblank
    have htrim := trim_append front back hjson
    rw [hblank, List.nil_append] at htrim
    have hopening : startsWithOpening (trim (front ++ (json ++ back))) := by
      obtain ⟨c, rest, rfl, hc⟩ := hjson.head
      rw [htrim]
      rcases hc with rfl | rfl <;> rfl
    rw [extractJsonObject_of_opening hopening, htrim, Option.some.injEq, List.append_right_eq_self,
      trimEnd_eq_nil_iff]
  next hprose =>
    rw [← trimStart_eq_nil_iff] at hprose
    exact extractJsonObject_iff_of_prose hjson hfront hback hprose

theorem readsJson_fenced : ReadsJson "```json\n" ('\x7b' :: ("\"decisions\":[]" ++
    ['\x7d'])) "\n```\nDone." :=
  (readsJson_iff_cutOut (.object _) (by simp [IsProse, brackets]) (by simp [IsProse, brackets])).mpr
    (by
      rw [CutOut, if_neg fun hall => absurd (hall 'j' (by decide)) (by decide)]
      exact .inl rfl)

/-- An array of objects loses its last bracket, and text behind a bare object stays. -/
theorem not_readsJson : ¬ ReadsJson "Here:\n" "[\x7b\"groupId\":\"a\"\x7d]" [] ∧
      ¬ ReadsJson [] "\x7b\x7d" " done" := by
  refine ⟨fun hreads => ?_, fun hreads => ?_⟩
  · exact absurd hreads.extracts (by decide)
  · exact absurd hreads.extracts (by decide)

end Difflore.Memory

import Difflore.Foundation.Occurrence
import Difflore.SessionMine.Gate

/-! # The answer of the gate

An agent prints an object, which may stand in a fence or between prose. The object ends where its
first brace is closed.
-/

namespace Difflore.SessionMine.Gate

open Foundation Text JsonText

def fence : Text := "```"

def stripSuffix (ending s : Text) : Option Text :=
  if ending <:+ s then some (s.take (s.length - ending.length)) else none

/-- A fence that opens goes with its line, and one that closes at the end goes as well. -/
def stripMarkdownFence (s : Text) : Text :=
  let trimmed := trim s
  match stripPrefix fence trimmed with
  | some rest =>
    let afterLang := (rest.dropWhile (· ≠ '\n')).drop 1
    trimEnd ((stripSuffix fence (trimEnd afterLang)).getD afterLang)
  | none => trimmed

def untilClosed (depth : Int) (inString escape : Bool) : Text → Option Text
  | [] => none
  | b :: rest =>
    if inString then
      if escape then (untilClosed depth true false rest).map (b :: ·)
      else if b = '\\' then (untilClosed depth true true rest).map (b :: ·)
      else if b = '"' then (untilClosed depth false false rest).map (b :: ·)
      else (untilClosed depth true false rest).map (b :: ·)
    else if b = '"' then (untilClosed depth true escape rest).map (b :: ·)
    else if b = '{' then (untilClosed (depth + 1) false escape rest).map (b :: ·)
    else if b = '}' then
      if depth - 1 = 0 then some [b]
      else (untilClosed (depth - 1) false escape rest).map (b :: ·)
    else (untilClosed depth false escape rest).map (b :: ·)

def locateJsonObject (s : Text) : Option Text :=
  untilClosed 0 false false ((trim s).dropWhile (· ≠ '{'))

structure GateJson where
  verdict : Text
  ruleId : Option Text
  title : Option Text
  body : Option Text
  filePatterns : List Text
  reason : Option Text
  deriving DecidableEq

structure ParseFailure where
  reason : Text
  raw : Text
  deriving DecidableEq

def optionalString (value : Json) (key : Text) : Option Text :=
  (((value.get key).bind Json.asStr).map trim).filter (· ≠ [])

section

variable (parse : Text → Except Text Json)

def parseGateJson (raw : Text) : Except ParseFailure GateJson := do
  let cleaned := stripMarkdownFence (trim raw)
  let body ← (locateJsonObject cleaned).elim
    (.error ⟨"no JSON object found in agent output", truncateChars raw 400⟩) .ok
  let value ← (parse body).mapError fun e =>
    ⟨"invalid JSON: " ++ e, truncateChars raw 400⟩
  let verdict ← (optionalString value "verdict").elim
    (.error ⟨"missing 'verdict' field", truncateChars raw 400⟩) .ok
  let filePatterns := (((value.get "file_patterns").bind Json.asArray).map fun arr =>
    (arr.filterMap fun v => v.asStr.map trim).filter (· ≠ [])).getD []
  return {
    verdict, filePatterns
    ruleId := optionalString value "rule_id"
    title := optionalString value "title"
    body := optionalString value "body"
    reason := optionalString value "reason" }

end

theorem untilClosed_append {scan final : Scan} {s : Text}
    (hrun : Bracket.run .brace 1 scan s = some final) (rest : Text) :
    untilClosed scan.depth scan.inString scan.escape (s ++ rest) =
      (untilClosed final.depth final.inString final.escape rest).map (s ++ ·) := by
  induction s generalizing scan with
  | nil =>
    obtain rfl := Option.some.inj hrun
    simp
  | cons c tail ih =>
    rw [Bracket.run_cons] at hrun
    obtain ⟨next, hnext, htail⟩ := Option.bind_eq_some_iff.mp hrun
    obtain ⟨hstep, hfloor, _⟩ := Bracket.above_eq_some hnext
    have hmap : (untilClosed next.depth next.inString next.escape (tail ++ rest)).map (c :: ·) =
        (untilClosed final.depth final.inString final.escape rest).map ((c :: tail) ++ ·) := by
      rw [ih htail, Option.map_map]
      rfl
    rw [← hmap, List.cons_append]
    obtain ⟨depth, inString, escape⟩ := scan
    rw [Bracket.step] at hstep
    cases inString with
    | true =>
      cases escape with
      | true =>
        subst hstep
        rfl
      | false =>
        subst hstep
        simp only [untilClosed, if_true, Bool.false_eq_true, if_false]
        split
        · rfl
        · split <;> rfl
    | false =>
      simp only [Bool.false_eq_true, if_false] at hstep
      simp only [untilClosed, Bool.false_eq_true, if_false]
      by_cases hquote : c = '"'
      · rw [if_pos hquote] at hstep
        rw [if_pos hquote, hstep]
      rw [if_neg hquote] at hstep ⊢
      by_cases hopen : c = '{'
      · rw [if_pos (show c = Bracket.opening .brace from hopen)] at hstep
        rw [if_pos hopen, hstep]
      rw [if_neg (show ¬ c = Bracket.opening .brace from hopen)] at hstep
      rw [if_neg hopen]
      by_cases hclose : c = '}'
      · -- The depth is not back at zero yet.
        rw [if_pos (show c = Bracket.closing .brace from hclose)] at hstep
        rw [hstep] at hfloor
        rw [if_pos hclose, if_neg (by dsimp only at hfloor; omega), hstep]
      · rw [if_neg (show ¬ c = Bracket.closing .brace from hclose)] at hstep
        rw [if_neg hclose, hstep]

theorem untilClosed_object {s : Text} (hs : IsObject s) (rest : Text) :
    untilClosed 0 false false (s ++ rest) = some s := by
  obtain ⟨body, hbody, rfl⟩ := hs.body
  have hinner := untilClosed_append (hbody 1 1 (Int.le_refl 1)) ('}' :: rest)
  have hlast : untilClosed 1 false false ('}' :: rest) = some ['}'] := rfl
  have hfirst : ∀ tail, untilClosed 0 false false ('{' :: tail) =
      (untilClosed 1 false false tail).map ('{' :: ·) := fun _ => rfl
  rw [List.cons_append, List.append_assoc, List.singleton_append, hfirst]
  rw [Scan.at, hlast, Option.map_some] at hinner
  rw [hinner]
  rfl

/-- The text holds the object behind something without an opening brace. -/
def Holds (object s : Text) : Prop := ∃ before after, '{' ∉ before ∧ s = before ++ (object ++ after)

section

variable {object s : Text}

section

variable (hobject : IsObject object)
include hobject

theorem IsObject.head : ∃ tail, object = '{' :: tail := by
  obtain ⟨body, _, rfl⟩ := hobject
  exact ⟨_, rfl⟩

theorem IsObject.last : ∃ front, object = front ++ ['}'] := by
  obtain ⟨body, _, rfl⟩ := hobject
  exact ⟨'{' :: body, rfl⟩

theorem Holds.of_append {front back : Text}
    (hs : Holds object (front ++ back)) (hback : '}' ∉ back) : Holds object front := by
  obtain ⟨before, after, hbefore, heq⟩ := hs
  obtain ⟨inner, hinner⟩ := IsObject.last hobject
  refine ⟨before, ?_⟩
  rw [hinner, List.append_assoc, ← List.append_assoc before] at heq
  rcases List.append_eq_append_iff.mp heq with ⟨gap, hgap, hrest⟩ | ⟨gap, hgap, hrest⟩
  · exact absurd (hrest ▸ List.mem_append_right gap (.head _)) hback
  · cases gap with
    | nil =>
      rw [List.nil_append] at hrest
      exact absurd (hrest ▸ (.head _)) hback
    | cons c gap =>
      rw [List.singleton_append, List.cons_append, List.cons.injEq] at hrest
      refine ⟨gap, hbefore, ?_⟩
      rw [hgap, ← hrest.1, hinner, List.append_assoc, List.append_assoc, List.singleton_append]

theorem Holds.of_prepend {front back : Text}
    (hs : Holds object (front ++ back)) (hfront : '{' ∉ front) : Holds object back := by
  obtain ⟨before, after, hbefore, heq⟩ := hs
  obtain ⟨tail, htail⟩ := IsObject.head hobject
  rcases List.append_eq_append_iff.mp heq with ⟨gap, hgap, hrest⟩ | ⟨gap, hgap, hrest⟩
  · refine ⟨gap, after, fun hmem => hbefore (hgap ▸ List.mem_append_right _ hmem), hrest⟩
  · cases gap with
    | nil => exact ⟨[], after, List.not_mem_nil, hrest.symm⟩
    | cons c gap =>
      rw [htail, List.cons_append, List.cons_append, List.cons.injEq] at hrest
      exact absurd (hgap ▸ List.mem_append_right _ (hrest.1 ▸ (.head _))) hfront

theorem Holds.trimEnd (hs : Holds object s) :
    Holds object (Text.trimEnd s) := by
  have hsplit : Text.trimEnd s ++ s.rtakeWhile isWhitespace = s := List.rdropWhile_append_rtakeWhile
  refine Holds.of_append hobject (hsplit ▸ hs) fun hmem => ?_
  exact absurd (List.mem_rtakeWhile_imp hmem) (by decide)

theorem Holds.trim (hs : Holds object s) :
    Holds object (Text.trim s) := by
  have hsplit : s.takeWhile isWhitespace ++ trimStart s = s := List.takeWhile_append_dropWhile
  refine Holds.trimEnd hobject (Holds.of_prepend hobject (hsplit ▸ hs) fun hmem => ?_)
  exact absurd (List.mem_takeWhile_imp hmem) (by decide)

theorem Holds.stripSuffix {ending rest : Text} (hs : Holds object s)
    (hending : '}' ∉ ending) (hrest : Gate.stripSuffix ending s = some rest) :
    Holds object rest := by
  rw [Gate.stripSuffix] at hrest
  split at hrest
  next hends =>
    obtain ⟨front, rfl⟩ := hends
    rw [List.length_append, Nat.add_sub_cancel, List.take_left, Option.some.injEq] at hrest
    exact hrest ▸ Holds.of_append hobject hs hending
  next => contradiction

theorem locateJsonObject_of_holds (hs : Holds object s) :
    locateJsonObject s = some object := by
  obtain ⟨before, after, hbefore, heq⟩ := Holds.trim hobject hs
  obtain ⟨tail, htail⟩ := IsObject.head hobject
  have hdrop : (before ++ (object ++ after)).dropWhile (· ≠ '{') = object ++ after := by
    rw [List.dropWhile_append_of_pos fun c hc => by
      rw [decide_eq_true_iff]
      exact fun heq => hbefore (heq ▸ hc)]
    rw [htail, List.cons_append]
    rfl
  rw [locateJsonObject, heq, hdrop]
  exact untilClosed_object hobject after

end

/-! ## Fences and prose -/

/-- The ways in which an agent prints the object: alone, in a fence whose opening line ends, with
anything behind the object, or between prose that does not open a fence. -/
inductive Wrapped (object : Text) : Text → Prop
  | bare : Wrapped object object
  | fenced (lead info gap tail : Text) (hlead : ∀ c ∈ lead, isWhitespace c = true)
      (hinfo : '\n' ∉ info) (hgap : '{' ∉ gap) :
      Wrapped object (lead ++ (fence ++ (info ++ ('\n' :: (gap ++ (object ++ tail))))))
  | prose (before after : Text) (hbefore : '{' ∉ before)
      (hfence : ¬ fence <+: trimStart before) : Wrapped object (before ++ (object ++ after))

theorem stripMarkdownFence_trim (s : Text) :
    stripMarkdownFence (trim s) = stripMarkdownFence s := by
  rw [stripMarkdownFence, stripMarkdownFence, trim_trim]

theorem not_fence_start {before rest : Text} (hbefore : ¬ fence <+: before) :
    ¬ fence <+: before ++ ('{' :: rest) := by
  rintro ⟨tail, htail⟩
  rcases List.append_eq_append_iff.mp htail with ⟨gap, hgap, _⟩ | ⟨gap, hgap, hrest⟩
  · exact hbefore ⟨gap, hgap.symm⟩
  · cases gap with
    | nil => exact hbefore ⟨[], hgap ▸ by simp⟩
    | cons c gap =>
      -- A longer fence would hold the brace.
      rw [List.cons_append, List.cons.injEq] at hrest
      have hmem : '{' ∈ fence := hgap ▸ List.mem_append_right _ (hrest.1 ▸ (.head _))
      exact absurd hmem (by decide)

theorem holds_of_prose {before after : Text} (hobject : IsObject object) (hbefore : '{' ∉ before)
    (hfence : ¬ fence <+: trimStart before) :
    Holds object (stripMarkdownFence (before ++ (object ++ after))) := by
  have hwhole : Holds object (before ++ (object ++ after)) := ⟨before, after, hbefore, rfl⟩
  have hplain : stripPrefix fence (trim (before ++ (object ++ after))) = none := by
    rw [stripPrefix_eq_none]
    intro hprefix
    have hstart : fence <+: trimStart (before ++ (object ++ after)) :=
      hprefix.trans (List.rdropWhile_prefix _ _)
    obtain ⟨tail, htail⟩ := IsObject.head hobject
    rw [htail, List.cons_append] at hstart
    rw [trimStart, List.dropWhile_append] at hstart
    split at hstart
    · rw [List.dropWhile_cons_of_neg (by decide)] at hstart
      exact @not_fence_start [] _ (by decide) hstart
    · exact not_fence_start hfence hstart
  rw [stripMarkdownFence, hplain]
  exact Holds.trim hobject hwhole

theorem holds_of_fenced {lead info gap tail : Text} (hobject : IsObject object)
    (hlead : ∀ c ∈ lead, isWhitespace c = true) (hinfo : '\n' ∉ info) (hgap : '{' ∉ gap) :
    Holds object
      (stripMarkdownFence (lead ++ (fence ++ (info ++ ('\n' :: (gap ++ (object ++ tail))))))) := by
  have hobjectTail : Holds object (trimEnd (object ++ tail)) :=
    Holds.trimEnd hobject ⟨[], tail, List.not_mem_nil, rfl⟩
  have hne : trimEnd (object ++ tail) ≠ [] := by
    obtain ⟨before, after, _, heq⟩ := hobjectTail
    obtain ⟨rest, hrest⟩ := IsObject.head hobject
    rw [heq, hrest]
    simp
  have htrim : trim (lead ++ (fence ++ (info ++ ('\n' :: (gap ++ (object ++ tail)))))) =
      fence ++ (info ++ ('\n' :: (gap ++ trimEnd (object ++ tail)))) := by
    rw [trim, trimStart, List.dropWhile_append_of_pos hlead]
    have hstart : (fence ++ (info ++ ('\n' :: (gap ++ (object ++ tail))))).dropWhile
        isWhitespace = fence ++ (info ++ '\n' :: (gap ++ (object ++ tail))) := rfl
    rw [hstart]
    have hend := trimEnd_append hne (fence ++ (info ++ ('\n' :: gap)))
    simpa only [List.append_assoc, List.cons_append] using hend
  rw [stripMarkdownFence, htrim, stripPrefix_append]
  dsimp only
  have hafterLang : ((info ++ ('\n' :: (gap ++ trimEnd (object ++ tail)))).dropWhile
      (· ≠ '\n')).drop 1 = gap ++ trimEnd (object ++ tail) := by
    rw [List.dropWhile_append_of_pos fun c hc => by
      rw [decide_eq_true_iff]
      exact fun heq => hinfo (heq ▸ hc)]
    rfl
  rw [hafterLang]
  have hgapped : Holds object (gap ++ trimEnd (object ++ tail)) := by
    obtain ⟨before, after, hbefore, heq⟩ := hobjectTail
    refine ⟨gap ++ before, after, fun hmem => ?_, by rw [heq, List.append_assoc]⟩
    exact (List.mem_append.mp hmem).elim hgap hbefore
  apply Holds.trimEnd hobject
  cases hclosed : Gate.stripSuffix fence (trimEnd (gap ++ trimEnd (object ++ tail))) with
  | none => exact hgapped
  | some rest =>
    exact Holds.stripSuffix hobject (Holds.trimEnd hobject hgapped) (by decide) hclosed

theorem holds_of_wrapped {raw : Text} (hobject : IsObject object) (hraw : Wrapped object raw) :
    Holds object (stripMarkdownFence raw) := by
  cases hraw with
  | bare =>
    have halone := @holds_of_prose _ [] [] hobject List.not_mem_nil (by decide)
    rwa [List.nil_append, List.append_nil] at halone
  | fenced lead info gap tail hlead hinfo hgap => exact holds_of_fenced hobject hlead hinfo hgap
  | prose before after hbefore hfence => exact holds_of_prose hobject hbefore hfence

theorem parseGateJson_of_wrapped (parse : Text → Except Text Json) {raw : Text}
    (hobject : IsObject object) (hraw : Wrapped object raw) :
    parseGateJson parse raw =
      (parseGateJson parse object).mapError fun err => ⟨err.reason, truncateChars raw 400⟩ := by
  have hlocated := locateJsonObject_of_holds hobject (holds_of_wrapped hobject hraw)
  have halone := locateJsonObject_of_holds hobject (holds_of_wrapped hobject .bare)
  rw [← stripMarkdownFence_trim] at hlocated halone
  rw [parseGateJson, parseGateJson, hlocated, halone]
  simp only [Option.elim_some]
  cases hparse : parse object with
  | error err => simp only [bind, Except.bind, hparse, Except.mapError]
  | ok value =>
    cases hverdict : optionalString value "verdict" with
    | none => simp only [bind, Except.bind, hparse, Except.mapError, hverdict, Option.elim_none]
    | some verdict =>
      simp only [bind, Except.bind, hparse, Except.mapError, hverdict, Option.elim_some]
      rfl

end

/-- The first object is located in whatever an agent prints around it, and read alike. -/
theorem gate_answer_located (parse : Text → Except Text Json) {object : Text}
    (hobject : IsObject object) :
    (∀ before after, '{' ∉ before → ¬ fence <+: trimStart before →
      locateJsonObject (stripMarkdownFence (before ++ (object ++ after))) = some object) ∧
    ∀ raw, Wrapped object raw → parseGateJson parse raw =
      (parseGateJson parse object).mapError fun err => ⟨err.reason, truncateChars raw 400⟩ :=
  ⟨fun _ _ hbefore hfence =>
      locateJsonObject_of_holds hobject (holds_of_prose hobject hbefore hfence),
    fun _ hraw => parseGateJson_of_wrapped parse hobject hraw⟩

def bracedObject : Text := "\x7b\"verdict\":\"\x7d\"\x7d"

theorem isObject_bracedObject : IsObject bracedObject := by
  have hname : StringBody "verdict".toList := by
    repeat refine .plain (by decide) (by decide) (by decide) ?_
    exact .nil
  have hvalue : Reads .element ([] ++ (('"' :: (['}'] ++ ['"'])) ++ [])) :=
    .element nofun (.string (.plain (by decide) (by decide) (by decide) .nil)) nofun
  have hmember : Reads .member ([] ++ (('"' :: ("verdict".toList ++ ['"'])) ++ ([] ++ (':' ::
      ([] ++ (('"' :: (['}'] ++ ['"'])) ++ [])))))) :=
    .member nofun hname nofun hvalue
  exact ⟨_, .inr (.lastMember hmember), rfl⟩

def parseBraced (text : Text) : Except Text Json :=
  if text = bracedObject then .ok (.object [("verdict", .string ['}'])])
  else .error "expected value"

theorem gate_answer_located_braced :
    locateJsonObject (stripMarkdownFence ("ok: " ++ (bracedObject ++ " \x7d"))) =
        some bracedObject ∧
      (parseGateJson parseBraced ([] ++ (fence ++ ("json".toList ++ ('\n' ::
        ([] ++ (bracedObject ++ ('\n' :: fence)))))))).toOption.map GateJson.verdict =
          some ['}'] := by
  have hlocated := gate_answer_located parseBraced isObject_bracedObject
  refine ⟨hlocated.1 _ _ (by decide) (by decide), ?_⟩
  rw [hlocated.2 _ (.fenced [] "json" [] ('\n' :: fence) nofun (by decide)
    nofun)]
  decide +kernel

/-- A fence behind a blank hides the object, and a failure quotes its own output. -/
theorem gate_answer_not_located :
    IsObject "\x7b\x7d".toList ∧ '{' ∉ " ```".toList ∧ ¬ fence <+: " ```".toList ∧
      locateJsonObject (stripMarkdownFence (" ```" ++ "\x7b\x7d".toList)) = none ∧
      parseGateJson (fun _ => .ok (.object [])) (fence ++ ('\n' :: "\x7b\x7d")) ≠
        parseGateJson (fun _ => .ok (.object [])) "\x7b\x7d" := by
  refine ⟨⟨[], .inl nofun, by decide⟩, by decide, by decide, by decide, by decide +kernel⟩

end Difflore.SessionMine.Gate

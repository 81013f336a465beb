import Difflore.SessionMine.Extract

/-! # Does the edit check look past tool traffic?

A transcript carries the results of tools in rows of the user. The scan for edits begins
anew at each such row, and the scan for the last text gives up at an assistant row
without content.
-/

namespace Difflore.Hook

open Foundation Text

def editTools : List Text := ["Edit", "MultiEdit", "Write", "NotebookEdit"]

def bashWriteKeywords : List Text :=
  [" > ", ">>", " tee ", "tee ", " cp ", "cp ", " mv ", "mv ", "sed -i", "git apply",
    "git commit", "git add"]

section

variable (parse : Text → Option Json)

/-- Blank and malformed lines are skipped. `body` is the transcript, or the last 32 MiB of it. -/
def transcriptRows (body : Text) : List Json :=
  (Text.lines body).filterMap fun line => if trim line = [] then none else parse (trim line)

end

def messageRole (row : Json) : Option Text :=
  ((row.get "message").bind (Json.get "role")).bind Json.asStr

def rowType (row : Json) : Option Text := (row.get "type").bind Json.asStr

def turnRole (row : Json) : Option Text := (messageRole row).or (rowType row)

def isUserRow (row : Json) : Bool := turnRole row = some ("user" : Text)

def messageContent (row : Json) : Option Json := (row.get "message").bind (Json.get "content")

def contentParts (row : Json) : List Json := ((messageContent row).bind Json.asArray).getD []

def isEditUse (part : Json) : Bool :=
  let name := ((part.get "name").bind Json.asStr).getD []
  rowType part = some ("tool_use" : Text) &&
    (name ∈ editTools || name = "Bash" && bashWriteKeywords.any fun keyword =>
      keyword <:+: (((part.get "input").bind (Json.get "command")).bind Json.asStr).getD [])

def isEditRow (row : Json) : Bool :=
  turnRole row = some ("assistant" : Text) && (contentParts row).any isEditUse

def carriesPrompt (row : Json) : Bool := isUserRow row && !(contentParts row ≠ [] &&
    (contentParts row).all fun part => rowType part = some ("tool_result" : Text))

def isAssistantRow (row : Json) : Bool :=
  rowType row = some ("assistant" : Text) || messageRole row = some ("assistant" : Text)

def contentText (content : Json) : Text :=
  match content.asArray with
  | some parts => parts.foldl SessionMine.appendPart []
  | none => content.asStr.getD []

def rowText (row : Json) : Option Text := ((messageContent row).map contentText).filter (· ≠ [])

def lastAssistantTurnInvokedEditTool (rows : List Json) : Bool :=
  rows.foldl (fun foundEdit row => if isUserRow row then false else foundEdit || isEditRow row)
    false

def readLastAssistantText : Option Text → List Json → Option Text
  | lastText, [] => lastText
  | lastText, row :: rest =>
    if isAssistantRow row then
      match messageContent row with
      | none => none
      | some content =>
        readLastAssistantText (if contentText content = [] then lastText
          else some (contentText content)) rest
    else readLastAssistantText lastText rest

/-! ## What they are for -/

def currentTurn (rows : List Json) : List Json := rows.rtakeWhile fun row => !carriesPrompt row

def afterLastEdit (rows : List Json) : List Json := rows.rtakeWhile fun row => !isEditRow row

def lastText (rows : List Json) : Option Text :=
  ((rows.filter isAssistantRow).filterMap rowText).getLast?

/-- What follows the last edit use holds a prompt, or no row of the user at all. -/
def NoResultAfterEdit (rows : List Json) : Prop :=
  rows.any isEditRow = true → (∀ row ∈ afterLastEdit rows, carriesPrompt row = false) →
    ∀ row ∈ afterLastEdit rows, isUserRow row = false

theorem any_rtakeWhile {α : Type} {p q : α → Bool} (hq : ∀ x, q x = true → p x = true)
    (l : List α) :
    (l.rtakeWhile p).any q = true ↔
      l.any q = true ∧ ∀ x ∈ l.rtakeWhile (fun x => !q x), p x = true := by
  induction l using List.reverseRecOn with
  | nil => simp
  | append_singleton front last ih =>
    by_cases hlast : q last = true
    · rw [List.rtakeWhile_concat_pos p front last (hq last hlast),
        List.rtakeWhile_concat_neg _ front last (by simp [hlast])]
      simp [hlast]
    · rw [List.rtakeWhile_concat_pos (fun x => !q x) front last (by simp [hlast])]
      by_cases hp : p last = true
      · rw [List.rtakeWhile_concat_pos p front last hp]
        simpa [hlast, hp, or_imp, forall_and] using ih
      · rw [List.rtakeWhile_concat_neg p front last hp]
        simp [hlast, hp]

theorem isUserRow_of_isEditRow {row : Json} (hedit : isEditRow row = true) :
    isUserRow row = false := by
  rw [isEditRow, Bool.and_eq_true, decide_eq_true_eq] at hedit
  rw [isUserRow, hedit.1]
  decide

theorem invokedEditTool_eq (rows : List Json) : lastAssistantTurnInvokedEditTool rows =
      (rows.rtakeWhile fun row => !isUserRow row).any isEditRow := by
  induction rows using List.reverseRecOn with
  | nil => rfl
  | append_singleton front last ih =>
    rw [lastAssistantTurnInvokedEditTool] at ih ⊢
    rw [List.foldl_append, List.foldl_cons, List.foldl_nil, ih]
    by_cases huser : isUserRow last = true
    · rw [if_pos huser, List.rtakeWhile_concat_neg _ front last (by simp [huser]), List.any_nil]
    · rw [if_neg huser, List.rtakeWhile_concat_pos _ front last (by simp [huser]),
        List.any_append, List.any_cons, List.any_nil, Bool.or_false]

theorem invokedEditTool_iff (rows : List Json) :
    (lastAssistantTurnInvokedEditTool rows = true ↔ (currentTurn rows).any isEditRow = true) ↔
      NoResultAfterEdit rows := by
  have hprompt : ∀ row, isEditRow row = true → (!carriesPrompt row) = true := by
    intro row hedit
    rw [carriesPrompt, isUserRow_of_isEditRow hedit, Bool.false_and, Bool.not_false]
  have huser : ∀ row, isEditRow row = true → (!isUserRow row) = true := by
    intro row hedit
    rw [isUserRow_of_isEditRow hedit, Bool.not_false]
  have hweaker : (∀ row ∈ afterLastEdit rows, isUserRow row = false) →
      ∀ row ∈ afterLastEdit rows, carriesPrompt row = false := by
    intro hno row hrow
    rw [carriesPrompt, hno row hrow, Bool.false_and]
  rw [invokedEditTool_eq, currentTurn, any_rtakeWhile huser, any_rtakeWhile hprompt,
    NoResultAfterEdit]
  simp only [Bool.not_eq_true', afterLastEdit] at hweaker ⊢
  tauto

theorem lastText_cons (row : Json) (rest : List Json) : lastText (row :: rest) =
      (lastText rest).or (if isAssistantRow row then rowText row else none) := by
  unfold lastText
  by_cases hrow : isAssistantRow row = true
  · rw [List.filter_cons_of_pos hrow, if_pos hrow]
    cases htext : rowText row with
    | none => rw [List.filterMap_cons_none htext, Option.or_none]
    | some text =>
      rw [List.filterMap_cons_some htext, List.getLast?_cons]
      cases ((rest.filter isAssistantRow).filterMap rowText).getLast? <;> rfl
  · rw [List.filter_cons_of_neg hrow, if_neg hrow, Option.or_none]

theorem readLastAssistantText_eq (rows : List Json) (last : Option Text) :
    readLastAssistantText last rows =
      if (∀ row ∈ rows, isAssistantRow row = true → messageContent row ≠ none) then
        (lastText rows).or last else none := by
  induction rows generalizing last with
  | nil => simp [readLastAssistantText, lastText]
  | cons row rest ih =>
    unfold readLastAssistantText
    rw [lastText_cons]
    by_cases hrow : isAssistantRow row = true
    · rw [if_pos hrow, if_pos hrow]
      cases hcontent : messageContent row with
      | none => simp [hrow, hcontent]
      | some content =>
        have htext : (rowText row).or last =
            if contentText content = [] then last else some (contentText content) := by
          rw [rowText, hcontent, Option.map_some]
          split <;> simp_all [Option.filter]
        simp [ih, ← htext, Option.or_assoc, hcontent]
    · simp [ih, hrow]

/-- The flag is right exactly if no result of a tool hides the last edit, and the text
exactly if no assistant row without content hides one. -/
theorem last_turn_iff (parse : Text → Option Json) (body : Text) :
    ((lastAssistantTurnInvokedEditTool (transcriptRows parse body) = true ↔
        (currentTurn (transcriptRows parse body)).any isEditRow = true) ↔
      NoResultAfterEdit (transcriptRows parse body)) ∧
    (readLastAssistantText none (transcriptRows parse body) = lastText (transcriptRows parse body) ↔
      (∀ row ∈ transcriptRows parse body, isAssistantRow row = true → messageContent row ≠ none) ∨
        ∀ row ∈ transcriptRows parse body, isAssistantRow row = true → rowText row = none) := by
  refine ⟨invokedEditTool_iff _, ?_⟩
  have hnone : lastText (transcriptRows parse body) = none ↔
      ∀ row ∈ transcriptRows parse body, isAssistantRow row = true → rowText row = none := by
    simp [lastText]
  rw [readLastAssistantText_eq, Option.or_none, ← hnone]
  split
  next hcontent => exact ⟨fun _ => .inl hcontent, fun _ => rfl⟩
  next hcontent =>
    rw [or_iff_right hcontent]
    exact eq_comm

def editLine : Text :=
  "\x7b\"type\":\"assistant\",\"message\":\x7b\"role\":\"assistant\",\"content\":[" ++
    "\x7b\"type\":\"tool_use\",\"name\":\"Edit\"\x7d]\x7d\x7d"

def resultLine : Text := "\x7b\"type\":\"user\",\"message\":\x7b\"role\":\"user\",\"content\":[" ++
    "\x7b\"type\":\"tool_result\"\x7d]\x7d\x7d"

def contentRow (role : Text) (part : List (Text × Json)) : Json :=
  .object [("message", .object [("content", .array [.object part]), ("role", .string role)]),
    ("type", .string role)]

def parseExchange (line : Text) : Option Json :=
  if line = editLine then
    some (contentRow "assistant" [("name", .string "Edit"), ("type", .string "tool_use")])
  else if line = resultLine then some (contentRow "user" [("type", .string "tool_result")])
  else none

/-- The result of the edit itself makes the turn one without an edit. -/
theorem edit_with_result_missed : ¬ ∀ (parse : Text → Option Json) (body : Text),
    (lastAssistantTurnInvokedEditTool (transcriptRows parse body) = true ↔
      (currentTurn (transcriptRows parse body)).any isEditRow = true) := by
  intro hclaim
  exact absurd (hclaim parseExchange (editLine ++ '\n' :: resultLine)) (by decide +kernel)

end Difflore.Hook

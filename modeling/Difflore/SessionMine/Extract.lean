import Difflore.Foundation.Json
import Difflore.SessionMine.Candidate

/-! # The recent pairs of a transcript

A transcript holds one row on each line. A prompt waits for the first assistant row that has text,
pairs are kept in order until the budget of the extraction is spent, and the last ones are returned.
-/

namespace Difflore.SessionMine

open Foundation Text

structure Pair where
  userPrompt : Text
  assistantText : Text
  deriving DecidableEq

def pairMaxChars : Nat := 2000

def totalMaxChars : Nat := 40000

inductive Role
  | user
  | assistant

def rowRole (value : Json) : Option Role :=
  let top := (value.get "type").bind Json.asStr
  let nested := ((value.get "message").bind (Json.get "role")).bind Json.asStr
  (top.or nested).bind fun any =>
    if any = "user" then some .user
    else if any = "assistant" then some .assistant
    else none

def appendPart (buf : Text) (part : Json) : Text :=
  if ((part.get "type").bind Json.asStr).getD [] ≠ "text" then buf
  else match (part.get "text").bind Json.asStr with
    | some text => (if buf = [] then [] else buf ++ ['\n']) ++ text
    | none => buf

def extractTextContent (value : Json) : Option Text :=
  ((value.get "message").bind (Json.get "content")).bind fun content =>
    match content.asStr with
    | some s => some s
    | none => content.asArray.bind fun arr =>
      let buf := arr.foldl appendPart []
      if buf = [] then none else some buf

def buildCappedPair (userPrompt assistantText : Text) : Pair where
  userPrompt := truncateChars (trim userPrompt) (pairMaxChars / 2)
  assistantText := truncateChars (trim assistantText) (pairMaxChars / 2)

def Pair.chars (pair : Pair) : Nat := pair.userPrompt.length + pair.assistantText.length

section

variable (parse : Text → Option Json)

/-- The rows that are left, with the prompt that waits and what the pairs before them cost. -/
def walk : Option Text → List Pair → Nat → List Text → List Pair
  | _, pairs, _, [] => pairs
  | pendingUser, pairs, totalChars, line :: rest =>
    if trim line = [] then walk pendingUser pairs totalChars rest
    else match parse (trim line) with
      | none => walk pendingUser pairs totalChars rest
      | some value => match rowRole value with
        | some .user => walk (extractTextContent value) pairs totalChars rest
        | some .assistant =>
          let assistantText := (extractTextContent value).getD []
          if trim assistantText = [] then walk pendingUser pairs totalChars rest
          else match pendingUser with
            | none => walk none pairs totalChars rest
            | some userPrompt =>
              let pair := buildCappedPair userPrompt assistantText
              if trim userPrompt = [] then walk none pairs totalChars rest
              else if totalChars + pair.chars > totalMaxChars then pairs
              else walk none (pairs ++ [pair]) (totalChars + pair.chars) rest
        | none => walk pendingUser pairs totalChars rest

def extractFromClaudeCode (body : Text) (maxPairs : Nat) : List Pair :=
  let pairs := walk parse none [] 0 (Text.lines body)
  pairs.drop (pairs.length - maxPairs)

def extractRecentSessionPairs (body : Text) (maxPairs : Nat) : List Pair :=
  if maxPairs = 0 then [] else extractFromClaudeCode parse body maxPairs

end

section

variable {α β : Type}

def latest (n : Nat) (l : List α) : List α := l.drop (l.length - n)

theorem latest_suffix (n : Nat) (l : List α) : latest n l <:+ l := List.drop_suffix _ l

theorem length_latest (n : Nat) (l : List α) : (latest n l).length = min n l.length := by
  rw [latest, List.length_drop]
  omega

theorem latest_map (f : α → β) (n : Nat) (l : List α) :
    latest n (l.map f) = (latest n l).map f := by
  rw [latest, latest, List.length_map, List.map_drop]

theorem eq_latest_of_suffix {n : Nat} {l back : List α} (hback : back <:+ l)
    (hlength : back.length = min n l.length) : back = latest n l := by
  obtain ⟨front, rfl⟩ := hback
  rw [List.length_append] at hlength
  have hdrop : (front ++ back).length - n = front.length := by
    rw [List.length_append]
    omega
  rw [latest, hdrop, List.drop_left]

theorem latest_filter {n : Nat} {l : List α} {p : α → Bool} (hkept : ∀ a ∈ latest n l, p a = true) :
    latest n (l.filter p) = latest n l := by
  have hsplit : l.filter p = (l.take (l.length - n)).filter p ++ latest n l := by
    conv_lhs => rw [← List.take_append_drop (l.length - n) l]
    rw [List.filter_append]
    exact congrArg _ (List.filter_eq_self.mpr hkept)
  symm
  apply eq_latest_of_suffix ⟨_, hsplit.symm⟩
  rw [hsplit, List.length_append, length_latest]
  rcases Nat.le_total n l.length with hle | hle
  · omega
  · have hfront : l.length - n = 0 := Nat.sub_eq_zero_of_le hle
    rw [hfront, List.take_zero, List.filter_nil, List.length_nil, Nat.zero_add]
    omega

end

/-! ## Numbered rows

A row is known by its number, so that two pairs of the same texts are told apart.
-/

inductive Row
  | user (text : Option Text)
  | assistant (text : Option Text)
  | other
  deriving DecidableEq

def readRow (parse : Text → Option Json) (line : Text) : Row :=
  if trim line = [] then .other
  else match parse (trim line) with
    | none => .other
    | some value => match rowRole value with
      | some .user => .user (extractTextContent value)
      | some .assistant => .assistant (extractTextContent value)
      | none => .other

def Row.textless : Row → Bool
  | .user text => text.isNone
  | .assistant text => text.isNone
  | .other => true

def numberedRows (parse : Text → Option Json) (body : Text) : List (Row × Nat) :=
  ((Text.lines body).map (readRow parse)).zipIdx

def walkRows : Option (Text × Nat) → Nat → List (Row × Nat) → List (Pair × Nat)
  | _, _, [] => []
  | _, totalChars, (.user text, n) :: rest => walkRows (text.map (·, n)) totalChars rest
  | pending, totalChars, (.assistant text, _) :: rest =>
    if trim (text.getD []) = [] then walkRows pending totalChars rest
    else match pending with
      | none => walkRows none totalChars rest
      | some (prompt, n) =>
        let pair := buildCappedPair prompt (text.getD [])
        if trim prompt = [] then walkRows none totalChars rest
        else if totalChars + pair.chars > totalMaxChars then []
        else (pair, n) :: walkRows none (totalChars + pair.chars) rest
  | pending, totalChars, (.other, _) :: rest => walkRows pending totalChars rest

def minedRows (maxPairs : Nat) (rows : List (Row × Nat)) : List (Pair × Nat) :=
  latest maxPairs (walkRows none 0 rows)

theorem walk_eq_walkRows (parse : Text → Option Json) (lines : List Text) (k : Nat)
    (pending : Option (Text × Nat)) (pairs : List Pair) (total : Nat) :
    walk parse (pending.map Prod.fst) pairs total lines = pairs ++
      (walkRows pending total ((lines.map (readRow parse)).zipIdx k)).map Prod.fst := by
  induction lines generalizing k pending pairs total with
  | nil => simp [walk, walkRows]
  | cons line rest ih =>
    rw [List.map_cons, List.zipIdx_cons]
    have hskip := ih (k + 1) pending pairs total
    by_cases hblank : trim line = []
    · rw [show readRow parse line = .other by rw [readRow, if_pos hblank], walk, if_pos hblank]
      exact hskip
    rw [walk, if_neg hblank, readRow, if_neg hblank]
    cases parse (trim line) with
    | none => exact hskip
    | some value =>
      dsimp only
      cases rowRole value with
      | none => exact hskip
      | some role =>
        cases role with
        | user =>
          have hprompt := ih (k + 1) ((extractTextContent value).map (·, k)) pairs total
          rw [Option.map_map] at hprompt
          simpa only [walkRows, Function.comp_def, Option.map_id'] using hprompt
        | assistant =>
          simp only [walkRows]
          by_cases hanswer : trim ((extractTextContent value).getD []) = []
          · rw [if_pos hanswer, if_pos hanswer]
            exact hskip
          rw [if_neg hanswer, if_neg hanswer]
          cases pending with
          | none => exact hskip
          | some waiting =>
            obtain ⟨prompt, n⟩ := waiting
            have hnone := ih (k + 1) none
            dsimp only [Option.map_some, Option.map_none] at hnone ⊢
            split
            · exact hnone pairs total
            split
            · rw [List.map_nil, List.append_nil]
            · rw [hnone, List.map_cons, List.append_assoc, List.singleton_append]

theorem extractRecentSessionPairs_eq (parse : Text → Option Json) (body : Text) (maxPairs : Nat) :
    extractRecentSessionPairs parse body maxPairs =
      (minedRows maxPairs (numberedRows parse body)).map Prod.fst := by
  have hwalk : walk parse none [] 0 (Text.lines body) =
      (walkRows none 0 (numberedRows parse body)).map Prod.fst :=
    walk_eq_walkRows parse (Text.lines body) 0 none [] 0
  unfold extractRecentSessionPairs
  split
  next hzero => rw [minedRows, latest, hzero, Nat.sub_zero, List.drop_length, List.map_nil]
  next => rw [extractFromClaudeCode, hwalk, minedRows, ← latest_map, latest]

/-! ## The conversation -/

/-- What the assistant first says to a prompt, before the next one, and whether a row of the user
without text stands in between. -/
def reply : List (Row × Nat) → Option (Text × Bool)
  | [] => none
  | (.user (some _), _) :: _ => none
  | (.user none, _) :: rest => (reply rest).map fun answer => (answer.1, true)
  | (.assistant text, _) :: rest =>
    if trim (text.getD []) = [] then reply rest else some (text.getD [], false)
  | (.other, _) :: rest => reply rest

structure Exchange where
  pair : Pair
  row : Nat
  interrupted : Bool

def Exchange.numbered (exchange : Exchange) : Pair × Nat := (exchange.pair, exchange.row)

def promptExchange (prompt : Text) (n : Nat) (rest : List (Row × Nat)) : Option Exchange :=
  if trim prompt = [] then none
  else (reply rest).map fun answer => ⟨buildCappedPair prompt answer.1, n, answer.2⟩

/-- The prompts that say something, each with its answer, in order. -/
def exchanges : List (Row × Nat) → List Exchange
  | [] => []
  | (.user (some prompt), n) :: rest => (promptExchange prompt n rest).toList ++ exchanges rest
  | _ :: rest => exchanges rest

def conversation (rows : List (Row × Nat)) : List (Pair × Nat) :=
  (exchanges rows).map Exchange.numbered

def totalChars (pairs : List (Pair × Nat)) : Nat := (pairs.map fun pair => pair.1.chars).sum

def affordable : Nat → List (Pair × Nat) → List (Pair × Nat)
  | _, [] => []
  | spent, pair :: rest =>
    if spent + pair.1.chars > totalMaxChars then []
    else pair :: affordable (spent + pair.1.chars) rest

def heard (rows : List (Row × Nat)) : List (Pair × Nat) :=
  ((exchanges rows).filter (!·.interrupted)).map Exchange.numbered

def pendingPair (pending : Option (Text × Nat)) (rest : List (Row × Nat)) : List (Pair × Nat) :=
  ((pending.bind fun waiting => promptExchange waiting.1 waiting.2 rest).toList.filter
    (!·.interrupted)).map Exchange.numbered

theorem walkRows_eq (rows : List (Row × Nat)) (pending : Option (Text × Nat)) (spent : Nat) :
    walkRows pending spent rows = affordable spent (pendingPair pending rows ++ heard rows) := by
  induction rows generalizing pending spent with
  | nil =>
    cases pending with
    | none => rfl
    | some waiting => simp [walkRows, pendingPair, promptExchange, reply, heard, exchanges,
        affordable]
  | cons row rest ih =>
    obtain ⟨row, n⟩ := row
    cases row with
    | other =>
      rw [walkRows, ih]
      rfl
    | user text =>
      rw [walkRows, ih]
      congr 1
      cases text with
      | none =>
        -- The prompt that waited is forgotten.
        cases pending with
        | none => rfl
        | some waiting =>
          have hlost : pendingPair (some waiting) ((.user none, n) :: rest) = [] := by
            simp only [pendingPair, promptExchange, reply, Option.bind_some]
            split
            · rfl
            · cases reply rest <;> rfl
          rw [hlost]
          rfl
      | some prompt =>
        have hforgotten : pendingPair pending ((.user (some prompt), n) :: rest) = [] := by
          cases pending with
          | none => rfl
          | some waiting =>
            simp only [pendingPair, promptExchange, reply, Option.bind_some]
            split <;> rfl
        rw [hforgotten, List.nil_append]
        simp only [heard, exchanges, List.filter_append, List.map_append, pendingPair,
          Option.map_some, Option.bind_some]
    | assistant text =>
      have hrest : heard ((.assistant text, n) :: rest) = heard rest := rfl
      rw [hrest]
      by_cases hanswer : trim (text.getD []) = []
      · simp only [walkRows, if_pos hanswer, ih, pendingPair, promptExchange, reply]
      cases pending with
      | none =>
        simp only [walkRows, if_neg hanswer]
        exact ih none spent
      | some waiting =>
        obtain ⟨prompt, m⟩ := waiting
        simp only [walkRows, if_neg hanswer]
        by_cases hprompt : trim prompt = []
        · rw [if_pos hprompt, ih]
          simp [pendingPair, promptExchange, hprompt]
        · rw [if_neg hprompt, ih]
          simp [pendingPair, promptExchange, reply, hprompt, hanswer, affordable, Exchange.numbered]

theorem affordable_prefix (pairs : List (Pair × Nat)) (spent : Nat) :
    affordable spent pairs <+: pairs := by
  induction pairs generalizing spent with
  | nil => exact List.prefix_refl []
  | cons pair rest ih =>
    rw [affordable]
    split
    · exact List.nil_prefix
    · exact List.cons_prefix_cons.mpr ⟨rfl, ih _⟩

theorem affordable_of_le (pairs : List (Pair × Nat)) {spent : Nat}
    (hle : spent + totalChars pairs ≤ totalMaxChars) : affordable spent pairs = pairs := by
  induction pairs generalizing spent with
  | nil => rfl
  | cons pair rest ih =>
    rw [totalChars, List.map_cons, List.sum_cons, ← totalChars] at hle
    rw [affordable, if_neg (by omega), ih (by omega)]

theorem totalChars_affordable (pairs : List (Pair × Nat)) {spent : Nat}
    (hspent : spent ≤ totalMaxChars) :
    spent + totalChars (affordable spent pairs) ≤ totalMaxChars := by
  induction pairs generalizing spent with
  | nil => exact hspent
  | cons pair rest ih =>
    rw [affordable]
    split
    · exact hspent
    next hfits =>
      rw [totalChars, List.map_cons, List.sum_cons, ← totalChars, ← Nat.add_assoc]
      exact ih (by omega)

theorem totalChars_le_of_sublist {left right : List (Pair × Nat)} (hsub : left.Sublist right) :
    totalChars left ≤ totalChars right := by
  induction hsub with
  | slnil => exact Nat.le_refl _
  | cons pair _ ih =>
    rw [totalChars, totalChars, List.map_cons, List.sum_cons]
    exact Nat.le_trans ih (Nat.le_add_left _ _)
  | cons_cons pair _ ih =>
    rw [totalChars, totalChars, List.map_cons, List.sum_cons, List.map_cons, List.sum_cons]
    exact Nat.add_le_add_left ih _

theorem chars_buildCappedPair (prompt answer : Text) :
    (buildCappedPair prompt answer).chars ≤ pairMaxChars := by
  have hcap : 0 < pairMaxChars / 2 := by decide
  have hprompt := length_truncateChars (trim prompt) hcap
  have hanswer := length_truncateChars (trim answer) hcap
  have hboth : pairMaxChars / 2 + pairMaxChars / 2 = pairMaxChars := by decide
  exact hboth ▸ Nat.add_le_add hprompt hanswer

theorem mem_exchanges {rows : List (Row × Nat)} {exchange : Exchange}
    (hmem : exchange ∈ exchanges rows) : exchange.pair.chars ≤ pairMaxChars := by
  induction rows with
  | nil => contradiction
  | cons row rest ih =>
    obtain ⟨row, n⟩ := row
    rcases row with (_ | prompt) | _ | _
    · exact ih hmem
    · rcases List.mem_append.mp hmem with hhere | hlater
      · rw [Option.mem_toList, promptExchange] at hhere
        split at hhere
        · contradiction
        · obtain ⟨answer, _, rfl⟩ := Option.map_eq_some_iff.mp hhere
          exact chars_buildCappedPair _ _
      · exact ih hlater
    · exact ih hmem
    · exact ih hmem

/-! ## Rows without text -/

structure Calmer (before after : Exchange) : Prop where
  pair : after.pair = before.pair
  row : after.row = before.row
  interrupted : after.interrupted = true → before.interrupted = true

section

variable {keep : Nat → Bool} {rows : List (Row × Nat)}

def OnlyTextless (keep : Nat → Bool) (rows : List (Row × Nat)) : Prop :=
  ∀ row ∈ rows, keep row.2 = false → row.1.textless = true

def keptRows (keep : Nat → Bool) (rows : List (Row × Nat)) : List (Row × Nat) :=
  rows.filter fun row => keep row.2

theorem keptRows_cons (row : Row × Nat) (rest : List (Row × Nat)) : keptRows keep (row :: rest) =
      if keep row.2 = true then row :: keptRows keep rest else keptRows keep rest :=
  List.filter_cons

theorem reply_keptRows (hkeep : OnlyTextless keep rows) :
    Option.Rel (fun before after => after.1 = before.1 ∧ (after.2 = true → before.2 = true))
      (reply rows) (reply (keptRows keep rows)) := by
  induction rows with
  | nil => exact .none
  | cons row rest ih =>
    have hrest := ih fun other hother => hkeep other (.tail _ hother)
    have hrow := hkeep row (.head _ ..)
    obtain ⟨row, n⟩ := row
    rw [keptRows_cons]
    rcases row with (_ | prompt) | (_ | text) | _
    · -- Without the row its interruption may be gone.
      rw [reply]
      split
      · rw [reply]
        revert hrest
        cases reply rest <;> cases reply (keptRows keep rest) <;> rintro ⟨⟩
        · exact .none
        next hsame => exact .some ⟨hsame.1, fun _ => rfl⟩
      · revert hrest
        cases reply rest <;> cases reply (keptRows keep rest) <;> rintro ⟨⟩
        · exact .none
        next hsame => exact .some ⟨hsame.1, fun _ => rfl⟩
    · split
      · exact .none
      next hdropped => exact absurd (hrow (by simpa using hdropped)) Bool.false_ne_true
    · split <;> exact hrest
    · split
      · rw [reply, reply]
        split
        · exact hrest
        · exact .some ⟨rfl, id⟩
      next hdropped => exact absurd (hrow (by simpa using hdropped)) Bool.false_ne_true
    · split <;> exact hrest

theorem calmer_keptRows (hkeep : OnlyTextless keep rows) :
    List.Forall₂ Calmer (exchanges rows) (exchanges (keptRows keep rows)) := by
  induction rows with
  | nil => exact .nil
  | cons row rest ih =>
    have hkeepRest : OnlyTextless keep rest :=
      fun other hother => hkeep other (.tail _ hother)
    have hrest := ih hkeepRest
    have hrow := hkeep row (.head _ ..)
    obtain ⟨row, n⟩ := row
    rw [keptRows_cons]
    rcases row with (_ | prompt) | text | _
    · split <;> exact hrest
    · have hkept : keep n = true := by
        by_contra hdropped
        exact absurd (hrow (by simpa using hdropped)) Bool.false_ne_true
      rw [if_pos hkept, exchanges, exchanges]
      refine List.rel_append ?_ hrest
      have hreply := reply_keptRows hkeepRest
      rw [promptExchange, promptExchange]
      split
      · exact .nil
      · revert hreply
        cases reply rest <;> cases reply (keptRows keep rest) <;> rintro ⟨⟩
        · exact .nil
        next hsame =>
          refine .cons ⟨?_, rfl, hsame.2⟩ .nil
          dsimp only
          rw [hsame.1]
    · split <;> exact hrest
    · split <;> exact hrest

end

theorem numbered_of_calmer {before after : List Exchange}
    (hcalmer : List.Forall₂ Calmer before after) :
    after.map Exchange.numbered = before.map Exchange.numbered := by
  induction hcalmer with
  | nil => rfl
  | cons hhead _ ih => rw [List.map_cons, List.map_cons, ih, Exchange.numbered, Exchange.numbered,
      hhead.pair, hhead.row]

theorem calm_of_calmer {before after : List Exchange} (hcalmer : List.Forall₂ Calmer before after)
    (hcalm : ∀ exchange ∈ before, exchange.interrupted = false) :
    ∀ exchange ∈ after, exchange.interrupted = false := by
  induction hcalmer with
  | nil => exact hcalm
  | @cons first second _ _ hhead _ ih =>
    rw [List.forall_mem_cons] at hcalm ⊢
    refine ⟨?_, ih hcalm.2⟩
    by_contra hcut
    rw [hhead.interrupted (by simpa using hcut)] at hcalm
    exact absurd hcalm.1 (by decide)

theorem calm_of_spoken {rows : List (Row × Nat)} (hspoken : ∀ row ∈ rows, row.1 ≠ .user none) :
    ∀ exchange ∈ exchanges rows, exchange.interrupted = false := by
  have hreply : ∀ rest : List (Row × Nat), (∀ row ∈ rest, row.1 ≠ .user none) →
      ∀ answer, reply rest = some answer → answer.2 = false := by
    intro rest hrest
    induction rest with
    | nil => exact fun _ hnone => absurd hnone (by simp [reply])
    | cons row rest ih =>
      rw [List.forall_mem_cons] at hrest
      obtain ⟨row, n⟩ := row
      intro answer hanswer
      rcases row with (_ | prompt) | text | _
      · exact absurd rfl hrest.1
      · rw [reply] at hanswer
        contradiction
      · rw [reply] at hanswer
        split at hanswer
        · exact ih hrest.2 answer hanswer
        · rw [← Option.some.inj hanswer]
      · exact ih hrest.2 answer hanswer
  induction rows with
  | nil => exact fun _ hmem => absurd hmem List.not_mem_nil
  | cons row rest ih =>
    rw [List.forall_mem_cons] at hspoken
    obtain ⟨row, n⟩ := row
    rcases row with (_ | prompt) | _ | _
    · exact absurd rfl hspoken.1
    · intro exchange hmem
      rcases List.mem_append.mp hmem with hhere | hlater
      · rw [Option.mem_toList, promptExchange] at hhere
        split at hhere
        · contradiction
        · obtain ⟨answer, hanswer, rfl⟩ := Option.map_eq_some_iff.mp hhere
          exact hreply rest hspoken.2 answer hanswer
      · exact ih hspoken.2 exchange hlater
    · exact ih hspoken.2
    · exact ih hspoken.2

theorem rows_exchanges_sublist (rows : List (Row × Nat)) :
    ((exchanges rows).map Exchange.row).Sublist (rows.map Prod.snd) := by
  induction rows with
  | nil => exact List.Sublist.refl []
  | cons row rest ih =>
    obtain ⟨row, n⟩ := row
    rcases row with (_ | prompt) | _ | _
    · exact ih.cons _
    · rw [exchanges, List.map_append, List.map_cons, ← List.singleton_append]
      refine List.Sublist.append ?_ ih
      rw [promptExchange]
      split
      · exact List.nil_sublist _
      · cases reply rest with
        | none => exact List.nil_sublist _
        | some answer => exact List.Sublist.refl [n]
    · exact ih.cons _
    · exact ih.cons _

/-! ## Which transcripts are extracted well -/

/-- The pairs are the longest end of the conversation that keeps both limits, and rows without
text make no difference. -/
structure RecentConversation (maxPairs : Nat) (rows : List (Row × Nat)) : Prop where
  silent : ∀ keep, OnlyTextless keep rows →
    minedRows maxPairs (keptRows keep rows) = minedRows maxPairs rows
  suffix : minedRows maxPairs rows <:+ conversation rows
  few : (minedRows maxPairs rows).length ≤ maxPairs
  within : totalChars (minedRows maxPairs rows) ≤ totalMaxChars
  longest : ∀ other, other <:+ conversation rows → other.length ≤ maxPairs →
    totalChars other ≤ totalMaxChars → other.length ≤ (minedRows maxPairs rows).length

/-- The whole conversation is within the budget, and no row of the user without text stands
between a prompt and its answer in the window that is returned. -/
structure Undisturbed (maxPairs : Nat) (rows : List (Row × Nat)) : Prop where
  total : totalChars (conversation rows) ≤ totalMaxChars
  calm : ∀ exchange ∈ latest maxPairs (exchanges rows), exchange.interrupted = false

section

variable {maxPairs : Nat} {rows : List (Row × Nat)}

theorem minedRows_eq (maxPairs : Nat) (rows : List (Row × Nat)) :
    minedRows maxPairs rows = latest maxPairs (affordable 0 (heard rows)) :=
  congrArg (latest maxPairs) (walkRows_eq rows none 0)

theorem heard_sublist (rows : List (Row × Nat)) : (heard rows).Sublist (conversation rows) :=
  List.filter_sublist.map _

theorem length_minedRows_le : (minedRows maxPairs rows).length ≤ maxPairs := by
  rw [minedRows, length_latest]
  exact Nat.min_le_left _ _

theorem totalChars_minedRows_le : totalChars (minedRows maxPairs rows) ≤ totalMaxChars := by
  have hspent := totalChars_affordable (heard rows) (Nat.zero_le totalMaxChars)
  rw [Nat.zero_add] at hspent
  rw [minedRows_eq]
  exact Nat.le_trans (totalChars_le_of_sublist (latest_suffix _ _).sublist) hspent

theorem minedRows_of_total (htotal : totalChars (conversation rows) ≤ totalMaxChars) :
    minedRows maxPairs rows = latest maxPairs (heard rows) := by
  have hheard := totalChars_le_of_sublist (heard_sublist rows)
  rw [minedRows_eq, affordable_of_le _ (by omega)]

theorem Undisturbed.minedRows_eq (hrows : Undisturbed maxPairs rows) :
    minedRows maxPairs rows = latest maxPairs (conversation rows) := by
  rw [minedRows_of_total hrows.total, heard, conversation, latest_map, latest_map,
    latest_filter fun exchange hmem => by rw [hrows.calm exchange hmem, Bool.not_false]]

theorem Undisturbed.kept (hrows : Undisturbed maxPairs rows) {keep : Nat → Bool}
    (hkeep : OnlyTextless keep rows) : Undisturbed maxPairs (keptRows keep rows) where
  total := by
    rw [conversation, numbered_of_calmer (calmer_keptRows hkeep)]
    exact hrows.total
  calm := by
    have hcalmer := calmer_keptRows hkeep
    rw [latest, ← hcalmer.length_eq]
    exact calm_of_calmer (List.forall₂_drop _ hcalmer) hrows.calm

theorem recentConversation_of_undisturbed (hrows : Undisturbed maxPairs rows) :
    RecentConversation maxPairs rows where
  silent keep hkeep := by
    rw [hrows.minedRows_eq, (hrows.kept hkeep).minedRows_eq, conversation, conversation,
      numbered_of_calmer (calmer_keptRows hkeep)]
  suffix := by
    rw [hrows.minedRows_eq]
    exact latest_suffix _ _
  few := length_minedRows_le
  within := totalChars_minedRows_le
  longest other hother hfew _ := by
    rw [hrows.minedRows_eq, length_latest]
    exact Nat.le_min.mpr ⟨hfew, hother.length_le⟩

theorem recentConversation_zero (rows : List (Row × Nat)) : RecentConversation 0 rows := by
  have hnone : ∀ rows, minedRows 0 rows = [] := fun rows => by
    rw [minedRows, latest, Nat.sub_zero, List.drop_length]
  refine ⟨fun keep _ => ?_, ?_, length_minedRows_le, totalChars_minedRows_le,
    fun other _ hfew _ => ?_⟩
  · rw [hnone, hnone]
  · rw [hnone]
    exact List.nil_suffix
  · rw [hnone]
    exact hfew

def spoken (rows : List (Row × Nat)) (n : Nat) : Bool :=
  !rows.any fun row => row.2 = n && row.1.textless

theorem onlyTextless_spoken (hrows : (rows.map Prod.snd).Nodup) :
    OnlyTextless (spoken rows) rows := by
  intro row hrow hdropped
  rw [spoken, Bool.not_eq_false', List.any_eq_true] at hdropped
  obtain ⟨other, hother, hsame⟩ := hdropped
  rw [Bool.and_eq_true, decide_eq_true_iff] at hsame
  rw [← List.inj_on_of_nodup_map hrows hother hrow hsame.1]
  exact hsame.2

theorem spoken_keptRows : ∀ row ∈ keptRows (spoken rows) rows, row.1 ≠ .user none := by
  intro row hrow htextless
  obtain ⟨hmem, hspoken⟩ := List.mem_filter.mp hrow
  rw [spoken, Bool.not_eq_true', List.any_eq_false] at hspoken
  have hnot := hspoken row hmem
  rw [htextless] at hnot
  exact hnot (by simp [Row.textless])

theorem conversation_nodup (hrows : (rows.map Prod.snd).Nodup) : (conversation rows).Nodup := by
  refine List.Nodup.of_map Prod.snd ?_
  rw [conversation, List.map_map]
  exact (rows_exchanges_sublist rows).nodup hrows

theorem RecentConversation.total_le (hrecent : RecentConversation maxPairs rows)
    (hpairs : maxPairs ≠ 0) (hrows : (rows.map Prod.snd).Nodup) :
    totalChars (conversation rows) ≤ totalMaxChars := by
  by_contra hover
  have hkeep := onlyTextless_spoken hrows
  have hsame : conversation (keptRows (spoken rows) rows) = conversation rows :=
    numbered_of_calmer (calmer_keptRows hkeep)
  have hheard : heard (keptRows (spoken rows) rows) = conversation rows := by
    rw [heard, List.filter_eq_self.mpr fun exchange hmem => by
      rw [calm_of_spoken spoken_keptRows exchange hmem, Bool.not_false]]
    exact hsame
  have hmined : minedRows maxPairs rows = latest maxPairs (affordable 0 (conversation rows)) := by
    rw [← hrecent.silent _ hkeep, SessionMine.minedRows_eq, hheard]
  -- The conversation ends in a pair that fits alone, and so it would be returned.
  rcases List.eq_nil_or_concat (conversation rows) with hnil | ⟨front, last, hconcat⟩
  · rw [hnil] at hover
    exact hover (Nat.zero_le _)
  rw [List.concat_eq_append] at hconcat
  have hlast : last ∈ minedRows maxPairs rows := by
    have hmem : last ∈ conversation rows := hconcat ▸ List.mem_append_right _ (.head _)
    obtain ⟨exchange, hexchange, rfl⟩ := List.mem_map.mp hmem
    have hcost : totalChars [exchange.numbered] ≤ totalMaxChars :=
      Nat.le_trans (mem_exchanges hexchange) (by decide)
    have hlong := hrecent.longest [exchange.numbered] ⟨front, hconcat.symm⟩
      (Nat.one_le_iff_ne_zero.mpr hpairs) hcost
    obtain ⟨back, hback⟩ := hrecent.suffix
    have hne : minedRows maxPairs rows ≠ [] := fun hnil => by
      rw [hnil] at hlong
      exact absurd hlong (by simp)
    have hends := congrArg List.getLast? (hback.trans hconcat)
    rw [List.getLast?_append_of_ne_nil _ hne, List.getLast?_concat] at hends
    exact List.mem_of_getLast? hends
  rw [hmined] at hlast
  have hspent : last ∈ affordable 0 (conversation rows) := (latest_suffix _ _).subset hlast
  obtain ⟨tail, htail⟩ := affordable_prefix (conversation rows) 0
  have hnodup := conversation_nodup hrows
  rcases List.eq_nil_or_concat tail with hnil | ⟨middle, final, hfinal⟩
  · have hwhole := totalChars_affordable (conversation rows) (Nat.zero_le totalMaxChars)
    rw [hnil, List.append_nil] at htail
    rw [htail, Nat.zero_add] at hwhole
    exact hover hwhole
  · rw [List.concat_eq_append] at hfinal
    have hends := congrArg List.getLast? (htail.trans hconcat)
    rw [hfinal, ← List.append_assoc, List.getLast?_concat, List.getLast?_concat,
      Option.some.injEq] at hends
    rw [← htail, hfinal, hends] at hnodup
    exact List.disjoint_of_nodup_append hnodup hspent
      (List.mem_append_right _ (.head _))

theorem RecentConversation.undisturbed (hrecent : RecentConversation maxPairs rows)
    (hpairs : maxPairs ≠ 0) (hrows : (rows.map Prod.snd).Nodup) : Undisturbed maxPairs rows := by
  have htotal := hrecent.total_le hpairs hrows
  refine ⟨htotal, fun exchange hmem => ?_⟩
  have hwindow : minedRows maxPairs rows = latest maxPairs (conversation rows) := by
    have hcost := totalChars_le_of_sublist (latest_suffix maxPairs (conversation rows)).sublist
    have hlong := hrecent.longest _ (latest_suffix maxPairs (conversation rows))
      (by rw [length_latest]; exact Nat.min_le_left _ _) (Nat.le_trans hcost htotal)
    apply eq_latest_of_suffix hrecent.suffix
    rw [length_latest] at hlong
    exact Nat.le_antisymm (Nat.le_min.mpr ⟨hrecent.few, hrecent.suffix.length_le⟩) hlong
  rw [minedRows_of_total htotal, conversation, latest_map] at hwindow
  have hnumbered : exchange.numbered ∈ heard rows := by
    apply (latest_suffix maxPairs _).subset
    rw [hwindow]
    exact List.mem_map_of_mem hmem
  obtain ⟨other, hother, hsame⟩ := List.mem_map.mp hnumbered
  obtain ⟨hexchange, hcalm⟩ := List.mem_filter.mp hother
  have hinj := List.inj_on_of_nodup_map ((rows_exchanges_sublist rows).nodup hrows) hexchange
    ((latest_suffix maxPairs _).subset hmem) (congrArg Prod.snd hsame)
  rw [← hinj]
  simpa using hcalm

end

theorem numberedRows_nodup (parse : Text → Option Json) (body : Text) :
    ((numberedRows parse body).map Prod.snd).Nodup := by
  rw [numberedRows, List.zipIdx_map_snd]
  exact List.nodup_range'

/-- The extraction returns the recent conversation exactly when it is undisturbed. -/
theorem recent_conversation_iff (parse : Text → Option Json) (body : Text) (maxPairs : Nat) :
    extractRecentSessionPairs parse body maxPairs =
        (minedRows maxPairs (numberedRows parse body)).map Prod.fst ∧
      (RecentConversation maxPairs (numberedRows parse body) ↔
        maxPairs = 0 ∨ Undisturbed maxPairs (numberedRows parse body)) := by
  refine ⟨extractRecentSessionPairs_eq parse body maxPairs, fun hrecent => ?_, ?_⟩
  · rw [or_iff_not_imp_left]
    exact fun hpairs => hrecent.undisturbed hpairs (numberedRows_nodup parse body)
  · intro hcondition
    rcases hcondition with rfl | hrows
    · exact recentConversation_zero _
    · exact recentConversation_of_undisturbed hrows

def messageRow (role : String) (parts : List (String × String)) : Json :=
  .object [("message", .object
    [("content", .array (parts.map fun part => .object
      [("text", .string part.2.toList), ("type", .string part.1.toList)])),
      ("role", .string role.toList)])]

def sampleTranscript (line : Text) : Option Json :=
  if line = ['p'] then some (messageRow "user" [("text", "fix it")])
  else if line = ['r'] then some (messageRow "user" [("tool_result", "3 files")])
  else if line = ['a'] then some (messageRow "assistant" [("text", "done")])
  else none

/-- The result of a tool before the answer takes the pair away. -/
theorem tool_result_loses_pair : extractRecentSessionPairs sampleTranscript "p\nr\na" 10 = [] ∧
      extractRecentSessionPairs sampleTranscript "p\na" 10 = [⟨"fix it", "done"⟩] ∧
      ¬ RecentConversation 10 (numberedRows sampleTranscript "p\nr\na") := by
  refine ⟨by decide +kernel, by decide +kernel, fun hrecent => ?_⟩
  have hlong := hrecent.longest [(⟨"fix it", "done"⟩, 0)]
    (by decide +kernel) (by decide) (by decide +kernel)
  exact absurd hlong (by decide +kernel)

end Difflore.SessionMine

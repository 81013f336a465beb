import Difflore.Foundation.JsonText
import Difflore.SessionMine.Extract

/-! # The gate of the session miner

The prompt lists the rules there are, the recent pairs that fit, and the contract for the answer.
The answer is the first object in what an agent prints, with or without a fence and prose.
-/

namespace Difflore.SessionMine.Gate

open Foundation Text

/-! ## The prompt -/

def gatePromptPreamble : Text := "You are a code-review-rules librarian."

def promptMaxChars : Nat := 30000

def maxExistingRulesInPrompt : Nat := 24

structure ExistingRule where
  ruleId : Text
  title : Text
  bodySnippet : Text
  filePatterns : List Text
  sourceRepo : Option Text

inductive GateMode
  | session
  | correction
  | manualLearn
  | recipe

def truncateChars (s : Text) (maxChars : Nat) : Text :=
  if maxChars = 0 then [] else SessionMine.truncateChars s maxChars

namespace GateMode

def openingSentence : GateMode → Text
  | .session =>
    "Decide whether the following short session contains a reusable, transferable " ++
      "rule about how to write code in this team's repo."
  | .correction =>
    "Decide whether the user's correction reveals a reusable, transferable rule " ++
      "about how future code should be written in this team's repo."
  | .manualLearn =>
    "Decide whether this user-requested learning capture contains a reusable, " ++
      "transferable rule about how future code should be written in this team's repo."
  | .recipe =>
    "Decide whether this session contains a reusable local operation recipe: " ++
      ("repeatable steps, commands, checks, or repo workflow that future agents " ++
        "should follow.")

def sessionLabel : GateMode → Text
  | .session => "SESSION (prompt + final assistant text only — tool calls stripped):"
  | .correction => "CORRECTION EVENT (assistant action followed by user correction):"
  | .manualLearn => "USER-REQUESTED LEARNING WINDOW:"
  | .recipe => "LOCAL OPERATION RECIPE WINDOW:"

def extraInstruction : GateMode → Option Text
  | .session => none
  | .correction => some
      ("For correction events, rewrite past-incident phrasing into a forward-looking " ++
        ("rule. Prefer \"Future code should...\" over \"The assistant just...\". KEEP " ++
          ("only when the correction is durable and repo-relevant; SKIP one-off " ++
            "preferences or transient frustration.")))
  | .manualLearn => some
      ("This was explicitly triggered by the user. Still deduplicate and SKIP obvious " ++
        ("or one-off notes, but preserve durable user-provided constraints as " ++
          "forward-looking rules."))
  | .recipe => some
      ("For recipe mining, KEEP only repeatable local workflow knowledge: commands, " ++
        ("verification steps, deployment/release chores, repo setup, or operational " ++
          ("sequences. Write the body as a short recipe with steps. SKIP coding style " ++
            "rules, one-off debugging details, and user corrections.")))

def renderPair (mode : GateMode) (pair : Pair) : Text :=
  match mode with
  | .correction => "ASSISTANT_ACTION: " ++ (trim pair.assistantText ++
      ("\nUSER_CORRECTION: " ++ (trim pair.userPrompt ++ ['\n'])))
  | .session | .manualLearn | .recipe => "USER: " ++ (trim pair.userPrompt ++
      ("\nASSISTANT: " ++ (trim pair.assistantText ++ ['\n'])))

end GateMode

def digest (rule : ExistingRule) : Text :=
  let snippetShort := truncateChars (trim rule.bodySnippet) 200
  let title := truncateChars (trim rule.title) 120
  let sourceRepo := ((rule.sourceRepo.map trim).filter (· ≠ [])).elim [] fun repo =>
    " [source_repo: ".toList ++ (repo ++ [']'])
  let filePatterns := if rule.filePatterns = [] then []
    else " [file_patterns: ".toList ++ ([',', ' '].intercalate rule.filePatterns ++ [']'])
  let snippet := if snippetShort = [] then [] else " — ".toList ++ snippetShort
  "- ".toList ++ (trim rule.ruleId ++ (": ".toList ++ (title ++ (sourceRepo ++
    (filePatterns ++ (snippet ++ ['\n']))))))

def header (mode : GateMode) (existingRules : List ExistingRule) : Text :=
  gatePromptPreamble ++ (' ' :: (mode.openingSentence ++ ("\n\n".toList ++
    ("EXISTING RULES (do not duplicate):\n".toList ++
      ((if existingRules = [] then "- (none yet)\n".toList
        else (existingRules.take maxExistingRulesInPrompt).flatMap digest) ++ ['\n'])))))

def contractText : Text :=
  "DECISION CRITERIA:\n- KEEP if the activity contains a non-obvious, reusable rule " ++
    ("(file_pattern + behavior).\n- MERGE <existing-id> if it strengthens or refines " ++
    ("an existing rule.\n- SKIP if it's one-off / generic / obvious / already covered.\n" ++
    ("\nRESPOND WITH STRICT JSON (no prose, no markdown fence):\n\x7b \"verdict\": " ++
    ("\"KEEP\" | \"MERGE\" | \"SKIP\",\n\"rule_id\": \"<existing id if MERGE, else " ++
    ("null>\",\n\"title\": \"<≤120 chars, only if KEEP/MERGE>\",\n\"body\": \"<≤2000 " ++
    ("chars rule body, only if KEEP/MERGE>\",\n\"file_patterns\": [\"<glob1>\", \"...\"],\n" ++
    "\"reason\": \"<short justification, only if SKIP>\" \x7d"))))))

def decisionContract : Text := contractText ++ ['\n']

def fitting (bodyBudget : Nat) : List Text → List Text
  | [] => []
  | rendered :: rest =>
    if ((rendered :: rest).map List.length).sum ≤ bodyBudget then rendered :: rest
    else fitting bodyBudget rest

def bodyBudget (mode : GateMode) (existingRules : List ExistingRule) : Nat :=
  promptMaxChars - ((header mode existingRules).length + 1200)

def sessionBlock (mode : GateMode) (budget : Nat) (pairs : List Pair) : Text :=
  let renderedPairs := fitting budget (pairs.map mode.renderPair)
  if renderedPairs = [] then pairs.getLast?.elim [] fun last =>
    truncateChars (mode.renderPair last) budget
  else renderedPairs.flatten

def footer (mode : GateMode) : Text :=
  '\n' :: (mode.extraInstruction.elim [] (· ++ "\n\n".toList) ++ decisionContract)

def assembled (mode : GateMode) (existingRules : List ExistingRule) (session : Text) : Text :=
  header mode existingRules ++ (mode.sessionLabel ++ ('\n' :: (session ++ footer mode)))

def buildPromptWithMode (pairs : List Pair) (existingRules : List ExistingRule) (mode : GateMode) :
    Text :=
  let out := assembled mode existingRules
    (sessionBlock mode (bodyBudget mode existingRules) pairs)
  if out.length > promptMaxChars then truncateChars out promptMaxChars else out

/-- The longest end of the rendered pairs that fits, or a part of the last one, cut off with an
ellipsis. -/
inductive SessionBlock (budget : Nat) (rendered : List Text) : Text → Prop
  | whole (kept : List Text) (hsuffix : kept <:+ rendered) (hfits : kept.flatten.length ≤ budget)
      (hlongest : ∀ other, other <:+ rendered → other.flatten.length ≤ budget →
        other.length ≤ kept.length) (hkept : kept = [] → rendered = []) :
      SessionBlock budget rendered kept.flatten
  | cut (last front : Text) (hlast : rendered.getLast? = some last) (hlong : budget < last.length)
      (hfront : front <+: last) (hne : front ≠ []) :
      SessionBlock budget rendered (front ++ ['…'])

structure Packed (mode : GateMode) (pairs : List Pair) (existingRules : List ExistingRule)
    (prompt : Text) : Prop where
  short : prompt.length ≤ promptMaxChars
  contract : decisionContract <:+ prompt
  session : ∃ session, prompt = assembled mode existingRules session ∧
    SessionBlock (bodyBudget mode existingRules) (pairs.map mode.renderPair) session

/-- The rules leave room for two characters of the session and the footer, or for the footer if
there is no session. -/
def LeavesRoom (mode : GateMode) (pairs : List Pair) (existingRules : List ExistingRule) : Prop :=
  if pairs = [] then (assembled mode existingRules []).length ≤ promptMaxChars
  else (header mode existingRules).length + 1202 ≤ promptMaxChars

theorem length_flatten_eq (texts : List Text) :
    texts.flatten.length = (texts.map List.length).sum := List.length_flatten

theorem fitting_suffix (budget : Nat) (rendered : List Text) :
    fitting budget rendered <:+ rendered := by
  induction rendered with
  | nil => exact List.suffix_refl []
  | cons text rest ih =>
    rw [fitting]
    split
    · exact List.suffix_refl _
    · exact ih.trans (List.suffix_cons text rest)

theorem length_flatten_fitting (budget : Nat) (rendered : List Text) :
    (fitting budget rendered).flatten.length ≤ budget := by
  induction rendered with
  | nil => exact Nat.zero_le _
  | cons text rest ih =>
    rw [fitting]
    split
    next hfits => rwa [length_flatten_eq]
    next => exact ih

theorem length_le_fitting {budget : Nat} {rendered other : List Text} (hother : other <:+ rendered)
    (hfits : other.flatten.length ≤ budget) : other.length ≤ (fitting budget rendered).length := by
  induction rendered with
  | nil => rw [List.suffix_nil.mp hother]; exact Nat.zero_le _
  | cons text rest ih =>
    rw [fitting]
    split
    next => exact hother.length_le
    next hover =>
      rcases List.suffix_cons_iff.mp hother with rfl | hrest
      · exact absurd (length_flatten_eq _ ▸ hfits) hover
      · exact ih hrest

theorem length_truncateChars_le (s : Text) (maxChars : Nat) :
    (truncateChars s maxChars).length ≤ maxChars := by
  rw [truncateChars]
  split
  · exact Nat.zero_le _
  next hpos => exact length_truncateChars s (Nat.pos_of_ne_zero hpos)

theorem length_sessionBlock (mode : GateMode) (budget : Nat) (pairs : List Pair) :
    (sessionBlock mode budget pairs).length ≤ budget := by
  rw [sessionBlock]
  split
  · cases pairs.getLast? with
    | none => exact Nat.zero_le _
    | some last => exact length_truncateChars_le _ _
  · exact length_flatten_fitting _ _

theorem exists_renderPair_eq (mode : GateMode) (pair : Pair) :
    ∃ first second third rest, mode.renderPair pair = first :: second :: third :: rest ∧
      first ≠ '…' := by
  cases mode with
  | correction => exact ⟨'A', 'S', 'S', _, rfl, by decide⟩
  | session | manualLearn | recipe => exact ⟨'U', 'S', 'E', _, rfl, by decide⟩

theorem sessionBlock_of_room {mode : GateMode} {budget : Nat} (hbudget : 2 ≤ budget)
    (pairs : List Pair) :
    SessionBlock budget (pairs.map mode.renderPair) (sessionBlock mode budget pairs) := by
  rw [sessionBlock]
  split
  next hnone =>
    rcases List.eq_nil_or_concat pairs with rfl | ⟨front, last, rfl⟩
    · exact .whole [] (List.suffix_refl []) (Nat.zero_le _) (fun _ hother _ => hother.length_le)
        fun _ => rfl
    · rw [List.concat_eq_append, List.map_append, List.map_singleton] at hnone ⊢
      rw [List.getLast?_concat, Option.elim_some]
      have hlong : budget < (mode.renderPair last).length := by
        by_contra hshort
        have hfits : [mode.renderPair last].flatten.length ≤ budget := by
          rw [List.flatten_singleton]
          exact Nat.not_lt.mp hshort
        have hlength := length_le_fitting
          (List.suffix_append (front.map mode.renderPair) [mode.renderPair last]) hfits
        rw [hnone] at hlength
        exact absurd hlength (by simp)
      rw [truncateChars, if_neg (by omega), SessionMine.truncateChars, if_neg (by omega)]
      refine .cut _ _ List.getLast?_concat hlong (List.take_prefix _ _) fun hempty => ?_
      have hlength := congrArg List.length hempty
      rw [List.length_take, List.length_nil] at hlength
      omega
  next hsome =>
    exact .whole _ (fitting_suffix _ _) (length_flatten_fitting _ _)
      (fun _ hother hfits => length_le_fitting hother hfits) fun hnil => absurd hnil hsome

theorem room_of_sessionBlock {mode : GateMode} {budget : Nat} {pairs : List Pair}
    (hpairs : pairs ≠ [])
    (hsession : SessionBlock budget (pairs.map mode.renderPair) (sessionBlock mode budget pairs)) :
    2 ≤ budget := by
  by_contra hbudget
  have hshort : (sessionBlock mode budget pairs).length ≤ 1 :=
    Nat.le_trans (length_sessionBlock mode budget pairs) (by omega)
  generalize hblock : sessionBlock mode budget pairs = block at hsession hshort
  cases hsession with
  | whole kept hsuffix hfits _ hkept =>
    rcases List.eq_nil_or_concat kept with hnil | ⟨front, last, hlast⟩
    · exact hpairs (List.map_eq_nil_iff.mp (hkept hnil))
    · have hmem : last ∈ pairs.map mode.renderPair :=
        hsuffix.subset (by rw [hlast, List.concat_eq_append]; exact List.mem_concat_self)
      obtain ⟨pair, _, rfl⟩ := List.mem_map.mp hmem
      obtain ⟨first, second, third, rest, hstart, _⟩ := exists_renderPair_eq mode pair
      rw [hlast, List.concat_eq_append, List.flatten_append, List.flatten_singleton,
        List.length_append, hstart] at hfits
      simp only [List.length_cons] at hfits
      omega
  | cut last front hlast hlong hfront hne =>
    -- A part of the pair and an ellipsis are two characters.
    rw [List.length_append, List.length_singleton] at hshort
    exact hne (List.length_eq_zero_iff.mp (by omega))

/-! ## The prompt as a whole -/

theorem length_assembled (mode : GateMode) (existingRules : List ExistingRule) (session : Text) :
    (assembled mode existingRules session).length =
      (assembled mode existingRules []).length + session.length := by
  rw [assembled, assembled]
  simp only [List.length_append, List.length_cons, List.length_nil]
  omega

theorem assembled_injective {mode : GateMode} {existingRules : List ExistingRule}
    {session other : Text}
    (hsame : assembled mode existingRules session = assembled mode existingRules other) :
    session = other := by
  rw [assembled, assembled, List.append_cancel_left_eq, List.append_cancel_left_eq,
    List.cons.injEq, List.append_cancel_right_eq] at hsame
  exact hsame.2

theorem length_literal {l : List Char} {n : Nat} (hl : l.length ≤ n) :
    (String.ofList l).toList.length ≤ n := by rwa [String.toList_ofList]

theorem length_literal_append {l : List Char} {rest : Text} {n : Nat} (hl : l.length ≤ 100)
    (hrest : rest.length ≤ n) : ((String.ofList l).toList ++ rest).length ≤ 100 + n := by
  rw [List.length_append]
  exact Nat.add_le_add (length_literal hl) hrest

theorem length_contractText : contractText.length ≤ 755 :=
  length_literal_append (by decide +kernel) (length_literal_append (by decide +kernel)
    (length_literal_append (by decide +kernel) (length_literal_append (by decide +kernel)
      (length_literal_append (by decide +kernel) (length_literal_append (by decide +kernel)
        (length_literal_append (n := 55) (by decide +kernel)
          (length_literal (by decide +kernel))))))))

theorem length_sessionLabel (mode : GateMode) : mode.sessionLabel.length ≤ 67 := by
  cases mode with
  | session => exact length_literal (by decide +kernel)
  | correction => exact length_literal (by decide +kernel)
  | manualLearn => exact length_literal (by decide +kernel)
  | recipe => exact length_literal (by decide +kernel)

theorem length_extraInstruction {mode : GateMode} {extra : Text}
    (hextra : mode.extraInstruction = some extra) : extra.length ≤ 360 := by
  cases mode with
  | session => contradiction
  | correction => exact Option.some.inj hextra ▸
      length_literal_append (by decide +kernel) (length_literal_append (by decide +kernel)
        (length_literal_append (n := 60) (by decide +kernel) (length_literal (by decide +kernel))))
  | manualLearn => exact Option.some.inj hextra ▸
      length_literal_append (by decide +kernel) (length_literal_append (n := 160)
        (by decide +kernel) (length_literal (by decide +kernel)))
  | recipe => exact Option.some.inj hextra ▸
      length_literal_append (by decide +kernel) (length_literal_append (by decide +kernel)
        (length_literal_append (n := 60) (by decide +kernel) (length_literal (by decide +kernel))))

theorem length_footer_le (mode : GateMode) :
    mode.sessionLabel.length + ((footer mode).length + 1) ≤ 1200 := by
  have hlabel := length_sessionLabel mode
  have hcontract := length_contractText
  rw [footer, List.length_cons, List.length_append, decisionContract, List.length_append,
    List.length_singleton]
  cases hextra : mode.extraInstruction with
  | none =>
    rw [Option.elim_none, List.length_nil]
    omega
  | some extra =>
    have hlength := length_extraInstruction hextra
    have hgap : "\n\n".toList.length = 2 := by decide
    rw [Option.elim_some, List.length_append, hgap]
    omega

theorem contract_suffix_assembled (mode : GateMode) (existingRules : List ExistingRule)
    (session : Text) : decisionContract <:+ assembled mode existingRules session := by
  refine List.suffix_append_of_suffix (List.suffix_append_of_suffix
    ((List.suffix_append_of_suffix ?_).trans (List.suffix_cons _ _)))
  exact (List.suffix_append _ _).trans (List.suffix_cons _ _)

theorem getLast_decisionContract : decisionContract.getLast? = some '\n' := List.getLast?_concat

theorem not_contract_suffix_cut {out : Text} (hlong : promptMaxChars < out.length) :
    ¬ decisionContract <:+ truncateChars out promptMaxChars := by
  rintro ⟨front, hfront⟩
  have hcut : truncateChars out promptMaxChars = out.take (promptMaxChars - 1) ++ ['…'] := by
    rw [truncateChars, if_neg (by decide), SessionMine.truncateChars, if_neg (by omega)]
  have hne : decisionContract ≠ [] := List.concat_ne_nil _ _
  have hlast := congrArg List.getLast? (hfront.trans hcut)
  rw [List.getLast?_append_of_ne_nil _ hne, getLast_decisionContract,
    List.getLast?_concat, Option.some.injEq] at hlast
  exact absurd hlast (by decide)

section

variable {mode : GateMode} {pairs : List Pair} {existingRules : List ExistingRule}

theorem length_le_of_leavesRoom (hroom : LeavesRoom mode pairs existingRules) :
    (assembled mode existingRules
      (sessionBlock mode (bodyBudget mode existingRules) pairs)).length ≤ promptMaxChars := by
  by_cases hnone : pairs = []
  · rw [LeavesRoom, if_pos hnone] at hroom
    rw [hnone]
    exact hroom
  · rw [LeavesRoom, if_neg hnone] at hroom
    have hsession := length_sessionBlock mode (bodyBudget mode existingRules) pairs
    have hfooter := length_footer_le mode
    have hbudget : bodyBudget mode existingRules =
        promptMaxChars - ((header mode existingRules).length + 1200) := rfl
    rw [assembled]
    simp only [List.length_append, List.length_cons]
    omega

theorem packed_of_leavesRoom (hroom : LeavesRoom mode pairs existingRules) :
    Packed mode pairs existingRules (buildPromptWithMode pairs existingRules mode) := by
  have hlength := length_le_of_leavesRoom hroom
  have hprompt : buildPromptWithMode pairs existingRules mode = assembled mode existingRules
      (sessionBlock mode (bodyBudget mode existingRules) pairs) := by
    unfold buildPromptWithMode
    exact if_neg (Nat.not_lt.mpr hlength)
  rw [hprompt]
  refine ⟨hlength, contract_suffix_assembled _ _ _, _, rfl, ?_⟩
  by_cases hnone : pairs = []
  · rw [hnone]
    exact .whole [] (List.suffix_refl []) (Nat.zero_le _) (fun _ hother _ => hother.length_le)
      fun _ => rfl
  · rw [LeavesRoom, if_neg hnone] at hroom
    have hbudget : bodyBudget mode existingRules =
        promptMaxChars - ((header mode existingRules).length + 1200) := rfl
    exact sessionBlock_of_room (by omega) pairs

theorem leavesRoom_of_packed
    (hpacked : Packed mode pairs existingRules (buildPromptWithMode pairs existingRules mode)) :
    LeavesRoom mode pairs existingRules := by
  have hlength : (assembled mode existingRules
      (sessionBlock mode (bodyBudget mode existingRules) pairs)).length ≤ promptMaxChars := by
    by_contra hlong
    have hcontract := hpacked.contract
    rw [buildPromptWithMode, if_pos (Nat.not_le.mp hlong)] at hcontract
    exact not_contract_suffix_cut (Nat.not_le.mp hlong) hcontract
  have hprompt : buildPromptWithMode pairs existingRules mode = assembled mode existingRules
      (sessionBlock mode (bodyBudget mode existingRules) pairs) := by
    unfold buildPromptWithMode
    exact if_neg (Nat.not_lt.mpr hlength)
  obtain ⟨session, hsame, hsession⟩ := hpacked.session
  obtain rfl := assembled_injective (hprompt.symm.trans hsame)
  by_cases hnone : pairs = []
  · rw [LeavesRoom, if_pos hnone]
    rw [length_assembled] at hlength
    exact Nat.le_trans (Nat.le_add_right _ _) hlength
  · rw [LeavesRoom, if_neg hnone]
    have hroom := room_of_sessionBlock hnone hsession
    have hbudget : bodyBudget mode existingRules =
        promptMaxChars - ((header mode existingRules).length + 1200) := rfl
    omega

end

/-- The prompt is packed as it should be exactly when the digests of the rules leave room. -/
theorem packed_iff_leavesRoom (pairs : List Pair) (existingRules : List ExistingRule)
    (mode : GateMode) :
    Packed mode pairs existingRules (buildPromptWithMode pairs existingRules mode) ↔
      LeavesRoom mode pairs existingRules :=
  ⟨leavesRoom_of_packed, packed_of_leavesRoom⟩

def wideRule (glob : Text) : ExistingRule where
  ruleId := "r"
  title := "t"
  bodySnippet := []
  filePatterns := [glob]
  sourceRepo := none

theorem length_le_header_wideRule (mode : GateMode) (glob : Text) :
    glob.length ≤ (header mode [wideRule glob]).length := by
  have hdigest : glob.length ≤ (digest (wideRule glob)).length := by
    rw [digest, wideRule]
    simp only [List.length_append, List.length_cons, if_neg (List.cons_ne_nil glob []),
      List.intercalate_singleton]
    omega
  rw [header]
  simp only [List.length_append, List.length_cons, if_neg (List.cons_ne_nil (wideRule glob) []),
    maxExistingRulesInPrompt, List.take_succ_cons, List.take_nil, List.flatMap_singleton]
  omega

theorem contract_cut_of_wide {glob : Text} (hwide : promptMaxChars ≤ glob.length)
    (pairs : List Pair) (mode : GateMode) :
    ¬ decisionContract <:+ buildPromptWithMode pairs [wideRule glob] mode := by
  have hheader := length_le_header_wideRule mode glob
  have hlong : promptMaxChars < (assembled mode [wideRule glob] (sessionBlock mode
      (bodyBudget mode [wideRule glob]) pairs)).length := by
    rw [assembled]
    simp only [List.length_append, List.length_cons]
    omega
  unfold buildPromptWithMode
  dsimp only
  rw [if_pos hlong]
  exact not_contract_suffix_cut hlong

/-- A glob of thirty thousand characters takes the place of the contract. -/
theorem wide_glob_cuts_contract : ¬ decisionContract <:+ buildPromptWithMode [⟨"fix", "done"⟩]
        [wideRule (List.replicate promptMaxChars 'a')] .session ∧
      ¬ Packed .session [⟨"fix", "done"⟩]
        [wideRule (List.replicate promptMaxChars 'a')]
        (buildPromptWithMode [⟨"fix", "done"⟩]
          [wideRule (List.replicate promptMaxChars 'a')] .session) := by
  have hcut := contract_cut_of_wide
    (Nat.le_of_eq (List.length_replicate (a := 'a')).symm) [⟨"fix", "done"⟩] .session
  exact ⟨hcut, fun hpacked => hcut hpacked.contract⟩

end Difflore.SessionMine.Gate

import Difflore.Hook.Dispatch
import Difflore.Infra.Hex

/-! # The rules a hook serves

The retrieved rules are rendered one after the other until the budget is spent. Each block
shows its number and a token for citing the rule; the event that records the serve lists the
ids in the same order.
-/

namespace Difflore.Hook

open Foundation Text
open Cloud.Observations (ObservationEvent)

structure RuleExample where
  badCode : Text
  goodCode : Text
  description : Option Text

structure ScoredRule where
  skillId : Text
  content : Text
  rel : Text
  score : Text

structure ServeFacts where
  proof : Text → Option Text
  examples : Text → Option (List RuleExample)
  why : Text → Option Text
  safetyNotes : Text → Option Text

structure RuleBlockArgs where
  position : Nat
  rule : ScoredRule
  proof : Option Text
  examples : Option (List RuleExample)
  exampleBadLabel : Text
  exampleGoodLabel : Text
  why : Option Text
  safety : Option Text

def memoryCitationToken (platform : Platform) (position : Nat) (ruleId : Text) : Text :=
  "df:" ++ (Nat.toDigits 10 position ++ '-' :: ruleFingerprint platform ruleId)

/-- The first line of the rule with this label, if anything stands behind the label. -/
def labelled (label content : Text) : Option Text :=
  (((Text.lines content).findSome? (stripPrefix label)).map trim).filter (· ≠ [])

def renderExample (args : RuleBlockArgs) (shown : RuleExample) : Text :=
  let description := match shown.description with
    | none => []
    | some description => if description = [] then [] else '\n' :: (description ++ ['\n'])
  '\n' :: (args.exampleBadLabel ++ ("\n```\n" ++ (shown.badCode ++ ("\n```\n\n" ++
    (args.exampleGoodLabel ++ ("\n```\n" ++ (shown.goodCode ++ ("\n```\n" ++
    description))))))))

def ruleHeader (platform : Platform) (args : RuleBlockArgs) : Text :=
  let title := (labelled "Rule Name: ".toList args.rule.content).getD "(untitled)".toList
  let sourceSeg := ((labelled "Source: ".toList args.rule.content).map
    (" ← learned from ".toList ++ ·)).getD []
  let whySeg := (args.why.map (" | why: ".toList ++ ·)).getD []
  "## Rule ".toList ++ (Nat.toDigits 10 args.position ++ (" [".toList ++
    (memoryCitationToken platform args.position args.rule.skillId ++ ("]: " ++ (title ++
    (sourceSeg ++ (" (rank score: " ++ (args.rule.rel ++ (" | raw: " ++
    (args.rule.score ++ (whySeg ++ ")\n\n")))))))))))

def renderRuleBlock (platform : Platform) (args : RuleBlockArgs) : Text :=
  let proof := (args.proof.map fun label => "Proof: " ++ (label ++ "\n\n".toList)).getD []
  let safety := (args.safety.map ("\n\n### Apply Safely\n".toList ++ ·)).getD []
  let examples := ((args.examples.filter (· ≠ [])).map fun shown =>
    "\n\n### Examples\n".toList ++ shown.flatMap (renderExample args)).getD []
  ruleHeader platform args ++
    (proof ++ (args.rule.content ++ (safety ++ (examples ++ "\n---\n\n"))))

def injectionTokenBudget : Nat := 1500

def estimateTokens (text : Text) : Nat := byteLength text / 4

/-- What the loop over the rules carries. No step reads `blocks`. -/
structure Injection where
  text : Text
  injected : Nat
  skillIds : List Text
  blocks : List RuleBlockArgs

def ruleBlockArgs (facts : ServeFacts) (position : Nat) (rule : ScoredRule) : RuleBlockArgs where
  position
  rule
  proof := facts.proof rule.skillId
  examples := facts.examples rule.skillId
  exampleBadLabel := "- Bad:"
  exampleGoodLabel := "- Good:"
  why := facts.why rule.skillId
  safety := facts.safetyNotes rule.content

def Injection.push (platform : Platform) (args : RuleBlockArgs) (state : Injection) :
    Injection where
  text := state.text ++ renderRuleBlock platform args
  injected := state.injected + 1
  skillIds := state.skillIds ++ [args.rule.skillId]
  blocks := state.blocks ++ [args]

/-- The first rule is always emitted, the others as far as the budget reaches. -/
def injectRules (platform : Platform) (facts : ServeFacts) : List ScoredRule → Injection → Injection
  | [], state => state
  | rule :: rest, state =>
    let args := ruleBlockArgs facts (state.injected + 1) rule
    let projected := estimateTokens state.text + estimateTokens (renderRuleBlock platform args)
    if 0 < state.injected ∧ injectionTokenBudget < projected then state
    else injectRules platform facts rest (state.push platform args)

structure HookQuery where
  isBashError : Bool
  targetFile : Option Text
  intent : Text
  sessionId : Option Text
  firedAt : Int
  /-- What the state of the embeddings puts in front. -/
  healthHeader : Text
  crossRepoStarter : Bool

def crossRepoStarterText : Text :=
  ("> No rules are scoped to THIS repo yet. The rules below are transferable " ++
   "from your OTHER repos, matched to this file — starter suggestions, not this repo's " ++
   "own judgment. Run `difflore import-reviews` to capture this repo's rules.\n\n").toList

def counterfactualCitationInstruction (n : Nat) (hookLabel appliesTo : Text) : Text :=
  "\n> DiffLore surfaced " ++ (Nat.toDigits 10 n ++ (" team rule" ++
    ((if n = 1 then [] else ['s']) ++ (" via " ++ (hookLabel ++
    (" hook as silent context. Cite a rule only if your " ++ (appliesTo ++
    (" would be materially different without it; include its number AND the `learned from " ++
     "<repo>` source if the header shows one — e.g. \"applying Rule 2: Don't strip null from " ++
     "coalesce (learned from acme/widgets)\". Otherwise ignore — do not narrate or list rules " ++
     "that do not apply.").toList)))))))

def wrapUpNudge : Text :=
  ("\n> When you finish this task, add one quiet difflore recap line only when " ++
   "`difflore status` shows accepted edits captured for this task. " ++
   "Do not prefix it with `session-recap:`; if you use a label, " ++
   "write lowercase `difflore:`. Do not mention top rule, recall counts, " ++
   "ready-for-agent counts, or zero/negative metrics. Skip it if nothing here applied.").toList

structure HookServe where
  rendered : Text
  rulesInjected : Nat
  ruleIds : List Text
  fired : Option ObservationEvent
  blocks : List RuleBlockArgs

def hookServe (platform : Platform) (facts : ServeFacts) (query : HookQuery)
    (scored : List ScoredRule) : HookServe :=
  if scored = [] then
    { rendered := [], rulesInjected := 0, ruleIds := [], fired := none, blocks := [] }
  else
    let start := query.healthHeader ++ (if query.crossRepoStarter then crossRepoStarterText else [])
    let state := injectRules platform facts scored
      { text := start, injected := 0, skillIds := [], blocks := [] }
    let hookLabel := if query.isBashError then "bash-error" else "post-edit"
    let appliesTo :=
      if query.isBashError then "current failure".toList else "current change".toList
    { rendered := state.text ++
        (counterfactualCitationInstruction state.injected hookLabel appliesTo ++ wrapUpNudge)
      rulesInjected := state.injected
      ruleIds := state.skillIds
      fired := some (.ruleFired state.skillIds query.targetFile (some query.intent)
        (query.sessionId.getD "hook") query.firedAt)
      blocks := state.blocks }

def HookServe.recordedIds (served : HookServe) : List Text :=
  match served.fired with
  | some (.ruleFired ruleIds _ _ _ _) => ruleIds
  | _ => []

/-! ## What the loop keeps -/

/-- The blocks are numbered from one on and lie in the text; the ids are theirs in order, and
the budget bounds how many there are. -/
structure Injection.Numbered (platform : Platform) (start : Text) (state : Injection) : Prop where
  text_eq : state.text = start ++ state.blocks.flatMap (renderRuleBlock platform)
  skillIds_eq : state.skillIds = state.blocks.map (·.rule.skillId)
  injected_eq : state.injected = state.blocks.length
  position_eq : ∀ i block, state.blocks[i]? = some block → block.position = i + 1
  few : state.blocks.length ≤ 751

theorem length_le_byteLength (s : Text) : s.length ≤ byteLength s := by
  induction s with
  | nil => exact Nat.le_refl 0
  | cons c rest ih =>
    have hc : 0 < c.utf8Size := c.utf8Size_pos
    simp only [byteLength, List.map_cons, List.sum_cons, List.length_cons] at ih ⊢
    omega

theorem length_renderRuleBlock (platform : Platform) (args : RuleBlockArgs) :
    8 ≤ (renderRuleBlock platform args).length := by
  unfold renderRuleBlock ruleHeader
  rw [List.append_assoc, List.length_append]
  exact Nat.le_add_right 8 _

theorem length_flatMap_renderRuleBlock (platform : Platform) (blocks : List RuleBlockArgs) :
    8 * blocks.length ≤ (blocks.flatMap (renderRuleBlock platform)).length := by
  induction blocks with
  | nil => exact Nat.le_refl 0
  | cons block rest ih =>
    have hblock := length_renderRuleBlock platform block
    simp only [List.flatMap_cons, List.length_append, List.length_cons]
    omega

section Loop

variable {platform : Platform} (facts : ServeFacts) {start : Text} {state : Injection}

theorem few_of_fits (hstate : state.Numbered platform start) {ruleText : Text}
    (hfits : ¬ (0 < state.injected ∧
      injectionTokenBudget < estimateTokens state.text + estimateTokens ruleText)) :
    state.blocks.length ≤ 750 := by
  by_cases hfirst : 0 < state.injected
  · have hbudget : estimateTokens state.text ≤ injectionTokenBudget := by
      have := fun hover => hfits ⟨hfirst, hover⟩
      omega
    have hbytes := length_le_byteLength state.text
    have hblocks := length_flatMap_renderRuleBlock platform state.blocks
    have hlength : state.text.length =
        start.length + (state.blocks.flatMap (renderRuleBlock platform)).length := by
      rw [hstate.text_eq, List.length_append]
    unfold estimateTokens injectionTokenBudget at hbudget
    omega
  · have := hstate.injected_eq
    omega

theorem numbered_push (hstate : state.Numbered platform start)
    (hfew : state.blocks.length ≤ 750) (rule : ScoredRule) :
    (state.push platform (ruleBlockArgs facts (state.injected + 1) rule)).Numbered
      platform start where
  text_eq := by
    simp [Injection.push, hstate.text_eq]
  skillIds_eq := by
    simp [Injection.push, hstate.skillIds_eq]
  injected_eq := by
    simp [Injection.push, hstate.injected_eq]
  position_eq := by
    intro i block hblock
    simp only [Injection.push] at hblock
    rcases Nat.lt_trichotomy i state.blocks.length with hi | hi | hi
    · rw [List.getElem?_append_left hi] at hblock
      exact hstate.position_eq i block hblock
    · rw [hi, List.getElem?_concat_length] at hblock
      obtain rfl := Option.some.inj hblock
      rw [hi]
      exact congrArg (· + 1) hstate.injected_eq
    · rw [List.getElem?_eq_none (by simp; omega)] at hblock
      contradiction
  few := by
    simp only [Injection.push, List.length_append, List.length_singleton]
    omega

theorem numbered_injectRules (rules : List ScoredRule) (hstate : state.Numbered platform start) :
    (injectRules platform facts rules state).Numbered platform start := by
  induction rules generalizing state with
  | nil => exact hstate
  | cons rule rest ih =>
    rw [injectRules]
    split
    next => exact hstate
    next hfits => exact ih (numbered_push facts hstate (few_of_fits hstate hfits) rule)

end Loop

theorem numbered_start (platform : Platform) (start : Text) : Injection.Numbered platform start
      { text := start, injected := 0, skillIds := [], blocks := [] } where
  text_eq := (List.append_nil start).symm
  skillIds_eq := rfl
  injected_eq := rfl
  position_eq := by simp
  few := Nat.zero_le _

theorem recordedIds_hookServe (platform : Platform) (facts : ServeFacts) (query : HookQuery)
    (scored : List ScoredRule) :
    (hookServe platform facts query scored).recordedIds =
      (hookServe platform facts query scored).blocks.map (·.rule.skillId) := by
  unfold hookServe
  split
  next => rfl
  next => exact (numbered_injectRules facts scored (numbered_start platform _)).skillIds_eq

theorem position_hookServe {platform : Platform} {facts : ServeFacts} {query : HookQuery}
    {scored : List ScoredRule} {i : Nat} {block : RuleBlockArgs}
    (hblock : (hookServe platform facts query scored).blocks[i]? = some block) :
    block.position = i + 1 ∧ i < 751 := by
  unfold hookServe at hblock
  split at hblock
  next => simp at hblock
  next =>
    have hnumbered := numbered_injectRules facts scored (numbered_start platform
      (query.healthHeader ++ (if query.crossRepoStarter then crossRepoStarterText else [])))
    refine ⟨hnumbered.position_eq i block hblock, ?_⟩
    have hi := (List.getElem?_eq_some_iff.mp hblock).1
    exact Nat.lt_of_lt_of_le hi hnumbered.few

end Difflore.Hook

import Difflore.Hook.CitationNumbers
import Difflore.Hook.PrivateRegions
import Difflore.Hook.Serve

/-! # Are the cited rules the ones attributed?

A serve shows every rule with its token. Of the closing message, the rules whose tokens it
holds should be attributed, and no others. A token that directly follows a bare `df:N-` is
not read, so the rule is lost, or a number the token should have settled counts.
-/

namespace Difflore.Hook

open Foundation Text

variable {platform : Platform}

theorem ruleIdForFingerprintedCitation_eq_some_iff {candidates : List Text}
    (hdistinct : (candidates.map (ruleFingerprint platform)).Nodup) {citation : Nat × Text}
    {ruleId : Text} :
    ruleIdForFingerprintedCitation platform candidates citation = some ruleId ↔
      ruleId ∈ candidates ∧ ruleFingerprint platform ruleId = citation.2 := by
  have hinj := List.inj_on_of_nodup_map hdistinct
  unfold ruleIdForFingerprintedCitation
  cases hplaced :
    (candidates[citation.1 - 1]?).filter (ruleFingerprint platform · = citation.2) with
  | some found =>
    obtain ⟨hget, hfound⟩ := Option.filter_eq_some_iff.mp hplaced
    have hmem := List.mem_of_getElem? hget
    have hprint : ruleFingerprint platform found = citation.2 := by simpa using hfound
    constructor
    · rintro heq
      obtain rfl := Option.some.inj heq
      exact ⟨hmem, hprint⟩
    · rintro ⟨hruleId, hsame⟩
      exact congrArg some (hinj hmem hruleId (hprint.trans hsame.symm))
  | none =>
    have hfilter : ∀ {found}, found ∈ candidates.filter (ruleFingerprint platform · = citation.2) ↔
        found ∈ candidates ∧ ruleFingerprint platform found = citation.2 := by
      intro found
      simp
    dsimp only
    rw [← hfilter]
    have hnodup : ((candidates.filter (ruleFingerprint platform · = citation.2)).map
        (ruleFingerprint platform)).Nodup :=
      hdistinct.sublist (List.filter_sublist.map _)
    cases hfound : candidates.filter (ruleFingerprint platform · = citation.2) with
    | nil => simp
    | cons first rest =>
      cases rest with
      | nil =>
        simp [eq_comm]
      | cons second rest =>
        -- two rules with the fingerprint
        rw [hfound] at hnodup
        have hfirst := (hfilter.mp (hfound ▸ List.mem_cons_self ..)).2
        have hsecond := (hfilter.mp (hfound ▸ List.mem_cons_of_mem _
          (.head _ ..))).2
        simp [hfirst, hsecond] at hnodup

theorem mem_of_mem_ruleIdsForCitations {candidates : List Text}
    (hdistinct : (candidates.map (ruleFingerprint platform)).Nodup)
    {fingerprinted : List (Nat × Text)} {numbers : List Nat} {ruleId : Text}
    (hrule : ruleId ∈ ruleIdsForCitations platform candidates fingerprinted numbers) :
    ruleId ∈ candidates := by
  rcases List.mem_append.mp hrule with hfingerprint | hnumber
  · obtain ⟨citation, _, hcitation⟩ := List.mem_filterMap.mp hfingerprint
    exact ((ruleIdForFingerprintedCitation_eq_some_iff hdistinct).mp hcitation).1
  · obtain ⟨n, _, hn⟩ := List.mem_filterMap.mp hnumber
    exact List.mem_of_getElem? hn

theorem mem_ruleIdsForCitations_iff {candidates : List Text}
    (hdistinct : (candidates.map (ruleFingerprint platform)).Nodup) {i : Nat} {ruleId : Text}
    (hi : candidates[i]? = some ruleId) {fingerprinted : List (Nat × Text)}
    {numbers : List Nat} (hnumbers : ∀ n ∈ numbers, 0 < n) :
    ruleId ∈ ruleIdsForCitations platform candidates fingerprinted numbers ↔
      (∃ position, (position, ruleFingerprint platform ruleId) ∈ fingerprinted) ∨
        (i + 1 ∈ numbers ∧ ∀ fingerprint, (i + 1, fingerprint) ∉ fingerprinted) := by
  have hmem := List.mem_of_getElem? hi
  unfold ruleIdsForCitations
  rw [List.mem_append, List.mem_filterMap, List.mem_filterMap]
  apply or_congr
  · constructor
    · rintro ⟨⟨position, fingerprint⟩, hcitation, hresolved⟩
      obtain ⟨_, rfl⟩ := (ruleIdForFingerprintedCitation_eq_some_iff hdistinct).mp hresolved
      exact ⟨position, hcitation⟩
    · rintro ⟨position, hcitation⟩
      exact ⟨_, hcitation, (ruleIdForFingerprintedCitation_eq_some_iff hdistinct).mpr ⟨hmem, rfl⟩⟩
  · have hfree : ∀ n, fingerprinted.any (·.1 = n) = false ↔
        ∀ fingerprint, (n, fingerprint) ∉ fingerprinted := by
      intro n
      simp only [List.any_eq_false, Prod.forall, decide_eq_true_eq]
      constructor
      · intro hnone fingerprint hcitation
        exact hnone n fingerprint hcitation rfl
      · rintro hnone position fingerprint hcitation rfl
        exact hnone fingerprint hcitation
    constructor
    · rintro ⟨n, hn, hget⟩
      obtain ⟨hnumber, hany⟩ := List.mem_filter.mp hn
      have hpos := hnumbers n hnumber
      have hsame : n - 1 = i := by
        have hnodup : candidates.Nodup := hdistinct.of_map _
        obtain ⟨hlt, hleft⟩ := List.getElem?_eq_some_iff.mp hget
        obtain ⟨hlt', hright⟩ := List.getElem?_eq_some_iff.mp hi
        exact (List.Nodup.getElem_inj_iff hnodup).mp (hleft.trans hright.symm)
      obtain rfl : n = i + 1 := by omega
      exact ⟨hnumber, (hfree _).mp (by simpa using hany)⟩
    · rintro ⟨hnumber, hnone⟩
      exact ⟨i + 1, List.mem_filter.mpr ⟨hnumber, by simpa using (hfree _).mpr hnone⟩, hi⟩

/-! ## What the message holds -/

def HoldsToken (text : Text) (position : Nat) (fingerprint : Text) : Prop :=
  ∃ before after, toAsciiLowercase text = before ++ after ∧
    TokenAt before after position fingerprint

/-- A token with an even number of bare heads directly in front of it, mostly none. -/
def ReadsToken (text : Text) (position : Nat) (fingerprint : Text) : Prop :=
  ∃ before after k, toAsciiLowercase text = before ++ after ∧
    TokenAt before after position fingerprint ∧ HeadsBefore k before ∧ Even k

/-- The text says `rule N` or `memory N`. -/
def NamesPosition (text : Text) (position : Nat) : Prop :=
  ∃ needle ∈ ["rule".toList, "memory".toList], ∃ before after,
    toAsciiLowercase text = before ++ after ∧ NumberAt needle before after position

def Cites (text token : Text) : Prop :=
  ∃ before after, text = before ++ (token ++ after) ∧ Stands before ∧
    after.head?.any isHexDigit = false

def attributedRuleIds (platform : Platform) (served : HookServe) (text : Text) : List Text :=
  ruleIdsForCitations platform served.recordedIds (ruleFingerprintsFromCitationText text)
    (ruleNumbersFromCitationText text)

/-- The cited rules are attributed, and only rules for which the text gives a reason. -/
structure Attributed (platform : Platform) (served : HookServe) (text : Text) : Prop where
  cited : ∀ block ∈ served.blocks,
    Cites text (memoryCitationToken platform block.position block.rule.skillId) →
    block.rule.skillId ∈ attributedRuleIds platform served text
  others : ∀ ruleId ∈ attributedRuleIds platform served text, ∃ block ∈ served.blocks,
    block.rule.skillId = ruleId ∧
    ((∃ position, HoldsToken text position (ruleFingerprint platform ruleId)) ∨
      (NamesPosition text block.position ∧
        ∀ fingerprint, ¬ HoldsToken text block.position fingerprint))

/-- No rule is lost and none is gained by a token behind an odd number of bare heads. -/
structure Unswallowed (platform : Platform) (served : HookServe) (text : Text) : Prop where
  cited : ∀ block ∈ served.blocks,
    Cites text (memoryCitationToken platform block.position block.rule.skillId) →
    (∃ position, ReadsToken text position (ruleFingerprint platform block.rule.skillId)) ∨
      (NamesPosition text block.position ∧
        ∀ fingerprint, ¬ ReadsToken text block.position fingerprint)
  named : ∀ block ∈ served.blocks, NamesPosition text block.position →
    (∃ fingerprint, HoldsToken text block.position fingerprint) →
    (∃ position, HoldsToken text position (ruleFingerprint platform block.rule.skillId)) ∨
      ∃ fingerprint, ReadsToken text block.position fingerprint

theorem HoldsToken.of_readsToken {text fingerprint : Text} {position : Nat}
    (hreads : ReadsToken text position fingerprint) : HoldsToken text position fingerprint := by
  obtain ⟨before, after, _, hsplit, htoken, _⟩ := hreads
  exact ⟨before, after, hsplit, htoken⟩

theorem pos_of_mem_ruleNumbers {text : Text} {n : Nat}
    (hn : n ∈ ruleNumbersFromCitationText text) : 0 < n := by
  obtain ⟨_, _, _, _, _, _, digits, _, _, _, _, hdigits, _⟩ :=
    mem_ruleNumbersFromCitationText_iff.mp hn
  obtain ⟨_, hpos⟩ := Option.filter_eq_some_iff.mp hdigits.2
  simpa using hpos

section Serve

variable {facts : ServeFacts} {query : HookQuery} {scored : List ScoredRule}

theorem mem_attributedRuleIds_iff
    (hdistinct : ((hookServe platform facts query scored).recordedIds.map
      (ruleFingerprint platform)).Nodup) {text : Text} {block : RuleBlockArgs}
    (hblock : block ∈ (hookServe platform facts query scored).blocks) :
    block.rule.skillId ∈ attributedRuleIds platform (hookServe platform facts query scored) text ↔
      (∃ position, ReadsToken text position (ruleFingerprint platform block.rule.skillId)) ∨
        (NamesPosition text block.position ∧
          ∀ fingerprint, ¬ ReadsToken text block.position fingerprint) := by
  obtain ⟨i, hi⟩ := List.mem_iff_getElem?.mp hblock
  have hid : (hookServe platform facts query scored).recordedIds[i]? = some block.rule.skillId := by
    rw [recordedIds_hookServe, List.getElem?_map, hi]
    rfl
  unfold attributedRuleIds
  rw [mem_ruleIdsForCitations_iff hdistinct hid fun _ => pos_of_mem_ruleNumbers,
    (position_hookServe hi).1, mem_ruleNumbersFromCitationText_iff]
  simp only [mem_ruleFingerprintsFromCitationText_iff]
  rfl

/-- The attribution is right exactly when no token that a bare head swallows matters. -/
theorem attributed_iff_unswallowed (platform : Platform) (facts : ServeFacts)
    (query : HookQuery) (scored : List ScoredRule)
    (hdistinct : ((hookServe platform facts query scored).recordedIds.map
      (ruleFingerprint platform)).Nodup) (text : Text) :
    Attributed platform (hookServe platform facts query scored) text ↔
      Unswallowed platform (hookServe platform facts query scored) text := by
  constructor
  · intro hattributed
    refine ⟨fun block hblock hcites => ?_, fun block hblock hnames hholds => ?_⟩
    · exact (mem_attributedRuleIds_iff hdistinct hblock).mp
        (hattributed.cited block hblock hcites)
    · by_cases hreads : ∃ fingerprint, ReadsToken text block.position fingerprint
      · exact .inr hreads
      · have hmem := (mem_attributedRuleIds_iff hdistinct hblock).mpr
          (.inr ⟨hnames, not_exists.mp hreads⟩)
        obtain ⟨other, hother, hid, hreason⟩ := hattributed.others _ hmem
        rcases hreason with htoken | ⟨_, hnone⟩
        · exact .inl htoken
        · -- the ids are distinct, so the reason is about this block
          obtain rfl : other = block := by
            rw [recordedIds_hookServe, List.map_map] at hdistinct
            exact List.inj_on_of_nodup_map hdistinct hother hblock
              (congrArg (ruleFingerprint platform) hid)
          obtain ⟨fingerprint, hholds⟩ := hholds
          exact absurd hholds (hnone fingerprint)
  · intro hunswallowed
    refine ⟨fun block hblock hcites => ?_, fun ruleId hruleId => ?_⟩
    · exact (mem_attributedRuleIds_iff hdistinct hblock).mpr
        (hunswallowed.cited block hblock hcites)
    · have hserved := mem_of_mem_ruleIdsForCitations hdistinct hruleId
      rw [recordedIds_hookServe] at hserved
      obtain ⟨block, hblock, rfl⟩ := List.mem_map.mp hserved
      refine ⟨block, hblock, rfl, ?_⟩
      rcases (mem_attributedRuleIds_iff hdistinct hblock).mp hruleId with
        ⟨position, hreads⟩ | ⟨hnames, hnone⟩
      · exact .inl ⟨position, .of_readsToken hreads⟩
      · by_cases hholds : ∃ fingerprint, HoldsToken text block.position fingerprint
        · rcases hunswallowed.named block hblock hnames hholds with htoken | ⟨_, hreads⟩
          · exact .inl htoken
          · exact absurd hreads (hnone _)
        · exact .inr ⟨hnames, not_exists.mp hholds⟩

end Serve

def twoRuleDigest (ruleId : Text) : Text :=
  if ruleId = "rule-a".toList then
    "8faa3b1fe77f6b82a26603133a4b3a23e761d4b9db2c765105a6f063513f741d".toList
  else if ruleId = "rule-b".toList then
    "c2c8a7d4acb4eee42bb0d335a40206bd4532216db84e9c2e1fdf621a949dd83a".toList
  else List.replicate 64 '0'

def twoRulePlatform : Platform := { citedPlatform with sha256 := twoRuleDigest }

def scoredRule (skillId : Text) : ScoredRule where
  skillId
  content := "Rule Name: Close the file".toList
  rel := "1.00".toList
  score := "0.500".toList

def twoRuleServe : HookServe :=
  hookServe twoRulePlatform ⟨fun _ => none, fun _ => none, fun _ => none, fun _ => none⟩
    { isBashError := false, targetFile := none, intent := [], sessionId := none, firedAt := 0,
      healthHeader := [], crossRepoStarter := false }
    [scoredRule "rule-a".toList, scoredRule "rule-b".toList]

theorem recordedIds_twoRuleServe :
    twoRuleServe.recordedIds = ["rule-a".toList, "rule-b".toList] := by
  decide

theorem attributed_iff_unswallowed_two_rules :
    (twoRuleServe.recordedIds.map (ruleFingerprint twoRulePlatform)).Nodup ∧
      (Attributed twoRulePlatform twoRuleServe "applying df:2-c2c8".toList ↔
        Unswallowed twoRulePlatform twoRuleServe "applying df:2-c2c8".toList) := by
  have hdistinct : (twoRuleServe.recordedIds.map (ruleFingerprint twoRulePlatform)).Nodup := by
    rw [recordedIds_twoRuleServe]
    decide
  exact ⟨hdistinct, attributed_iff_unswallowed _ _ _ _ hdistinct _⟩

/-- The hexadecimal digits behind `df:1-` take in the start of the token of the second rule. -/
theorem token_behind_bareHead_is_lost :
    (twoRuleServe.recordedIds.map (ruleFingerprint twoRulePlatform)).Nodup ∧
      ¬ Attributed twoRulePlatform twoRuleServe "see df:1-df:2-c2c8".toList := by
  refine ⟨by rw [recordedIds_twoRuleServe]; decide, fun hattributed => ?_⟩
  have hlost : attributedRuleIds twoRulePlatform twoRuleServe "see df:1-df:2-c2c8".toList = [] := by
    rw [attributedRuleIds, recordedIds_twoRuleServe]
    decide
  obtain ⟨block, hblock, hid⟩ : ∃ block, twoRuleServe.blocks[1]? = some block ∧
      block.rule.skillId = "rule-b".toList := by
    have hids : (twoRuleServe.blocks.map (·.rule.skillId))[1]? = some "rule-b".toList := by
      unfold twoRuleServe
      rw [← recordedIds_hookServe, ← twoRuleServe, recordedIds_twoRuleServe]
      rfl
    rwa [List.getElem?_map, Option.map_eq_some_iff] at hids
  have hposition : block.position = 2 := (position_hookServe hblock).1
  have hcited := hattributed.cited block (List.mem_of_getElem? hblock)
  rw [hposition, hid, hlost] at hcited
  exact List.not_mem_nil (hcited ⟨"see df:1-".toList, [], by decide, rfl, rfl⟩)

end Difflore.Hook

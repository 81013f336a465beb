import Difflore.Skills.SemanticDedup
import Mathlib.Data.List.Perm.Basic
import Mathlib.Tactic.Linarith

/-! # The languages of matching rules

Matching is symmetric. Rules for different languages do not match where the extensions are
behind a `*.` in all of their patterns; a pattern whose extension is not read there is
compatible with every other.
-/

namespace Difflore.Skills

open Foundation Text

theorem hasCompatibleLanguageScope_comm (left right : Text) :
    hasCompatibleLanguageScope left right = hasCompatibleLanguageScope right left := by
  unfold hasCompatibleLanguageScope
  rw [Bool.eq_iff_iff]
  simp only [Bool.or_eq_true, decide_eq_true_eq, List.any_eq_true]
  constructor
  · rintro ((hnil | hnil) | ⟨family, hleft, hright⟩)
    · exact .inl (.inr hnil)
    · exact .inl (.inl hnil)
    · exact .inr ⟨family, hright, hleft⟩
  · rintro ((hnil | hnil) | ⟨family, hright, hleft⟩)
    · exact .inl (.inr hnil)
    · exact .inl (.inl hnil)
    · exact .inr ⟨family, hleft, hright⟩

theorem hasCompatibleLanguageScope_self (pattern : Text) :
    hasCompatibleLanguageScope pattern pattern = true := by
  unfold hasCompatibleLanguageScope
  cases languageFamiliesForPattern pattern <;> simp

theorem prefixSubsumes_comm (left right : Text) :
    prefixSubsumes left right = prefixSubsumes right left := by
  have hsame : left = right ↔ right = left := eq_comm
  unfold prefixSubsumes
  rw [Bool.eq_iff_iff]
  simp only [Bool.or_eq_true, decide_eq_true_eq, hsame]
  tauto

theorem filePatternPairOverlapScore_comm (left right : Text) :
    filePatternPairOverlapScore left right = filePatternPairOverlapScore right left := by
  have hsame : (left = right) = (right = left) := propext eq_comm
  have hprefix : (globPrefix left = globPrefix right) = (globPrefix right = globPrefix left) :=
    propext eq_comm
  simp only [filePatternPairOverlapScore, hsame, hprefix, hasCompatibleLanguageScope_comm left,
    prefixSubsumes_comm (globPrefix left), Bool.or_comm (isProjectWidePattern left),
    Bool.or_comm (decide (globPrefix left = []))]

theorem foldl_max_spec (values : List Rat) (start : Rat) :
    start ≤ values.foldl max start ∧ (∀ value ∈ values, value ≤ values.foldl max start) ∧
      (values.foldl max start = start ∨ values.foldl max start ∈ values) := by
  induction values generalizing start with
  | nil => simp
  | cons head tail ih =>
    obtain ⟨hstart, hle, hattained⟩ := ih (max start head)
    refine ⟨(le_max_left _ _).trans hstart, ?_, ?_⟩
    · intro value hvalue
      rcases List.mem_cons.mp hvalue with rfl | htail
      · exact (le_max_right _ _).trans hstart
      · exact hle value htail
    · rw [List.foldl_cons]
      rcases hattained with hmax | htail
      · rcases max_choice start head with hfirst | hsecond
        · exact .inl (hmax.trans hfirst)
        · exact .inr (by rw [hmax, hsecond]; exact .head _)
      · exact .inr (.tail _ htail)

def pairScores (incoming existing : List Text) : List Rat :=
  (normalizePatterns incoming).flatMap fun left =>
    (normalizePatterns existing).map (filePatternPairOverlapScore left)

theorem filePatternOverlapScore_eq (incoming existing : List Text) :
    filePatternOverlapScore incoming existing = (pairScores incoming existing).foldl max 0 := by
  simp only [filePatternOverlapScore, pairScores, List.foldl_flatMap, List.foldl_map]

theorem mem_pairScores {incoming existing : List Text} {score : Rat} :
    score ∈ pairScores incoming existing ↔ ∃ left ∈ normalizePatterns incoming,
      ∃ right ∈ normalizePatterns existing, filePatternPairOverlapScore left right = score := by
  simp [pairScores]

theorem mem_pairScores_comm {incoming existing : List Text} {score : Rat} :
    score ∈ pairScores incoming existing ↔ score ∈ pairScores existing incoming := by
  rw [mem_pairScores, mem_pairScores]
  constructor <;> rintro ⟨left, hleft, right, hright, rfl⟩ <;>
    exact ⟨right, hright, left, hleft, filePatternPairOverlapScore_comm _ _⟩

theorem filePatternOverlapScore_comm (incoming existing : List Text) :
    filePatternOverlapScore incoming existing = filePatternOverlapScore existing incoming := by
  have hle : ∀ P Q : List Text, (pairScores P Q).foldl max 0 ≤ (pairScores Q P).foldl max 0 := by
    intro P Q
    obtain ⟨hstart, hbound, -⟩ := foldl_max_spec (pairScores Q P) 0
    rcases (foldl_max_spec (pairScores P Q) 0).2.2 with hzero | hmem
    · rwa [hzero]
    · exact hbound _ (mem_pairScores_comm.mp hmem)
  rw [filePatternOverlapScore_eq, filePatternOverlapScore_eq]
  exact (hle incoming existing).antisymm (hle existing incoming)

theorem filePatternLanguagesCompatible_comm (incoming existing : List Text) :
    filePatternLanguagesCompatible incoming existing =
      filePatternLanguagesCompatible existing incoming := by
  unfold filePatternLanguagesCompatible
  rw [Bool.eq_iff_iff]
  simp only [List.any_eq_true]
  constructor <;> rintro ⟨left, hleft, right, hright, hscope⟩ <;>
    exact ⟨right, hright, left, hleft, hasCompatibleLanguageScope_comm left right ▸ hscope⟩

theorem semanticDedupScore_comm (incoming candidate : SemanticRuleKey) :
    semanticDedupScore incoming candidate = semanticDedupScore candidate incoming := by
  simp only [semanticDedupScore, tokenizeSemanticTitle, tokenizeKnowledgeText]
  rw [jaccard_comm (nodup_tokenizeWithAllowedChars _ incoming.title)
      (nodup_tokenizeWithAllowedChars _ candidate.title),
    jaccard_comm (nodup_tokenizeWithAllowedChars _ incoming.content)
      (nodup_tokenizeWithAllowedChars _ candidate.content),
    filePatternOverlapScore_comm]

theorem semanticRulesMatch_comm (incoming candidate : SemanticRuleKey) :
    semanticRulesMatch incoming candidate = semanticRulesMatch candidate incoming := by
  unfold semanticRulesMatch
  rw [semanticDedupScore_comm incoming, filePatternLanguagesCompatible_comm incoming.filePatterns]
  by_cases hsame : normalizedTitleKey incoming.title = normalizedTitleKey candidate.title
  · simp only [hsame]
  · have hother : normalizedTitleKey candidate.title ≠ normalizedTitleKey incoming.title :=
      Ne.symm hsame
    simp only [hsame, hother, decide_false, Bool.and_false]

/-! ## Languages -/

/-- The alternatives of a pattern with brace lists; `inner` is what was read of an open one. -/
def braceAlternatives : Option Text → Text → List Text
  | none, '\x7b' :: rest => braceAlternatives (some []) rest
  | none, c :: rest => (braceAlternatives none rest).map (c :: ·)
  | none, [] => [[]]
  | some inner, '\x7d' :: rest =>
    (inner.splitOn ',').flatMap fun part => (braceAlternatives none rest).map (part ++ ·)
  | some inner, c :: rest => braceAlternatives (some (inner ++ [c])) rest
  | some inner, [] => ['\x7b' :: inner]

def finalExtension (path : Text) : Option Text :=
  (afterLast '.' (path.rtakeWhile (· ≠ '/'))).bind fun extension =>
    if extension ≠ [] && extension.all Char.isAlphanum then some (toAsciiLowercase extension)
    else none

def namedFamilies (pattern : Text) : List Text :=
  ((braceAlternatives none pattern).filterMap finalExtension).map languageFamily

structure NamesApart (incoming existing : List Text) : Prop where
  left_named : ∀ left ∈ incoming, left ≠ [] ∧ namedFamilies left ≠ []
  right_named : ∀ right ∈ existing, right ≠ [] ∧ namedFamilies right ≠ []
  disjoint : ∀ left ∈ incoming, ∀ right ∈ existing, ∀ family ∈ namedFamilies left,
    family ∉ namedFamilies right

/-- Each pattern has an extension behind a `*.`, and no two of these share a family. -/
def ToldApart (incoming existing : List Text) : Prop :=
  ∀ left ∈ normalizePatterns incoming, ∀ right ∈ normalizePatterns existing,
    hasCompatibleLanguageScope left right = false

instance (incoming existing : List Text) : Decidable (ToldApart incoming existing) :=
  inferInstanceAs (Decidable (∀ left ∈ normalizePatterns incoming,
    ∀ right ∈ normalizePatterns existing, hasCompatibleLanguageScope left right = false))

theorem filePatternPairOverlapScore_of_incompatible {left right : Text}
    (hscope : hasCompatibleLanguageScope left right = false) :
    filePatternPairOverlapScore left right = 0 := by
  have hne : left ≠ right := by
    rintro rfl
    rw [hasCompatibleLanguageScope_self] at hscope
    contradiction
  rw [filePatternPairOverlapScore, if_neg hne, hscope]
  rfl

theorem semanticRulesMatch_of_toldApart {incoming candidate : SemanticRuleKey}
    (htold : ToldApart incoming.filePatterns candidate.filePatterns) :
    semanticRulesMatch incoming candidate = false := by
  have hoverlap : filePatternOverlapScore incoming.filePatterns candidate.filePatterns = 0 := by
    rw [filePatternOverlapScore_eq]
    rcases (foldl_max_spec (pairScores incoming.filePatterns candidate.filePatterns) 0).2.2 with
      hzero | hmem
    · exact hzero
    · obtain ⟨left, hleft, right, hright, hscore⟩ := mem_pairScores.mp hmem
      rw [← hscore]
      exact filePatternPairOverlapScore_of_incompatible (htold left hleft right hright)
  have hlanguages : filePatternLanguagesCompatible incoming.filePatterns
      candidate.filePatterns = false := by
    rw [Bool.eq_false_iff]
    intro hcompatible
    simp only [filePatternLanguagesCompatible, List.any_eq_true] at hcompatible
    obtain ⟨left, hleft, right, hright, hscope⟩ := hcompatible
    rw [htold left hleft right hright] at hscope
    contradiction
  simp [semanticRulesMatch, semanticDedupScore, hoverlap, hlanguages]

example : semanticRulesMatch ⟨"Guard", "Guard", ["src/**/*.ts"]⟩
    ⟨"Guard", "Guard", ["cmd/**/*.\x7bgo,mod\x7d"]⟩ = false :=
  semanticRulesMatch_of_toldApart (by decide)

theorem semanticRulesMatch_of_compatible {incoming candidate : SemanticRuleKey}
    (htitle : incoming.title = candidate.title) (hkey : normalizedTitleKey candidate.title ≠ [])
    (hcontent : incoming.content = candidate.content)
    (hwords : tokenizeKnowledgeText candidate.content ≠ [])
    (htold : ¬ ToldApart incoming.filePatterns candidate.filePatterns) :
    semanticRulesMatch incoming candidate = true := by
  have hlanguages : filePatternLanguagesCompatible incoming.filePatterns
      candidate.filePatterns = true := by
    simp only [ToldApart, not_forall, Bool.not_eq_false] at htold
    obtain ⟨left, hleft, right, hright, hscope⟩ := htold
    simp only [filePatternLanguagesCompatible, List.any_eq_true]
    exact ⟨left, hleft, right, hright, hscope⟩
  have hfloor : normalizedTitleContentFloor ≤ 1 := by
    unfold normalizedTitleContentFloor
    norm_num
  simp [semanticRulesMatch, semanticDedupScore, htitle, hkey, hcontent, jaccard_self hwords,
    hlanguages, hfloor]

/-- Matching is symmetric, and rules with two lists of patterns never match, whatever their words,
exactly if the languages of the patterns are told apart. -/
theorem semanticRulesMatch_respects_languages (incoming existing : List Text) :
    (∀ first second, semanticRulesMatch first second = semanticRulesMatch second first) ∧
      ((∀ first second : SemanticRuleKey, first.filePatterns = incoming →
        second.filePatterns = existing → semanticRulesMatch first second = false) ↔
        ToldApart incoming existing) := by
  refine ⟨semanticRulesMatch_comm, fun hnever => ?_, ?_⟩
  · by_contra htold
    have hkey : normalizedTitleKey "guard" ≠ [] := by decide
    have hwords : tokenizeKnowledgeText "guard" ≠ [] := by decide
    have hmatch : semanticRulesMatch ⟨"guard", "guard", incoming⟩
        ⟨"guard", "guard", existing⟩ = true :=
      semanticRulesMatch_of_compatible rfl hkey rfl hwords htold
    rw [hnever _ _ rfl rfl] at hmatch
    contradiction
  · rintro htold first second rfl rfl
    exact semanticRulesMatch_of_toldApart htold

/-- The language of a literal path is not read, and behind `*.test.ts` it is taken for `test`. -/
theorem semanticRulesMatch_across_languages : (NamesApart ["src/main.rs"] ["src/main.py"] ∧
      semanticRulesMatch ⟨"Guard", "Guard", ["src/main.rs"]⟩
        ⟨"Guard", "Guard", ["src/main.py"]⟩ = true) ∧
      NamesApart ["**/*.test.ts"] ["**/*.test.rs"] ∧
      semanticRulesMatch ⟨"Guard", "Guard", ["**/*.test.ts"]⟩
        ⟨"Guard", "Guard", ["**/*.test.rs"]⟩ = true := by
  refine ⟨⟨⟨by decide, by decide, by decide⟩, ?_⟩, ⟨by decide, by decide, by decide⟩, ?_⟩
  · exact semanticRulesMatch_of_compatible rfl (by decide) rfl (by decide) (by decide)
  · exact semanticRulesMatch_of_compatible rfl (by decide) rfl (by decide) (by decide)

end Difflore.Skills

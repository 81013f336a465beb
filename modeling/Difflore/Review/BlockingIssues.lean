import Difflore.Review.Perspectives
import Mathlib.Data.List.Nodup

/-! # Blocking issues and merging

The merge keeps one issue for each key of its own, the first of the highest rank. A critical
issue has the lowest rank and is blocking, and the merge's keys are not those of the issues.
-/

namespace Difflore.Review

open Foundation

variable {issues merged : List RatedIssue} {issue origin other : RatedIssue}

def ruleIdentity (issue : ReviewIssueRecord) : Text :=
  match issue.ruleId with
  | some id => if Text.trim id = [] then issue.rule else id
  | none => issue.rule

def issueKey (issue : ReviewIssueRecord) : Option Text × Option Int × Text :=
  (issue.file, issue.line, ruleIdentity issue)

def OnePerKey (issues merged : List RatedIssue) : Prop :=
  (merged.map fun issue => issueKey issue.toReviewIssueRecord).Nodup ∧
    ∀ key, key ∈ (merged.map fun issue => issueKey issue.toReviewIssueRecord) ↔
      key ∈ issues.map fun issue => issueKey issue.toReviewIssueRecord

def BlockingKept (issues merged : List RatedIssue) : Prop :=
  ∀ issue ∈ merged, issue.isBlocking = true ↔ ∃ other ∈ issues,
    issueKey other.toReviewIssueRecord = issueKey issue.toReviewIssueRecord ∧
      other.isBlocking = true

def allIssues (perPerspective : List (ReviewPerspective × List RatedIssue)) : List RatedIssue :=
  perPerspective.flatMap Prod.snd

def KeysAgree (issues : List RatedIssue) : Prop := ∀ issue ∈ issues, ∀ other ∈ issues,
    mergeKey issue.toReviewIssueRecord = mergeKey other.toReviewIssueRecord ↔
      issueKey issue.toReviewIssueRecord = issueKey other.toReviewIssueRecord

/-- A critical issue of the group has an error next to it, or it comes first and no warning or
info comes later. -/
def CriticalShows (group : List RatedIssue) : Prop :=
  (∃ issue ∈ group, issue.severity = criticalSeverity) →
    (∃ issue ∈ group, issue.severity = errorSeverity) ∨
      (group.head?.map RatedIssue.severity = some criticalSeverity ∧
        ∀ issue ∈ group, issue.severity ≠ warningSeverity ∧ issue.severity ≠ infoSeverity)

def sameIssueKey (issue other : RatedIssue) : Bool :=
  issueKey other.toReviewIssueRecord = issueKey issue.toReviewIssueRecord

def CriticalsShow (issues : List RatedIssue) : Prop :=
  ∀ issue ∈ issues, CriticalShows (issues.filter (sameIssueKey issue))

/-! ## What the merge keeps -/

def rankBelow (issue : RatedIssue) : Nat := 3 - severityRank issue.severity

def SameIssue (issue other : RatedIssue) : Prop :=
  issue.toReviewIssueRecord = other.toReviewIssueRecord ∧ issue.severity = other.severity

def sameMergeKey (issue other : RatedIssue) : Bool :=
  mergeKey other.toReviewIssueRecord = mergeKey issue.toReviewIssueRecord

/-- Each merged issue is the first of the highest rank among those of its key. -/
structure MergeOf (issues merged : List RatedIssue) : Prop where
  nodup : (merged.map fun issue => mergeKey issue.toReviewIssueRecord).Nodup
  best : ∀ issue ∈ merged, ∃ origin, SameIssue issue origin ∧
    IsFirstLeast rankBelow (issues.filter (sameMergeKey issue)) origin
  covers : ∀ issue ∈ issues, ∃ other ∈ merged,
    mergeKey other.toReviewIssueRecord = mergeKey issue.toReviewIssueRecord

theorem severityRank_le (severity : Text) : severityRank severity ≤ 3 := by
  unfold severityRank
  split
  next => exact le_rfl
  next =>
    split
    next => decide
    next =>
      split
      next => decide
      next => decide

theorem mergeIssue_cases (name : Text) (issue : RatedIssue) (merged : List RatedIssue) :
    ((∀ other ∈ merged, mergeKey other.toReviewIssueRecord ≠ mergeKey issue.toReviewIssueRecord) ∧
      mergeIssue name issue merged =
        merged ++ [{ issue with perspectives := addPerspective issue.perspectives name }]) ∨
    ∃ front existing back, merged = front ++ existing :: back ∧
      mergeKey existing.toReviewIssueRecord = mergeKey issue.toReviewIssueRecord ∧
      mergeIssue name issue merged = front ++ combineIssues name existing issue :: back := by
  induction merged with
  | nil => exact .inl ⟨by simp, rfl⟩
  | cons existing rest ih =>
    rw [mergeIssue]
    split
    next hkey => exact .inr ⟨[], existing, rest, rfl, hkey, rfl⟩
    next hkey =>
      rcases ih with ⟨hnew, heq⟩ | ⟨front, other, back, rfl, hother, heq⟩
      · left
        refine ⟨?_, by rw [heq, List.cons_append]⟩
        intro other hother
        rcases List.mem_cons.mp hother with rfl | hrest
        · exact hkey
        · exact hnew other hrest
      · right
        exact ⟨existing :: front, other, back, rfl, hother, by rw [heq, List.cons_append]⟩

theorem sameIssue_combineIssues (name : Text) {existing : RatedIssue}
    (horigin : SameIssue existing origin) :
    SameIssue (combineIssues name existing issue) (lesser rankBelow (some origin) issue) := by
  have hrank : rankBelow issue < rankBelow origin ↔
      severityRank existing.severity < severityRank issue.severity := by
    have hfirst := severityRank_le issue.severity
    have hsecond := severityRank_le origin.severity
    unfold rankBelow
    rw [horigin.2]
    omega
  unfold combineIssues lesser
  dsimp only
  by_cases hless : severityRank existing.severity < severityRank issue.severity
  · rw [if_pos hless, if_pos (hrank.mpr hless)]
    exact ⟨rfl, rfl⟩
  · rw [if_neg hless, if_neg (mt hrank.mp hless)]
    exact horigin

theorem mergeKey_lesser
    (hkey : mergeKey origin.toReviewIssueRecord = mergeKey issue.toReviewIssueRecord) :
    mergeKey (lesser rankBelow (some origin) issue).toReviewIssueRecord =
      mergeKey issue.toReviewIssueRecord := by
  unfold lesser
  dsimp only
  split
  next => rfl
  next => exact hkey

theorem SameIssue.mergeKey_eq (hsame : SameIssue issue other) :
    mergeKey issue.toReviewIssueRecord = mergeKey other.toReviewIssueRecord := by
  rw [hsame.1]

theorem SameIssue.isBlocking_eq (hsame : SameIssue issue other) :
    issue.isBlocking = other.isBlocking := by
  unfold RatedIssue.isBlocking
  rw [hsame.2]

theorem sameMergeKey_congr
    (hkey : mergeKey issue.toReviewIssueRecord = mergeKey other.toReviewIssueRecord) :
    sameMergeKey issue = sameMergeKey other := by
  funext candidate
  unfold sameMergeKey
  rw [hkey]

theorem MergeOf.mergeIssue (hmerge : MergeOf issues merged) (name : Text) (issue : RatedIssue) :
    MergeOf (issues ++ [issue]) (mergeIssue name issue merged) := by
  have hskip : ∀ {other : RatedIssue},
      mergeKey other.toReviewIssueRecord ≠ mergeKey issue.toReviewIssueRecord →
      (issues ++ [issue]).filter (sameMergeKey other) = issues.filter (sameMergeKey other) := by
    intro other hother
    rw [List.filter_append, List.filter_cons_of_neg, List.filter_nil, List.append_nil]
    simpa [sameMergeKey] using hother.symm
  have htake : ∀ {other : RatedIssue},
      mergeKey other.toReviewIssueRecord = mergeKey issue.toReviewIssueRecord →
      (issues ++ [issue]).filter (sameMergeKey other) =
        issues.filter (sameMergeKey other) ++ [issue] := by
    intro other hother
    rw [List.filter_append, List.filter_cons_of_pos, List.filter_nil]
    simpa [sameMergeKey] using hother.symm
  rcases mergeIssue_cases name issue merged with
    ⟨hnew, heq⟩ | ⟨front, existing, back, rfl, hkey, heq⟩
  · rw [heq]
    refine ⟨?_, ?_, ?_⟩
    · rw [List.map_append, List.map_singleton, List.nodup_append]
      refine ⟨hmerge.nodup, List.nodup_singleton _, ?_⟩
      intro key hmem other hother
      obtain ⟨old, hold, rfl⟩ := List.mem_map.mp hmem
      rw [List.mem_singleton.mp hother]
      exact hnew old hold
    · intro other hother
      rcases List.mem_append.mp hother with hold | hlast
      · obtain ⟨origin, hsame, hbest⟩ := hmerge.best other hold
        exact ⟨origin, hsame, by rwa [hskip (hnew other hold)]⟩
      · rw [List.mem_singleton.mp hlast]
        refine ⟨issue, ⟨rfl, rfl⟩, ?_⟩
        have hnone : issues.filter (sameMergeKey issue) = [] := by
          apply List.filter_eq_nil_iff.mpr
          intro candidate hcandidate hsame
          obtain ⟨kept, hkept, hkeptKey⟩ := hmerge.covers candidate hcandidate
          exact hnew kept hkept (hkeptKey.trans (of_decide_eq_true hsame))
        have hgroup : sameMergeKey { issue with
            perspectives := addPerspective issue.perspectives name } = sameMergeKey issue :=
          sameMergeKey_congr rfl
        rw [hgroup, htake rfl, hnone]
        exact isFirstLeast_singleton issue
    · intro candidate hcandidate
      rcases List.mem_append.mp hcandidate with hold | hlast
      · obtain ⟨kept, hkept, hkeptKey⟩ := hmerge.covers candidate hold
        exact ⟨kept, List.mem_append_left _ hkept, hkeptKey⟩
      · rw [List.mem_singleton.mp hlast]
        exact ⟨_, List.mem_append_right _ (List.mem_singleton.mpr rfl), rfl⟩
  · rw [heq]
    obtain ⟨origin, hsame, hbest⟩ := hmerge.best existing (List.mem_append_right _ (.head _))
    have hcombined : SameIssue (combineIssues name existing issue)
        (lesser rankBelow (some origin) issue) := sameIssue_combineIssues name hsame
    have horiginKey : mergeKey origin.toReviewIssueRecord = mergeKey issue.toReviewIssueRecord :=
      hsame.mergeKey_eq.symm.trans hkey
    have hcombinedKey : mergeKey (combineIssues name existing issue).toReviewIssueRecord =
        mergeKey existing.toReviewIssueRecord := by
      rw [hcombined.mergeKey_eq, mergeKey_lesser horiginKey, hkey]
    have hkeys : (front ++ combineIssues name existing issue :: back).map
        (fun issue => mergeKey issue.toReviewIssueRecord) =
        (front ++ existing :: back).map fun issue => mergeKey issue.toReviewIssueRecord := by
      rw [List.map_append, List.map_append, List.map_cons, List.map_cons, hcombinedKey]
    refine ⟨?_, ?_, ?_⟩
    · rw [hkeys]
      exact hmerge.nodup
    · intro other hother
      rw [List.mem_append, List.mem_cons] at hother
      have hrest : other ∈ front ++ back → ∃ origin, SameIssue other origin ∧
          IsFirstLeast rankBelow ((issues ++ [issue]).filter (sameMergeKey other)) origin := by
        intro hmem
        -- The keys of the other ones are different, since the keys are distinct.
        have hne : mergeKey other.toReviewIssueRecord ≠ mergeKey issue.toReviewIssueRecord := by
          have hnodup := hmerge.nodup
          rw [List.map_append, List.map_cons, List.nodup_middle, List.nodup_cons,
            ← List.map_append] at hnodup
          intro hsameKey
          apply hnodup.1
          rw [hkey, ← hsameKey]
          exact List.mem_map_of_mem (f := fun issue : RatedIssue =>
            mergeKey issue.toReviewIssueRecord) hmem
        have hold : other ∈ front ++ existing :: back := by
          rcases List.mem_append.mp hmem with hfront | hback
          · exact List.mem_append_left _ hfront
          · exact List.mem_append_right _ (.tail _ hback)
        obtain ⟨origin, hotherSame, hotherBest⟩ := hmerge.best other hold
        exact ⟨origin, hotherSame, by rwa [hskip hne]⟩
      rcases hother with hfront | rfl | hback
      · exact hrest (List.mem_append_left _ hfront)
      · refine ⟨_, hcombined, ?_⟩
        rw [htake (hcombinedKey.trans hkey), sameMergeKey_congr hcombinedKey]
        exact hbest.lesser (isFirstLeast_singleton issue)
      · exact hrest (List.mem_append_right _ hback)
    · have hcovered : ∀ candidate : RatedIssue, (∃ other ∈ front ++ existing :: back,
          mergeKey other.toReviewIssueRecord = mergeKey candidate.toReviewIssueRecord) →
          ∃ other ∈ front ++ combineIssues name existing issue :: back,
            mergeKey other.toReviewIssueRecord = mergeKey candidate.toReviewIssueRecord := by
        rintro candidate ⟨other, hother, hotherKey⟩
        have hmem := List.mem_map_of_mem (f := fun issue : RatedIssue =>
          mergeKey issue.toReviewIssueRecord) hother
        rw [← hkeys] at hmem
        obtain ⟨kept, hkept, hkeptKey⟩ := List.mem_map.mp hmem
        exact ⟨kept, hkept, hkeptKey.trans hotherKey⟩
      intro candidate hcandidate
      rcases List.mem_append.mp hcandidate with hold | hlast
      · exact hcovered candidate (hmerge.covers candidate hold)
      · rw [List.mem_singleton.mp hlast]
        exact hcovered issue ⟨existing, List.mem_append_right _ (.head _), hkey⟩

theorem MergeOf.foldl (hmerge : MergeOf issues merged) (name : Text) (more : List RatedIssue) :
    MergeOf (issues ++ more)
      (more.foldl (fun merged issue => Review.mergeIssue name issue merged) merged) := by
  induction more generalizing issues merged with
  | nil => rwa [List.append_nil]
  | cons issue rest ih =>
    rw [List.append_cons]
    exact ih (hmerge.mergeIssue name issue)

theorem MergeOf.map_orderPerspectives (hmerge : MergeOf issues merged) :
    MergeOf issues (merged.map orderPerspectives) := by
  refine ⟨?_, ?_, ?_⟩
  · rw [List.map_map]
    exact hmerge.nodup
  · intro issue hissue
    obtain ⟨source, hsource, rfl⟩ := List.mem_map.mp hissue
    obtain ⟨origin, hsame, hbest⟩ := hmerge.best source hsource
    exact ⟨origin, hsame, hbest⟩
  · intro issue hissue
    obtain ⟨other, hother, hkey⟩ := hmerge.covers issue hissue
    exact ⟨orderPerspectives other, List.mem_map_of_mem hother, hkey⟩

theorem mergeOf_foldl_passes (passes : List (ReviewPerspective × List RatedIssue))
    (hmerge : MergeOf issues merged) :
    MergeOf (issues ++ allIssues passes)
      (passes.foldl (fun merged (perspective, issues) =>
        issues.foldl (fun merged issue => mergeIssue perspective.name issue merged) merged)
          merged) := by
  induction passes generalizing issues merged with
  | nil => rwa [allIssues, List.flatMap_nil, List.append_nil]
  | cons pass rest ih =>
    rw [allIssues, List.flatMap_cons, ← List.append_assoc]
    exact ih (hmerge.foldl pass.1.name pass.2)

theorem mergeOf_mergePerspectiveIssues
    (perPerspective : List (ReviewPerspective × List RatedIssue)) :
    MergeOf (allIssues perPerspective) (mergePerspectiveIssues perPerspective) := by
  have hempty : MergeOf [] [] := ⟨List.nodup_nil, by simp, by simp⟩
  exact (mergeOf_foldl_passes perPerspective hempty).map_orderPerspectives

/-! ## Groups -/

theorem severityRank_eq_three {severity : Text} :
    severityRank severity = 3 ↔ severity = errorSeverity := by
  unfold severityRank
  split
  next heq => exact ⟨fun _ => heq, fun _ => rfl⟩
  next hne =>
    constructor
    · intro hrank
      split at hrank
      next => contradiction
      next =>
        split at hrank
        next => contradiction
        next => contradiction
    · intro heq
      exact absurd heq hne

theorem severityRank_pos {severity : Text} : 0 < severityRank severity ↔
    severity = errorSeverity ∨ severity = warningSeverity ∨ severity = infoSeverity := by
  unfold severityRank
  split
  next heq => exact ⟨fun _ => .inl heq, fun _ => by decide⟩
  next herror =>
    split
    next heq => exact ⟨fun _ => .inr (.inl heq), fun _ => by decide⟩
    next hwarning =>
      split
      next heq => exact ⟨fun _ => .inr (.inr heq), fun _ => by decide⟩
      next hinfo =>
        constructor
        · intro hpos
          exact absurd hpos (lt_irrefl 0)
        · rintro (heq | heq | heq)
          · exact absurd heq herror
          · exact absurd heq hwarning
          · exact absurd heq hinfo

theorem severityRank_critical : severityRank criticalSeverity = 0 := by decide

theorem isBlocking_iff : issue.isBlocking = true ↔
    issue.severity = errorSeverity ∨ issue.severity = criticalSeverity := by
  unfold RatedIssue.isBlocking
  rw [Bool.or_eq_true, decide_eq_true_eq, decide_eq_true_eq]

theorem best_blocking_iff {group : List RatedIssue} {best : RatedIssue}
    (hbest : IsFirstLeast rankBelow group best) :
    (best.isBlocking = true ↔ ∃ issue ∈ group, issue.isBlocking = true) ↔ CriticalShows group := by
  have hrank : ∀ issue ∈ group, severityRank issue.severity ≤ severityRank best.severity := by
    intro issue hissue
    have hle := hbest.le hissue
    have hfirst := severityRank_le issue.severity
    have hsecond := severityRank_le best.severity
    unfold rankBelow at hle
    omega
  by_cases herror : ∃ issue ∈ group, issue.severity = errorSeverity
  · -- An error has the highest rank.
    obtain ⟨issue, hissue, hseverity⟩ := herror
    have hbestError : best.severity = errorSeverity := by
      apply severityRank_eq_three.mp
      have hle := hrank issue hissue
      rw [severityRank_eq_three.mpr hseverity] at hle
      exact le_antisymm (severityRank_le _) hle
    have hblocking := isBlocking_iff.mpr (.inl hbestError)
    constructor
    · intro _ _
      exact .inl ⟨issue, hissue, hseverity⟩
    · intro _
      exact ⟨fun _ => ⟨best, hbest.mem, hblocking⟩, fun _ => hblocking⟩
  · have hcritical :
      ∀ issue ∈ group, issue.isBlocking = true ↔ issue.severity = criticalSeverity := by
      intro issue hissue
      rw [isBlocking_iff]
      constructor
      · rintro (heq | heq)
        · exact absurd ⟨issue, hissue, heq⟩ herror
        · exact heq
      · exact .inr
    have hgroup : (∃ issue ∈ group, issue.isBlocking = true) ↔
        ∃ issue ∈ group, issue.severity = criticalSeverity := by
      constructor
      · rintro ⟨issue, hissue, hblocking⟩
        exact ⟨issue, hissue, (hcritical issue hissue).mp hblocking⟩
      · rintro ⟨issue, hissue, heq⟩
        exact ⟨issue, hissue, (hcritical issue hissue).mpr heq⟩
    rw [hcritical best hbest.mem, hgroup]
    constructor
    · rintro hkept hsome
      right
      have hbestCritical := hkept.mpr hsome
      have hzero : ∀ issue ∈ group, severityRank issue.severity = 0 := by
        intro issue hissue
        have hle := hrank issue hissue
        rw [hbestCritical, severityRank_critical] at hle
        exact Nat.le_zero.mp hle
      constructor
      · obtain ⟨front, back, rfl, hfront, _⟩ := hbest
        cases front with
        | nil => exact congrArg some hbestCritical
        | cons other rest =>
          have hless := hfront other (.head _)
          unfold rankBelow at hless
          rw [hzero other (.head _), hbestCritical, severityRank_critical] at hless
          exact absurd hless (lt_irrefl _)
      · intro issue hissue
        have hnot := mt severityRank_pos.mpr (by rw [hzero issue hissue]; exact lt_irrefl 0)
        push Not at hnot
        exact ⟨hnot.2.1, hnot.2.2⟩
    · intro hshows
      constructor
      · intro heq
        exact ⟨best, hbest.mem, heq⟩
      · intro hsome
        rcases hshows hsome with hnone | ⟨hhead, hquiet⟩
        · exact absurd hnone herror
        · have hzero : ∀ issue ∈ group, severityRank issue.severity = 0 := by
            intro issue hissue
            by_contra hpos
            rcases severityRank_pos.mp (Nat.pos_of_ne_zero hpos) with heq | heq | heq
            · exact herror ⟨issue, hissue, heq⟩
            · exact (hquiet issue hissue).1 heq
            · exact (hquiet issue hissue).2 heq
          obtain ⟨front, back, rfl, hfront, _⟩ := hbest
          cases front with
          | nil => exact Option.some.inj hhead
          | cons other rest =>
            have hless := hfront other (.head _)
            unfold rankBelow at hless
            rw [hzero other (.head _), hzero best (List.mem_append_right _
              (.head _))] at hless
            exact absurd hless (lt_irrefl _)

/-! ## The merge -/

theorem SameIssue.issueKey_eq (hsame : SameIssue issue other) :
    issueKey issue.toReviewIssueRecord = issueKey other.toReviewIssueRecord := by
  rw [hsame.1]

theorem mem_group (hbest : IsFirstLeast rankBelow (issues.filter (sameMergeKey issue)) origin) :
    origin ∈ issues ∧ mergeKey origin.toReviewIssueRecord = mergeKey issue.toReviewIssueRecord := by
  obtain ⟨hmem, hkey⟩ := List.mem_filter.mp hbest.mem
  exact ⟨hmem, of_decide_eq_true hkey⟩

theorem onePerKey_of_keysAgree (hmerge : MergeOf issues merged) (hagree : KeysAgree issues) :
    OnePerKey issues merged := by
  constructor
  · have hnodup := List.pairwise_map.mp hmerge.nodup
    apply List.pairwise_map.mpr
    refine hnodup.imp_of_mem ?_
    intro issue other hissue hother hne hkey
    obtain ⟨first, hfirst, hfirstBest⟩ := hmerge.best issue hissue
    obtain ⟨second, hsecond, hsecondBest⟩ := hmerge.best other hother
    apply hne
    rw [hfirst.mergeKey_eq, hsecond.mergeKey_eq]
    apply (hagree first (mem_group hfirstBest).1 second (mem_group hsecondBest).1).mpr
    rw [← hfirst.issueKey_eq, ← hsecond.issueKey_eq]
    exact hkey
  · intro key
    constructor
    · intro hmem
      obtain ⟨issue, hissue, rfl⟩ := List.mem_map.mp hmem
      obtain ⟨origin, hsame, hbest⟩ := hmerge.best issue hissue
      exact List.mem_map.mpr ⟨origin, (mem_group hbest).1, hsame.issueKey_eq.symm⟩
    · intro hmem
      obtain ⟨issue, hissue, rfl⟩ := List.mem_map.mp hmem
      obtain ⟨other, hother, hkey⟩ := hmerge.covers issue hissue
      obtain ⟨origin, hsame, hbest⟩ := hmerge.best other hother
      refine List.mem_map.mpr ⟨other, hother, ?_⟩
      rw [hsame.issueKey_eq]
      apply (hagree origin (mem_group hbest).1 issue hissue).mp
      rw [← hsame.mergeKey_eq, hkey]

theorem groups_eq (hagree : KeysAgree issues) (hissue : issue ∈ issues)
    (hkey : mergeKey other.toReviewIssueRecord = mergeKey issue.toReviewIssueRecord) :
    issues.filter (sameMergeKey other) = issues.filter (sameIssueKey issue) := by
  apply List.filter_congr
  intro candidate hcandidate
  unfold sameMergeKey sameIssueKey
  rw [hkey]
  exact decide_eq_decide.mpr (hagree candidate hcandidate issue hissue)

theorem blockingKept_iff (hmerge : MergeOf issues merged) (hagree : KeysAgree issues) :
    BlockingKept issues merged ↔ CriticalsShow issues := by
  have hgroup : ∀ {issue : RatedIssue}, (∃ other ∈ issues,
      issueKey other.toReviewIssueRecord = issueKey issue.toReviewIssueRecord ∧
        other.isBlocking = true) ↔
      ∃ other ∈ issues.filter (sameIssueKey issue), other.isBlocking = true := by
    intro issue
    constructor
    · rintro ⟨other, hother, hkey, hblocking⟩
      exact ⟨other, List.mem_filter.mpr ⟨hother, decide_eq_true hkey⟩, hblocking⟩
    · rintro ⟨other, hother, hblocking⟩
      obtain ⟨hmem, hkey⟩ := List.mem_filter.mp hother
      exact ⟨other, hmem, of_decide_eq_true hkey, hblocking⟩
  have hcongr : ∀ {issue origin : RatedIssue}, SameIssue issue origin →
      sameIssueKey issue = sameIssueKey origin := by
    intro issue origin hsame
    funext candidate
    unfold sameIssueKey
    rw [hsame.issueKey_eq]
  constructor
  · intro hkept issue hissue
    obtain ⟨other, hother, hkey⟩ := hmerge.covers issue hissue
    obtain ⟨origin, hsame, hbest⟩ := hmerge.best other hother
    have horigin := mem_group hbest
    have hfilter := groups_eq hagree hissue (horigin.2.trans hkey)
    have hown : issues.filter (sameMergeKey origin) = issues.filter (sameIssueKey origin) :=
      groups_eq hagree horigin.1 rfl
    rw [groups_eq hagree hissue hkey] at hbest
    apply (best_blocking_iff hbest).mp
    have hresult := hkept other hother
    rw [hgroup, hcongr hsame, ← hown, hfilter, hsame.isBlocking_eq] at hresult
    exact hresult
  · intro hshow issue hissue
    obtain ⟨origin, hsame, hbest⟩ := hmerge.best issue hissue
    have horigin := mem_group hbest
    rw [groups_eq hagree horigin.1 horigin.2.symm] at hbest
    rw [hgroup, hcongr hsame, hsame.isBlocking_eq]
    exact (best_blocking_iff hbest).mpr (hshow origin horigin.1)

theorem onePerKey_pair_iff (first second : ReviewPerspective) (issue other : RatedIssue) :
    OnePerKey [issue, other] (mergePerspectiveIssues [(first, [issue]), (second, [other])]) ↔
      (mergeKey issue.toReviewIssueRecord = mergeKey other.toReviewIssueRecord ↔
        issueKey issue.toReviewIssueRecord = issueKey other.toReviewIssueRecord) := by
  have hmerge := mergeOf_mergePerspectiveIssues [(first, [issue]), (second, [other])]
  constructor
  · rintro ⟨hnodup, hcovers⟩
    constructor
    · intro hkey
      -- One issue is left, and both keys are its own.
      have hone : (mergePerspectiveIssues [(first, [issue]), (second, [other])]).length = 1 := by
        unfold mergePerspectiveIssues
        simp [mergeIssue, show mergeKey issue.toReviewIssueRecord =
          mergeKey other.toReviewIssueRecord from hkey]
      obtain ⟨kept, hkept⟩ := List.length_eq_one_iff.mp hone
      rw [hkept] at hcovers
      have hfirst := (hcovers (issueKey issue.toReviewIssueRecord)).mpr (.head _)
      have hsecond := (hcovers (issueKey other.toReviewIssueRecord)).mpr
        (.tail _ (.head _))
      rw [List.map_singleton, List.mem_singleton] at hfirst hsecond
      rw [hfirst, hsecond]
    · intro hkey
      by_contra hne
      have htwo : (mergePerspectiveIssues [(first, [issue]), (second, [other])]).map
          (fun issue => issueKey issue.toReviewIssueRecord) =
          [issueKey issue.toReviewIssueRecord, issueKey other.toReviewIssueRecord] := by
        unfold mergePerspectiveIssues
        simp [mergeIssue, show ¬ mergeKey issue.toReviewIssueRecord =
          mergeKey other.toReviewIssueRecord from hne, orderPerspectives]
      rw [htwo, hkey] at hnodup
      exact (List.nodup_cons.mp hnodup).1 (.head _)
  · intro hagree
    apply onePerKey_of_keysAgree hmerge
    intro a ha b hb
    have hmembers : allIssues [(first, [issue]), (second, [other])] = [issue, other] := rfl
    rw [hmembers] at ha hb
    simp only [List.mem_cons, List.not_mem_nil, or_false] at ha hb
    rcases ha with rfl | rfl <;> rcases hb with rfl | rfl
    · exact ⟨fun _ => rfl, fun _ => rfl⟩
    · exact hagree
    · exact ⟨fun hkey => (hagree.mp hkey.symm).symm, fun hkey => (hagree.mpr hkey.symm).symm⟩
    · exact ⟨fun _ => rfl, fun _ => rfl⟩

/-- Where the keys agree, there is one issue for each key, blocking like its group, exactly if
critical issues show; and two issues are kept right exactly if their keys agree. -/
theorem merge_survives_iff (perPerspective : List (ReviewPerspective × List RatedIssue))
    (first second : ReviewPerspective) (issue other : RatedIssue) :
    let issues := allIssues perPerspective
    let merged := mergePerspectiveIssues perPerspective
    (KeysAgree issues →
      (OnePerKey issues merged ∧ BlockingKept issues merged ↔ CriticalsShow issues)) ∧
    (OnePerKey [issue, other] (mergePerspectiveIssues [(first, [issue]), (second, [other])]) ↔
      KeysAgree [issue, other]) := by
  intro issues merged
  constructor
  · intro hagree
    have hmerge := mergeOf_mergePerspectiveIssues perPerspective
    rw [blockingKept_iff hmerge hagree, and_iff_right (onePerKey_of_keysAgree hmerge hagree)]
  · rw [onePerKey_pair_iff]
    unfold KeysAgree
    simp only [List.mem_cons, List.not_mem_nil, or_false, forall_eq_or_imp, forall_eq, true_and,
      and_true]
    constructor
    · intro hagree
      exact ⟨hagree, eq_comm.trans (hagree.trans eq_comm)⟩
    · exact fun hboth => hboth.1

section Samples

def ratedIssue (severity rule : Text) (ruleId : Option Text) : RatedIssue where
  rule := rule
  ruleId := ruleId
  message := []
  file := some "f.rs"
  line := some 1
  suggestion := none
  severity := severity
  perspectives := []

/-- A warning takes the place of a critical issue, and a blank id takes the place of two rules. -/
theorem critical_issue_lost : countBlocking (mergePerspectiveIssues
        [(.safety, [ratedIssue criticalSeverity ['r'] none]),
          (.style, [ratedIssue warningSeverity ['r'] none])]) = (0, 1) ∧
      ¬ OnePerKey [ratedIssue errorSeverity ['r'] (some []),
        ratedIssue errorSeverity ['s'] (some [])]
        (mergePerspectiveIssues [(.safety, [ratedIssue errorSeverity ['r'] (some [])]),
          (.style, [ratedIssue errorSeverity ['s'] (some [])])]) := by
  constructor
  · decide
  · rintro ⟨_, hcovers⟩
    have hlost :=
      (hcovers (issueKey (ratedIssue errorSeverity ['s'] (some [])).toReviewIssueRecord)).mpr
      (by decide)
    revert hlost
    decide

end Samples

end Difflore.Review

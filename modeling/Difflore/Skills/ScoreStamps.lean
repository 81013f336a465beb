import Difflore.Context.SyncConvergence
import Difflore.Skills.Remember
import Mathlib.Tactic.Linarith

/-! # Scores and the evidence of tags

A sync and the backfill replace a score that looks like the default by the evidence that the tags of
a rule carry. Evidence in the range of the default is the default, so a score that was replaced does
not come back.
-/

namespace Difflore.Skills

open Foundation Infra Context

variable (library : RememberLibrary)

variable {stamps : List (Option Rat)} {tags : Option Text}

def InRange (score : Rat) : Prop := 0 ≤ score ∧ score ≤ 1

def LooksDefault (score : Rat) : Prop := |score - 7 / 10| < 1 / 1000

/-- The tags carry no evidence that a backfill would put in the place of the score. -/
def TagsAgree (score : Rat) (tags : Text) : Prop :=
  |score - 7 / 10| ≤ 1 / 1000 →
    ∀ evidence ∈ confidenceFromTags library.toLibrary tags, |evidence - score| < 1 / 1000

def evidenceOf (rule : SyncedRule) : Option Rat :=
  confidenceFromTags library.toLibrary (library.printStrings rule.tags)

def rulesOf (result : SyncResult) (id : Text) : List SyncedRule :=
  (result.steps.map SyncStep.rule).filter fun rule => rule.id = id

def activeTags (row : SkillRow) : Option Text :=
  if row.status = .active then some row.tags else none

/-- The tags that a backfill reads after rules were stored onto the row. -/
def tagsAfter (rules : List SyncedRule) (row : SkillRow) : Option Text :=
  match rules.getLast?, row.ofSync with
  | some rule, true => some (library.printStrings rule.tags)
  | _, _ => activeTags row

/-- A score in range that is the default, or differs from it by a step. -/
def IsEvidence (score : Rat) : Prop := InRange score ∧ (score = 7 / 10 ∨ 1 / 20 ≤ |score - 7 / 10|)

instance (score : Rat) : Decidable (IsEvidence score) := inferInstanceAs (Decidable ((_ ∧ _) ∧ _))

def baseScores : List Rat := [11 / 20, 7 / 10, 4 / 5, 9 / 10, 2 / 5]

theorem mem_baseScores (evidence : TagEvidence) : evidence.baseScore ∈ baseScores := by
  unfold TagEvidence.baseScore
  split
  · split_ifs <;> decide +kernel
  · split <;> decide +kernel

theorem isEvidence_base : ∀ base ∈ baseScores, IsEvidence base ∧
    IsEvidence (min (base + 1 / 20) (19 / 20)) ∧ IsEvidence (max (base - 1 / 20) (2 / 5)) := by
  decide +kernel

theorem isEvidence_score (evidence : TagEvidence) : IsEvidence evidence.score := by
  obtain ⟨hbase, herror, hinfo⟩ := isEvidence_base _ (mem_baseScores evidence)
  unfold TagEvidence.score
  split
  · exact hbase
  · split_ifs
    · exact herror
    · exact hinfo
    · exact hbase

theorem isEvidence_confidenceFromTags {library : Library} {tags : Text} {score : Rat}
    (hscore : score ∈ confidenceFromTags library tags) : IsEvidence score := by
  unfold confidenceFromTags at hscore
  dsimp only at hscore
  split at hscore
  · contradiction
  · obtain ⟨_, _, hread⟩ := Option.bind_eq_some_iff.mp (Option.mem_def.mp hscore)
    split at hread
    · contradiction
    · exact Option.some.inj hread ▸ isEvidence_score _

theorem IsEvidence.eq_default {score : Rat} (hevidence : IsEvidence score)
    (hnear : |score - 7 / 10| ≤ 1 / 1000) : score = 7 / 10 := by
  rcases hevidence.2 with hdefault | hfar
  · exact hdefault
  · linarith

/-! ## Stamps -/

/-- A score that looks like the default is replaced by the evidence. -/
def stampScore (score : Rat) (evidence : Option Rat) : Rat :=
  if |score - 7 / 10| < 1 / 1000 then evidence.getD score else score

/-- The backfill replaces a score that looks like the default by evidence that differs from it. -/
def backfillScore (tags : Option Text) (score : Rat) : Rat :=
  if |score - 7 / 10| ≤ 1 / 1000 then
    ((tags.bind (confidenceFromTags library.toLibrary)).filter fun evidence =>
      1 / 1000 ≤ |evidence - score|).getD score
  else score

section Stamps

variable {score : Rat} {evidence : Option Rat}

theorem InRange.backfillScore (hrange : InRange score) :
    InRange (backfillScore library tags score) := by
  unfold Skills.backfillScore
  split
  · cases hread : (tags.bind (confidenceFromTags library.toLibrary)).filter fun evidence =>
        1 / 1000 ≤ |evidence - score| with
    | none => exact hrange
    | some e =>
      obtain ⟨hbind, -⟩ := Option.filter_eq_some_iff.mp hread
      obtain ⟨_, _, htags⟩ := Option.bind_eq_some_iff.mp hbind
      exact (isEvidence_confidenceFromTags htags).1
  · exact hrange

theorem backfillScore_eq_iff :
    backfillScore library tags score = score ↔ ∀ json ∈ tags, TagsAgree library score json := by
  unfold backfillScore TagsAgree
  split
  next hnear =>
    cases tags with
    | none => simp
    | some json =>
      simp only [Option.bind_some, Option.mem_some_iff, forall_eq', forall_prop_of_true hnear]
      cases hread : confidenceFromTags library.toLibrary json with
      | none => simp
      | some e =>
        simp only [Option.mem_some_iff, forall_eq']
        by_cases hfar : 1 / 1000 ≤ |e - score|
        · rw [Option.filter_some, if_pos (decide_eq_true hfar), Option.getD_some,
            iff_false_right (not_lt.mpr hfar)]
          rintro rfl
          norm_num at hfar
        · rw [Option.filter_some, if_neg (by simpa using hfar), Option.getD_none]
          exact iff_of_true rfl (not_le.mp hfar)
  next hfar => exact iff_of_true rfl fun _ _ hnear => absurd hnear hfar

theorem foldl_stampScore_ne {before : Rat} (hlooks : LooksDefault before)
    (hstamps : ∀ stamp ∈ stamps, ∀ e ∈ stamp, IsEvidence e) (hevidence : IsEvidence score)
    (hne : score ≠ before) :
    IsEvidence (stamps.foldl stampScore score) ∧ stamps.foldl stampScore score ≠ before := by
  induction stamps generalizing score with
  | nil => exact ⟨hevidence, hne⟩
  | cons stamp rest ih =>
    have hrest := fun later hlater => hstamps later (.tail _ hlater)
    rw [List.foldl_cons]
    unfold stampScore
    split
    next hnear =>
      cases stamp with
      | none => exact ih hrest hevidence hne
      | some e =>
        have he : IsEvidence e := hstamps _ (.head _) e rfl
        refine ih hrest he ?_
        -- Evidence that is the old score would be the default, which the score is already.
        rintro rfl
        exact hne ((hevidence.eq_default hnear.le).trans (he.eq_default hlooks.le).symm)
    next => exact ih hrest hevidence hne

theorem foldl_stampScore_of_not_looks (hlooks : ¬ LooksDefault score) (stamps : List (Option Rat)) :
    stamps.foldl stampScore score = score := by
  induction stamps with
  | nil => rfl
  | cons stamp rest ih =>
    have hstamp : stampScore score stamp = score := if_neg hlooks
    rw [List.foldl_cons, hstamp, ih]

theorem foldl_stampScore_eq_iff (hlooks : LooksDefault score)
    (hstamps : ∀ stamp ∈ stamps, ∀ e ∈ stamp, IsEvidence e) :
    stamps.foldl stampScore score = score ↔ ∀ stamp ∈ stamps, ∀ e ∈ stamp, e = score := by
  induction stamps with
  | nil => simp
  | cons stamp rest ih =>
    have hrest := fun later hlater => hstamps later (.tail _ hlater)
    have hstamp : stampScore score stamp = stamp.getD score := if_pos hlooks
    rw [List.foldl_cons, hstamp, List.forall_mem_cons]
    cases stamp with
    | none => simpa using ih hrest
    | some e =>
      rw [Option.getD_some]
      by_cases hsame : e = score
      · subst e
        simpa using ih hrest
      · have hevidence := hstamps _ (.head _) e rfl
        have hne := (foldl_stampScore_ne hlooks hrest hevidence hsame).2
        simp [hne, hsame]

theorem isEvidence_foldl_stampScore (hlooks : LooksDefault score)
    (hstamps : ∀ stamp ∈ stamps, ∀ e ∈ stamp, IsEvidence e)
    (hchanged : stamps.foldl stampScore score ≠ score) :
    IsEvidence (stamps.foldl stampScore score) := by
  induction stamps with
  | nil => exact absurd rfl hchanged
  | cons stamp rest ih =>
    have hrest := fun later hlater => hstamps later (.tail _ hlater)
    have hstamp : stampScore score stamp = stamp.getD score := if_pos hlooks
    rw [List.foldl_cons, hstamp] at hchanged ⊢
    cases stamp with
    | none => exact ih hrest hchanged
    | some e =>
      rw [Option.getD_some] at hchanged ⊢
      by_cases hsame : e = score
      · subst e
        exact ih hrest hchanged
      · exact (foldl_stampScore_ne hlooks hrest (hstamps _ (.head _) e rfl) hsame).1

theorem backfillScore_ne {before : Rat} (hlooks : LooksDefault before)
    (hevidence : IsEvidence score) (hne : score ≠ before) :
    backfillScore library tags score ≠ before := by
  unfold backfillScore
  split
  next hnear =>
    cases hread : (tags.bind (confidenceFromTags library.toLibrary)).filter fun evidence =>
        1 / 1000 ≤ |evidence - score| with
    | none => exact hne
    | some e =>
      obtain ⟨hbind, hfar⟩ := Option.filter_eq_some_iff.mp hread
      obtain ⟨_, _, htags⟩ := Option.bind_eq_some_iff.mp hbind
      rintro rfl
      exact hne ((hevidence.eq_default hnear).trans
        ((isEvidence_confidenceFromTags htags).eq_default hlooks.le).symm)
  next => exact hne

theorem restamped_eq_iff (hstamps : ∀ stamp ∈ stamps, ∀ e ∈ stamp, IsEvidence e) :
    backfillScore library tags (stamps.foldl stampScore score) = score ↔
      (LooksDefault score → ∀ stamp ∈ stamps, ∀ e ∈ stamp, e = score) ∧
        ∀ json ∈ tags, TagsAgree library score json := by
  by_cases hlooks : LooksDefault score
  · by_cases hsame : stamps.foldl stampScore score = score
    · rw [hsame, backfillScore_eq_iff]
      exact (and_iff_right fun _ => (foldl_stampScore_eq_iff hlooks hstamps).mp hsame).symm
    · have hevidence := isEvidence_foldl_stampScore hlooks hstamps hsame
      exact iff_of_false (backfillScore_ne library hlooks hevidence hsame) fun hagree =>
        hsame ((foldl_stampScore_eq_iff hlooks hstamps).mpr (hagree.1 hlooks))
  · rw [foldl_stampScore_of_not_looks hlooks, backfillScore_eq_iff]
    simp [hlooks]

end Stamps

/-! ## What a sync does to a row -/

section Sync

variable {library} {now : Stamp} {skills : SkillTable} {old row : SkillRow}

/-- The columns that decide about the score, when rules were stored onto a row. -/
structure SyncedOnto (library : RememberLibrary) (rules : List SyncedRule) (old row : SkillRow) :
    Prop where
  confidence : row.confidence = (rules.map (evidenceOf library)).foldl stampScore old.confidence
  source : row.source = old.source
  ofSync : row.ofSync = old.ofSync
  tags : activeTags row = tagsAfter library rules old

theorem find_stampConfidence (rule : SyncedRule) :
    (stampConfidence library.toLibrary rule skills).find rule.id =
      (skills.find rule.id).map fun row =>
        { row with confidence := stampScore row.confidence (evidenceOf library rule) } := by
  unfold stampConfidence evidenceOf
  split
  next hnone =>
    rw [hnone]
    refine Eq.trans Option.map_id'.symm (Option.map_congr fun row _ => ?_)
    rw [stampScore, Option.getD_none, ite_self]
  next confidence hsome =>
    rw [KeyedTable.find_update, hsome]
    refine Option.map_congr fun row hrow => ?_
    have hid := (KeyedTable.find_eq_some.mp hrow).2
    rw [decide_eq_true hid, Bool.true_and, stampScore, Option.getD_some]
    by_cases hlooks : |row.confidence - 7 / 10| < 1 / 1000
    · rw [if_pos (decide_eq_true hlooks), if_pos hlooks]
    · rw [if_neg (by simpa using hlooks), if_neg hlooks]

theorem syncedOnto_step (step : SyncStep) (hold : skills.find step.rule.id = some old) :
    ∃ row, (step.apply library.toLibrary now skills).find step.rule.id = some row ∧
      SyncedOnto library [step.rule] old row := by
  have hid : old.id = step.rule.id := (KeyedTable.find_eq_some.mp hold).2
  cases step with
  | created rule =>
    have hkey : rule.id = (rule.newRow library.toLibrary now).id := rfl
    rw [SyncStep.rule] at hid hold
    rw [SyncStep.apply, applyCreated, SyncStep.rule, find_stampConfidence,
      find_applyCloudSourceRepo, insertSynced, KeyedTable.find_upsert, if_pos hkey,
      KeyedTable.upserted, ← hkey, hold]
    refine ⟨_, rfl, ?_⟩
    have howns : rule.owns old = old.ofSync := owns_eq_ofSync hid
    simp only [Option.elim_some, howns]
    split
    next hsync => exact ⟨rfl, rfl, rfl, by rw [tagsAfter, hsync]; rfl⟩
    next hsync => exact ⟨rfl, rfl, rfl, by rw [tagsAfter, Bool.eq_false_iff.mpr hsync]; rfl⟩
  | updated rule =>
    rw [SyncStep.rule] at hid hold
    rw [SyncStep.apply, applyUpdated, SyncStep.rule, find_stampConfidence,
      find_applyCloudSourceRepo, updateSynced, KeyedTable.find_update, hold]
    refine ⟨_, rfl, ?_⟩
    have howns : rule.owns old = old.ofSync := owns_eq_ofSync hid
    simp only [decide_eq_true hid, Bool.true_and, howns]
    split
    next hsync => exact ⟨rfl, rfl, rfl, by rw [tagsAfter, hsync]; rfl⟩
    next hsync => exact ⟨rfl, rfl, rfl, by rw [tagsAfter, Bool.eq_false_iff.mpr hsync]; rfl⟩

theorem SyncedOnto.refl (row : SkillRow) : SyncedOnto library [] row row := ⟨rfl, rfl, rfl, rfl⟩

theorem SyncedOnto.cons {rule : SyncedRule} {rules : List SyncedRule} {middle : SkillRow}
    (hfirst : SyncedOnto library [rule] old middle) (hrest : SyncedOnto library rules middle row) :
    SyncedOnto library (rule :: rules) old row where
  confidence := by
    rw [hrest.confidence, hfirst.confidence]
    rfl
  source := hrest.source.trans hfirst.source
  ofSync := hrest.ofSync.trans hfirst.ofSync
  tags := by
    rw [hrest.tags, tagsAfter, tagsAfter, List.getLast?_cons, hfirst.ofSync, hfirst.tags, tagsAfter]
    cases rules.getLast? with
    | none => rfl
    | some last => cases old.ofSync <;> rfl

variable (library now) in
theorem syncedOnto_steps (steps : List SyncStep) {id : Text} (hold : skills.find id = some old) :
    ∃ row, (steps.foldl (SyncStep.apply library.toLibrary now) skills).find id = some row ∧
      SyncedOnto library ((steps.map SyncStep.rule).filter fun rule => rule.id = id) old row := by
  induction steps generalizing skills old with
  | nil => exact ⟨old, hold, .refl old⟩
  | cons step rest ih =>
    rw [List.foldl_cons, List.map_cons]
    by_cases hid : step.rule.id = id
    · subst id
      obtain ⟨middle, hmiddle, hfirst⟩ := syncedOnto_step step hold
      obtain ⟨row, hrow, hrest⟩ := ih hmiddle
      refine ⟨row, hrow, ?_⟩
      rw [List.filter_cons_of_pos (by simp)]
      exact hfirst.cons hrest
    · rw [List.filter_cons_of_neg (by simpa using hid)]
      exact ih ((step_find_other step hid).trans hold)

theorem find_deleted (ids : List Text) (id : Text) : (ids.foldl applyDeleted skills).find id =
      (skills.find id).filter fun row =>
        !(decide (id ∈ ids) && decide (row.source = cloudSource)) := by
  induction ids generalizing skills with
  | nil =>
    rw [List.foldl_nil]
    cases skills.find id with
    | none => rfl
    | some row => simp [Option.filter_some]
  | cons first rest ih =>
    ext row
    rw [List.foldl_cons, ih, applyDeleted, KeyedTable.find_delete]
    simp only [Option.filter_eq_some_iff, and_assoc]
    refine and_congr_right fun hrow => ?_
    rw [(KeyedTable.find_eq_some.mp hrow).2]
    by_cases hfirst : id = first
    · simpa [hfirst] using fun hsource => Or.inr hsource
    · simp [hfirst]

theorem find_backfillConfidence (id : Text) :
    (backfillConfidence library.toLibrary skills).find id = (skills.find id).map fun row =>
        { row with confidence := backfillScore library (activeTags row) row.confidence } := by
  rw [backfillConfidence, KeyedTable.find_update]
  refine Option.map_congr fun row _ => ?_
  unfold backfillScore activeTags
  by_cases hactive : row.status = .active
  · by_cases hnear : |row.confidence - 7 / 10| ≤ 1 / 1000
    · rw [decide_eq_true hactive, decide_eq_true hnear, if_pos hactive, if_pos hnear]
      rfl
    · rw [decide_eq_false hnear, Bool.and_false, if_neg hnear]
      rfl
  · rw [decide_eq_false hactive, Bool.false_and, if_neg hactive, Option.bind_none,
      Option.filter_none, Option.getD_none, ite_self]
    rfl

end Sync

end Difflore.Skills

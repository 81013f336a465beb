import Difflore.Export.Reexport

/-! # What a write of the block leaves

Outside the marked block a write keeps every character. A second run with the same block leaves
the file as it is, unless the block itself holds further markers.
-/

namespace Difflore.Export

open Foundation

/-- A request as its fields are documented: the block goes from its first marker to its last, and
carries the sentinel and the hash. -/
structure Delimited (req : MarkerBlockWrite) : Prop where
  enclosed : ∃ inner, req.block = enclose beginTag endTag inner
  sentinel : generatedBlockSentinel <:+: req.block
  contentHash : embeddedContentHash req.block = some req.contentHash

/-- The block is appended behind the whole content, or takes the place of the only one. -/
inductive Placed (block : Text) : Text → Text → Prop
  | appended {existing sep : Text} (hfree : Free markers existing)
      (hsep : sep = ['\n'] ∨ sep = ['\n', '\n']) :
      Placed block existing (existing ++ (sep ++ (block ++ ['\n'])))
  | replaced {file : Managed} (hfile : Generated file) :
      Placed block file.text (file.before ++ (block ++ file.after))

/-- What a run may do to its target; only a refusal gives a reason. -/
structure Framed (start : Target) (req : MarkerBlockWrite) (outcome : WriteOutcome)
    (written : Target) : Prop where
  untouched : outcome.action = .skipped ∨ outcome.action = .unchanged ∨ req.dryRun = true →
    written = start
  created : outcome.action = .created → req.dryRun = false →
    start = .missing ∧ written = .file (req.block ++ ['\n'])
  updated : outcome.action = .updated → req.dryRun = false → ∃ existing content,
    start = .file existing ∧ written = .file content ∧ Placed req.block existing content
  reason : outcome.action ≠ .skipped → outcome.reason = none

/-- Once a run that may write was not refused, the next one finds its block. -/
def Settles (req : MarkerBlockWrite) : Prop :=
  ∀ start outcome written, upsertMarkerBlock (.ok ()) start req = .ok (outcome, written) →
    outcome.action ≠ .skipped →
    upsertMarkerBlock (.ok ()) written req = .ok (.ok .unchanged, written)

variable {req : MarkerBlockWrite} {start written : Target} {outcome : WriteOutcome}

theorem placed_appendBlock {existing : Text} (hfree : Free markers existing) :
    Placed req.block existing (appendBlock req existing) := by
  unfold appendBlock
  split
  next =>
    have hplaced : Placed req.block existing (existing ++ (['\n'] ++ (req.block ++ ['\n']))) :=
      .appended hfree (.inl rfl)
    simpa using hplaced
  next =>
    have hplaced : Placed req.block existing
        (existing ++ (['\n', '\n'] ++ (req.block ++ ['\n']))) := .appended hfree (.inr rfl)
    simpa using hplaced

theorem placed_of_plan {existing content : Text} (hplan : plan req existing = .write content) :
    Placed req.block existing content := by
  have haccepted : ∀ reason, plan req existing ≠ .skip reason := by
    intro reason hskip
    rw [hplan] at hskip
    contradiction
  rcases accepted_cases haccepted with ⟨hfree, hwrite⟩ | ⟨file, rfl, hfile⟩
  · rw [hwrite] at hplan
    exact Plan.write.inj hplan ▸ placed_appendBlock hfree
  · rw [plan_generated hfile] at hplan
    split at hplan
    next => contradiction
    next => exact Plan.write.inj hplan ▸ .replaced hfile

theorem writeTarget_eq_ok {disk : Except Text Unit} {action : WriteAction} {content : Text}
    (hrun : writeTarget disk req start action content = .ok (outcome, written)) :
    outcome = .ok action ∧ (req.dryRun = true → written = start) ∧
      (req.dryRun = false → written = .file content) := by
  unfold writeTarget at hrun
  split at hrun
  next hdry =>
    obtain ⟨rfl, rfl⟩ := Prod.mk.inj (Except.ok.inj hrun)
    exact ⟨rfl, fun _ => rfl, fun hwet => absurd hdry (by simp [hwet])⟩
  next hwet =>
    cases disk with
    | error _ => contradiction
    | ok _ =>
      obtain ⟨rfl, rfl⟩ := Prod.mk.inj (Except.ok.inj hrun)
      exact ⟨rfl, fun hdry => absurd hdry hwet, fun _ => rfl⟩

theorem framed_of_still (hstill : written = start)
    (haction : outcome.action = .skipped ∨ outcome = .ok .unchanged) :
    Framed start req outcome written where
  untouched _ := hstill
  created hcreated := by
    rcases haction with hskipped | rfl
    · simp [hcreated] at hskipped
    · contradiction
  updated hupdated := by
    rcases haction with hskipped | rfl
    · simp [hupdated] at hskipped
    · contradiction
  reason hkept := by
    rcases haction with hskipped | rfl
    · exact absurd hskipped hkept
    · rfl

theorem framed_of_upsert {disk : Except Text Unit}
    (hrun : upsertMarkerBlock disk start req = .ok (outcome, written)) :
    Framed start req outcome written := by
  cases start with
  | symlink =>
    obtain ⟨rfl, rfl⟩ := Prod.mk.inj (Except.ok.inj hrun)
    exact framed_of_still rfl (.inl rfl)
  | directory =>
    obtain ⟨rfl, rfl⟩ := Prod.mk.inj (Except.ok.inj hrun)
    exact framed_of_still rfl (.inl rfl)
  | unreadable error =>
    obtain ⟨rfl, rfl⟩ := Prod.mk.inj (Except.ok.inj hrun)
    exact framed_of_still rfl (.inl rfl)
  | unstattable error => contradiction
  | missing =>
    obtain ⟨rfl, hdry, hwet⟩ := writeTarget_eq_ok hrun
    constructor
    · rintro (hskipped | hunchanged | hisDry)
      · contradiction
      · contradiction
      · exact hdry hisDry
    · exact fun _ hisWet => ⟨rfl, hwet hisWet⟩
    · exact fun hupdated => by contradiction
    · exact fun _ => rfl
  | file existing =>
    unfold upsertMarkerBlock at hrun
    cases hplan : plan req existing with
    | skip reason =>
      simp only [hplan] at hrun
      obtain ⟨rfl, rfl⟩ := Prod.mk.inj (Except.ok.inj hrun)
      exact framed_of_still rfl (.inl rfl)
    | unchanged =>
      simp only [hplan] at hrun
      obtain ⟨rfl, rfl⟩ := Prod.mk.inj (Except.ok.inj hrun)
      exact framed_of_still rfl (.inr rfl)
    | write content =>
      simp only [hplan] at hrun
      obtain ⟨rfl, hdry, hwet⟩ := writeTarget_eq_ok hrun
      constructor
      · rintro (hskipped | hunchanged | hisDry)
        · contradiction
        · contradiction
        · exact hdry hisDry
      · exact fun hcreated => by contradiction
      · exact fun _ hisWet => ⟨existing, content, rfl, hwet hisWet, placed_of_plan hplan⟩
      · exact fun _ => rfl

theorem settles_of_free (hdelimited : Delimited req) (hwet : req.dryRun = false)
    (hfree : ∀ inner, req.block = enclose beginTag endTag inner → Free markers inner) :
    Settles req := by
  intro start outcome written hrun haccepted
  obtain ⟨inner, hblock⟩ := hdelimited.enclosed
  have hnewline : Free markers ['\n'] := fence_newline.free
  have hagain : ∀ {before after}, Free markers before → Free markers after →
      upsertMarkerBlock (.ok ()) (.file (before ++ (req.block ++ after))) req =
        .ok (.ok .unchanged, .file (before ++ (req.block ++ after))) := by
    intro before after hbefore hafter
    have hrun := upsert_enclosed hblock hdelimited.sentinel (hfree inner hblock) hbefore hafter hwet
    rwa [if_pos hdelimited.contentHash] at hrun
  have hframed := framed_of_upsert hrun
  cases haction : outcome.action with
  | skipped => exact absurd haction haccepted
  | created =>
    rw [(hframed.created haction hwet).2]
    exact hagain free_nil hnewline
  | updated =>
    obtain ⟨existing, content, _, rfl, hplaced⟩ := hframed.updated haction hwet
    cases hplaced with
    | appended hexisting hsep =>
      rw [← List.append_assoc]
      refine hagain ?_ hnewline
      rcases hsep with rfl | rfl
      · exact fence_newline.append_free_iff.mpr hexisting
      · exact fence_blankLine.append_free_iff.mpr hexisting
    | replaced hfile => exact hagain (Sectioned.before_free _) (Sectioned.after_free _)
  | unchanged =>
    have houtcome : outcome = .ok .unchanged := by
      have hreason := hframed.reason haccepted
      obtain ⟨action, reason⟩ := outcome
      simp only at haction hreason
      rw [haction, hreason, WriteOutcome.ok]
    have hsame := hframed.untouched (.inr (.inl haction))
    rw [houtcome, hsame] at hrun
    rwa [hsame]

theorem free_of_settles {inner : Text} (hblock : req.block = enclose beginTag endTag inner)
    (hwet : req.dryRun = false) (hsettles : Settles req) : Free markers inner := by
  by_contra hstray
  obtain ⟨reason, hskip⟩ := upsert_stray_marker hblock hstray req
  have hcreated : upsertMarkerBlock (.ok ()) .missing req =
      .ok (.ok .created, .file (req.block ++ ['\n'])) := by
    simp [upsertMarkerBlock, writeTarget, hwet, Except.map]
  have hagain := hsettles _ _ _ hcreated (by decide)
  rw [hskip] at hagain
  simp [WriteOutcome.skip, WriteOutcome.ok] at hagain

/-- Every run of every request keeps what stands outside the marked block. Runs with a delimited
block settle exactly when it holds no further marker. -/
theorem upsert_settles_iff (req : MarkerBlockWrite) :
    (∀ disk start outcome written, upsertMarkerBlock disk start req = .ok (outcome, written) →
      Framed start req outcome written) ∧
    (Delimited req → (Settles { req with dryRun := false } ↔
      ∀ inner, req.block = enclose beginTag endTag inner → Free markers inner)) := by
  refine ⟨fun _ _ _ _ hrun => framed_of_upsert hrun, fun hdelimited => ⟨?_, ?_⟩⟩
  · intro hsettles inner hblock
    have hwritten : ({ req with dryRun := false } : MarkerBlockWrite).block = _ := hblock
    exact free_of_settles hwritten rfl hsettles
  · intro hfree
    have hwet : Delimited { req with dryRun := false } :=
      ⟨hdelimited.enclosed, hdelimited.sentinel, hdelimited.contentHash⟩
    exact settles_of_free hwet rfl hfree

def ruleBlock (rule : Text) : MarkerBlockWrite where
  path := "AGENTS.md"
  block := enclose beginTag endTag
    ("\n<!-- AUTO-GENERATED by difflore export | content-hash: 3f9a -->\n" ++ rule)
  contentHash := "3f9a"
  dryRun := false

set_option maxRecDepth 4000 in
theorem delimited_ruleBlock_plain : Delimited (ruleBlock "Use tabs.\n") where
  enclosed := ⟨_, rfl⟩
  sentinel := by decide
  contentHash := by decide

theorem upsert_settles_iff_ruleBlock : Settles { ruleBlock "Use tabs.\n" with dryRun := false } ↔
    ∀ inner, (ruleBlock "Use tabs.\n").block = enclose beginTag endTag inner → Free markers inner :=
  (upsert_settles_iff _).2 delimited_ruleBlock_plain

set_option maxRecDepth 4000 in
theorem delimited_ruleBlock_quoted :
    Delimited (ruleBlock "Keep <!-- END DIFFLORE RULES -->.\n") where
  enclosed := ⟨_, rfl⟩
  sentinel := by decide
  contentHash := by decide

set_option maxRecDepth 4000 in
/-- A rule that quotes a marker: the second run refuses what the first one wrote. -/
theorem quoted_marker_never_settles :
    ¬ ∀ req, Delimited req → req.dryRun = false → Settles req := by
  intro hclaim
  have hquoted := delimited_ruleBlock_quoted
  have hfree := free_of_settles rfl rfl (hclaim _ hquoted rfl)
  exact hfree endTag (by simp [markers]) (by decide)

end Difflore.Export

import Difflore.Ingest.SourceScope
import Difflore.Skills.RuleStatements

/-! # What a failed distillation leaves

The candidates of an answer are written one by one. A failure ends the run, and what was written
before it stays.
-/

namespace Difflore.Ingest

open Foundation Infra Skills Context

inductive TableEffect
  | unchanged
  | changed
  /-- An error, and nothing is written in front of it. -/
  | refused
  /-- An error behind a write. -/
  | torn
  deriving DecidableEq

section

variable (reading : ReviewReading) (library : RememberLibrary) (sourceRepo : RepoScope)
  (seeds : List DistillSeed)

def draftRule (call : AgentCall) (sourceKind : ReviewSourceKind) (input : RememberRuleInput)
    (slug : Text) : RememberedRule :=
  freshRule library call.clock input (some (candidateConfidence call.candidate)) .pending
    (some sourceRepo.value) (some sourceKind.wireLabel) slug (input.origin.getD conversation)
    (rememberSignatureHash library input)

/-- A failing insert into `rule_events` or read comes behind the write. -/
def AgentCall.tears (call : AgentCall) : Bool :=
  call.faults.recordEvent.isSome || call.faults.fetch.isSome

/-- The draft is to be active, and an active rule has its content or the database fails. -/
def AgentCall.unpromotable (call : AgentCall) (route : CaptureRoute) (draft : SkillRow)
    (skills : SkillTable) : Bool :=
  route = .active && (call.promoteFault.isSome || (activeDuplicate draft skills).isSome)

/-- An input is refused by validation, without a slug or for a used id. -/
def storeEffect (call : AgentCall) (route : CaptureRoute) (sourceKind : ReviewSourceKind)
    (input : RememberRuleInput) (skills : SkillTable) : TableEffect :=
  match validateRememberInput input, safeSlug (Text.trim input.title) with
  | .error _, _ | .ok _, none => .refused
  | .ok _, some slug =>
    if call.faults.write.isSome then .refused
    else match findExisting library call.clock input .pending (some sourceRepo.value) slug
        (input.origin.getD conversation) (rememberSignatureHash library input) skills with
    | some (.matchedActive _) => if call.faults.fetch.isSome then .refused else .unchanged
    | some (.strengthen ..) => if call.tears then .torn else .changed
    | none =>
      let rule := draftRule library sourceRepo call sourceKind input slug
      let draft := rule.newRow library.toLibrary call.clock.now
      if rule.id ∈ skills.keys then .refused
      else if call.tears || call.unpromotable route draft skills then .torn
      else .changed

def candidateEffect (call : AgentCall) (run : AgentRun) : TableEffect :=
  match seedForAgentCandidate call.candidate seeds with
  | none => .unchanged
  | some resolution =>
    let input := inputFromAgentCandidate reading call.candidate resolution.seed
    let (route, sourceKind) := agentCandidateGate call.candidate resolution seeds
    if route = .drop then .unchanged
    else if call.tombstoneFault.isSome then .refused
    else if isRejectedSignature library input run.store then .unchanged
    else if localCandidateDedupeSignature input ∈ run.seen then .unchanged
    else storeEffect library sourceRepo call route sourceKind input run.store.skills

def Wrote (start : AgentRun) (earlier : List AgentCall) : Prop :=
  ∃ first call last, earlier = first ++ call :: last ∧
    candidateEffect reading library sourceRepo seeds call
      (writeAgentCandidates reading library sourceRepo seeds first start) = .changed

/-- A candidate that is taken tears nothing, and is refused only if no earlier one wrote. -/
def StandsAt (start : AgentRun) (earlier : List AgentCall) (call : AgentCall) : Prop :=
  let run := writeAgentCandidates reading library sourceRepo seeds earlier start
  run.failure = none → run.progress.created < run.progress.budget →
    candidateEffect reading library sourceRepo seeds call run ≠ .torn ∧
      (candidateEffect reading library sourceRepo seeds call run = .refused →
        ¬ Wrote reading library sourceRepo seeds start earlier)

end

def loadFailure (err : Text) : Text := "failed to load imported reviews: " ++ err

variable (reading : ReviewReading) (library : RememberLibrary)

def agentRun (command : DraftCommand) (store : RuleStore) : AgentRun :=
  { store, seen := [], progress := { budget := command.maxCandidates }, failure := none }

/-- `run_local_agent_candidates` with its error, when the query of the items and the agent may
fail, or the agent has an answer that cannot be read. -/
def distillWithAgent (command : DraftCommand) (items : Except Text (List ReviewItemWithComments))
    (answer : Except Text (List AgentCall)) (store : RuleStore) :
    RuleStore × Option Text :=
  match items with
  | .error err => (store, some (loadFailure err))
  | .ok items =>
    let seeds := collectDistillSeeds reading command items
    if seeds = [] then (store, none)
    else match answer with
    | .error err => (store, some err)
    | .ok calls =>
      let run := writeAgentCandidates reading library command.sourceRepo seeds calls
        (agentRun command store)
      (run.store, run.failure)

def FailsWithoutTrace (store : RuleStore) (result : RuleStore × Option Text) : Prop :=
  result.2.isSome = true → result.1.skills = store.skills

variable {reading library} {sourceRepo : RepoScope} {seeds : List DistillSeed} {call : AgentCall}
  {store after : RuleStore} {outcome : RememberOutcome} {run : AgentRun} {stamps : List Stamp}

/-! ## One candidate -/

def Stamped (stamps : List Stamp) (skills : SkillTable) : Prop :=
  ∃ row ∈ skills.rows, row.updatedAt ∈ stamps

theorem stamped_strengthenRule {row : SkillRow} {skills : SkillTable} {now : Stamp}
    (hnow : now ∈ stamps) (hrow : row ∈ skills.rows) :
    Stamped stamps (strengthenRule row.id now skills) :=
  ⟨_, (KeyedTable.find_eq_some.mp (find_strengthenRule hrow now)).1, hnow⟩

theorem stamped_rememberRule {rule : RememberedRule} {skills : SkillTable} {now : Stamp}
    (hnow : now ∈ stamps) (hunused : rule.id ∉ skills.keys) :
    Stamped stamps (rememberRule library.toLibrary rule now skills) := by
  rw [Stamped, rows_rememberRule hunused]
  exact ⟨_, List.mem_append_right _ (List.mem_singleton_self _), hnow⟩

theorem Stamped.promote {id : Text} {skills : SkillTable} (hstamped : Stamped stamps skills) :
    Stamped stamps (promoteCandidate id skills) := by
  obtain ⟨row, hrow, hstamp⟩ := hstamped
  rw [promoteCandidate]
  refine ⟨_, KeyedTable.mem_update.mpr ⟨row, hrow, rfl⟩, ?_⟩
  split <;> exact hstamp

def TableEffect.Left (stamps : List Stamp) (before : RuleStore) (after : AgentRun) :
    TableEffect → Prop
  | .unchanged => after.failure = none ∧ after.store.skills = before.skills
  | .changed => after.failure = none ∧ Stamped stamps after.store.skills
  | .refused => after.failure.isSome = true ∧ after.store.skills = before.skills
  | .torn => after.failure.isSome = true ∧ Stamped stamps after.store.skills

section One

variable {route : CaptureRoute} {sourceKind : ReviewSourceKind} {input : RememberRuleInput}

theorem left_of_refused {err : Text} (hcall : rememberAsCandidateForRepo library call.clock input
      (candidateConfidence call.candidate) sourceRepo (some sourceKind.wireLabel) run.store =
        .error err) :
    TableEffect.refused.Left stamps run.store
      (storeAgentCandidate library call sourceRepo route sourceKind input run) := by
  simp only [storeAgentCandidate, rememberFailing, hcall]
  exact ⟨rfl, rfl⟩

theorem left_of_written (hrunning : run.failure = none)
    (hcall : rememberAsCandidateForRepo library call.clock input
      (candidateConfidence call.candidate) sourceRepo (some sourceKind.wireLabel) run.store =
        .ok (after, outcome))
    (hwritten : outcome.matchedExistingActive = false) (hstamped : Stamped stamps after.skills) :
    TableEffect.Left stamps run.store
      (storeAgentCandidate library call sourceRepo route sourceKind input run)
      (if call.faults.write.isSome then .refused
        else if call.tears || (!outcome.deduped && route = .active &&
          (call.promoteFault.isSome || !(promoteDraft outcome.skill.id after).isOk)) then .torn
        else .changed) := by
  rw [storeAgentCandidate]
  rcases rememberFailing_of_written call.faults hcall hwritten with
    ⟨hwrite, err, hresult⟩ | ⟨hwrite, hlater, err, torn, hresult, htorn⟩ |
      ⟨⟨hwrite, hevent, hfetch⟩, hresult⟩
  · rw [hresult, if_pos (Option.isSome_iff_ne_none.mpr hwrite)]
    exact ⟨rfl, rfl⟩
  · have htears : call.tears = true := by
      rw [AgentCall.tears, Bool.or_eq_true, Option.isSome_iff_ne_none, Option.isSome_iff_ne_none]
      exact not_and_or.mp hlater
    rw [hresult, hwrite, htears]
    exact ⟨rfl, by simpa [htorn] using hstamped⟩
  · have htears : call.tears = false := by
      rw [AgentCall.tears, hevent, hfetch]
      rfl
    rw [hresult, hwrite, htears]
    cases hdeduped : outcome.deduped with
    | true => simp [hdeduped, TableEffect.Left, hrunning, hstamped]
    | false =>
      by_cases hroute : route = .active
      · cases hfault : call.promoteFault with
        | some err => simp [hdeduped, hroute, TableEffect.Left, hstamped]
        | none =>
          cases hpromote : promoteDraft outcome.skill.id after with
          | error err => simp [hdeduped, hroute, hpromote, TableEffect.Left, hstamped, Except.isOk,
              Except.toBool]
          | ok promoted =>
            have hkept : Stamped stamps promoted.skills := by
              rw [promoteDraft_eq_ok hpromote]
              exact hstamped.promote
            simp [hdeduped, hroute, hpromote, TableEffect.Left, hrunning, hkept, Except.isOk,
              Except.toBool]
      · simp [hdeduped, hroute, TableEffect.Left, hrunning, hstamped]

theorem promoteDraft_new_refused {rule : RememberedRule} {now : Stamp} {skills : SkillTable}
    (hpending : rule.status = .pending) (hunused : rule.id ∉ skills.keys)
    (hafter : after.skills = rememberRule library.toLibrary rule now skills) :
    (!(promoteDraft rule.id after).isOk) =
      (activeDuplicate (rule.newRow library.toLibrary now) skills).isSome := by
  have hactive : after.skills.rows.filter (·.status = .active) =
      skills.rows.filter (·.status = .active) := by
    rw [hafter, rows_rememberRule hunused, List.filter_append]
    simp [RememberedRule.newRow, hpending]
  have hdup := activeDuplicate_congr hactive
    (rfl : (rule.newRow library.toLibrary now).contentHash = _)
  have hfind : after.skills.find rule.id = some (rule.newRow library.toLibrary now) :=
    hafter ▸ find_rememberRule hunused
  have hstatus : (rule.newRow library.toLibrary now).status = .pending := hpending
  simp only [promoteDraft, hfind, hstatus, if_true, hdup]
  cases activeDuplicate (rule.newRow library.toLibrary now) skills <;> rfl

theorem left_storeAgentCandidate (hnow : call.clock.now ∈ stamps) (hrunning : run.failure = none)
    (horigin : input.origin.getD conversation ≠ conversation) :
    (storeEffect library sourceRepo call route sourceKind input run.store.skills).Left stamps
      run.store (storeAgentCandidate library call sourceRepo route sourceKind input run) := by
  by_cases haccepted : validateRememberInput input = .ok () ∧
      (safeSlug (Text.trim input.title)).isSome
  case neg =>
    obtain ⟨err, hcall⟩ : ∃ err, rememberAsCandidateForRepo library call.clock input
        (candidateConfidence call.candidate) sourceRepo (some sourceKind.wireLabel) run.store =
          .error err := rememberInner_refused haccepted
    have heffect : storeEffect library sourceRepo call route sourceKind input run.store.skills =
        .refused := by
      unfold storeEffect
      split
      next => rfl
      next => rfl
      next hvalid hslug => exact absurd ⟨hvalid, by simp [hslug]⟩ haccepted
    exact heffect ▸ left_of_refused hcall
  obtain ⟨hvalid, hsome⟩ := haccepted
  obtain ⟨slug, hslug⟩ := Option.isSome_iff_exists.mp hsome
  have hcall : rememberAsCandidateForRepo library call.clock input
      (candidateConfidence call.candidate) sourceRepo (some sourceKind.wireLabel) run.store = _ :=
    rememberInner_accepted hvalid hslug horigin
  simp only [storeEffect, hvalid, hslug]
  rw [Option.map_some] at hcall
  have hof : AllOf .pending run.store.skills (findExisting library call.clock input .pending
      (some sourceRepo.value) slug (input.origin.getD conversation)
      (rememberSignatureHash library input) run.store.skills) := allOf_findExisting _ _ _ _ _ _ _
  cases hfind : findExisting library call.clock input .pending (some sourceRepo.value) slug
      (input.origin.getD conversation) (rememberSignatureHash library input) run.store.skills with
  | none =>
    rw [hfind] at hcall
    by_cases htaken : (draftRule library sourceRepo call sourceKind input slug).id ∈
        run.store.skills.keys
    · obtain ⟨err, herror⟩ : ∃ err, insertFresh library call.clock input .pending
          (input.origin.getD conversation)
          (draftRule library sourceRepo call sourceKind input slug) run.store = .error err :=
        insertFresh_of_taken htaken
      simp only [htaken, if_true, ite_self]
      exact left_of_refused (hcall.trans herror)
    · obtain ⟨after, outcome, hok⟩ : ∃ after outcome, insertFresh library call.clock input .pending
          (input.origin.getD conversation)
          (draftRule library sourceRepo call sourceKind input slug) run.store =
            .ok (after, outcome) := insertFresh_of_fresh htaken
      obtain ⟨-, hskills, -, hskill, hfresh⟩ := insertFresh_eq_ok hok
      have hstamped : Stamped stamps after.skills := hskills ▸ stamped_rememberRule hnow htaken
      have hleft := @left_of_written library sourceRepo call _ _ _ stamps route _ _ hrunning
        (hcall.trans hok) (insertFresh_unmatched hok) hstamped
      have hpromote : (!(promoteDraft outcome.skill.id after).isOk) =
          (activeDuplicate ((draftRule library sourceRepo call sourceKind input slug).newRow
            library.toLibrary call.clock.now) run.store.skills).isSome := by
        rw [hskill]
        exact promoteDraft_new_refused rfl htaken hskills
      rw [hfresh, hpromote] at hleft
      simp only [htaken, if_false]
      exact hleft
  | some rung =>
    rw [hfind] at hcall hof
    cases rung with
    | matchedActive row =>
      obtain ⟨outcome, happly⟩ : ∃ outcome, (Rung.matchedActive row).apply call.clock .pending
          (input.origin.getD conversation) run.store = .ok (run.store, outcome) :=
        apply_matchedActive_of_mem (hof _ rfl).1
      obtain ⟨-, hdeduped, hmatched, -⟩ := apply_matchedActive happly
      simp only [storeAgentCandidate, rememberFailing, hcall.trans happly, hmatched]
      cases hwrite : call.faults.write with
      | some err => simp [TableEffect.Left]
      | none =>
        have hnoEvent : call.faults.recordEvent.filter (fun _ => !true) = none := by
          cases call.faults.recordEvent <;> rfl
        rw [hnoEvent]
        cases hfetch : call.faults.fetch with
        | some err => exact ⟨rfl, rfl⟩
        | none => simp [TableEffect.Left, hrunning, hdeduped]
    | strengthen row reason windowHit =>
      have hrow := (hof _ rfl).1
      obtain ⟨outcome, happly⟩ : ∃ outcome, (Rung.strengthen row reason windowHit).apply call.clock
          .pending (input.origin.getD conversation) run.store = .ok (_, outcome) :=
        apply_strengthen_of_mem hrow
      obtain ⟨-, hdeduped, hwritten, -⟩ := apply_strengthen happly
      have hleft := @left_of_written library sourceRepo call _ _ _ stamps route _ _ hrunning
        (hcall.trans happly) hwritten (stamped_strengthenRule hnow hrow)
      rw [hdeduped] at hleft
      simpa only [Bool.not_true, Bool.false_and, Bool.or_false] using hleft

end One

theorem origin_inputFromAgentCandidate (candidate : AgentDistillCandidate) (seed : DistillSeed) :
    (inputFromAgentCandidate reading candidate seed).origin.getD conversation ≠ conversation :=
  show prReviewOrigin ≠ conversation by decide

theorem left_writeAgentCandidate (call : AgentCall) (hnow : call.clock.now ∈ stamps)
    (hrunning : run.failure = none) :
    (candidateEffect reading library sourceRepo seeds call run).Left stamps run.store
      (writeAgentCandidate reading library sourceRepo seeds call run) := by
  rw [candidateEffect, writeAgentCandidate]
  cases seedForAgentCandidate call.candidate seeds with
  | none => exact ⟨hrunning, rfl⟩
  | some resolution =>
    cases agentCandidateGate call.candidate resolution seeds with
    | mk route sourceKind =>
      dsimp only
      split
      next => exact ⟨hrunning, rfl⟩
      next =>
        cases call.tombstoneFault with
        | some err => exact ⟨rfl, rfl⟩
        | none =>
          rw [Option.isSome_none, if_neg Bool.false_ne_true]
          dsimp only
          split
          next => exact ⟨hrunning, rfl⟩
          next =>
            split
            next => exact ⟨hrunning, rfl⟩
            next =>
              exact @left_storeAgentCandidate library sourceRepo call
                { run with seen := _ :: run.seen } stamps _ _ _ hnow hrunning
                (origin_inputFromAgentCandidate _ _)

/-! ## A whole answer -/

theorem writeAgentCandidates_failed {calls : List AgentCall} (hfailed : run.failure.isSome = true) :
    writeAgentCandidates reading library sourceRepo seeds calls run = run := by
  cases calls with
  | nil => rfl
  | cons call rest => rw [writeAgentCandidates, if_pos hfailed]

theorem writeAgentCandidates_capped {calls : List AgentCall} (hrunning : run.failure = none)
    (hcapped : run.progress.budget ≤ run.progress.created) :
    (writeAgentCandidates reading library sourceRepo seeds calls run).failure = none ∧
      (writeAgentCandidates reading library sourceRepo seeds calls run).progress.budget ≤
        (writeAgentCandidates reading library sourceRepo seeds calls run).progress.created := by
  cases calls with
  | nil => exact ⟨hrunning, hcapped⟩
  | cons call rest =>
    rw [writeAgentCandidates, if_neg (by simp [hrunning]), if_pos hcapped]
    exact ⟨hrunning, hcapped⟩

theorem writeAgentCandidates_cons {calls : List AgentCall} (hrunning : run.failure = none)
    (hbudget : run.progress.created < run.progress.budget) :
    writeAgentCandidates reading library sourceRepo seeds (call :: calls) run =
      writeAgentCandidates reading library sourceRepo seeds calls
        (writeAgentCandidate reading library sourceRepo seeds call run) := by
  rw [writeAgentCandidates, if_neg (by simp [hrunning]), if_neg (not_le.mpr hbudget)]

theorem writeAgentCandidates_append (earlier later : List AgentCall) (run : AgentRun) :
    writeAgentCandidates reading library sourceRepo seeds (earlier ++ later) run =
      writeAgentCandidates reading library sourceRepo seeds later
        (writeAgentCandidates reading library sourceRepo seeds earlier run) := by
  induction earlier generalizing run with
  | nil => rfl
  | cons call earlier ih =>
    rw [List.cons_append, writeAgentCandidates, writeAgentCandidates]
    split
    next hfailed => rw [writeAgentCandidates_failed hfailed]
    next hrunning =>
      split
      next hcapped =>
        cases later with
        | nil => rfl
        | cons other later => rw [writeAgentCandidates, if_neg hrunning, if_pos hcapped]
      next => exact ih _

theorem wrote_nil {start : AgentRun} : ¬ Wrote reading library sourceRepo seeds start [] := by
  rintro ⟨first, call, last, hnil, -⟩
  simp at hnil

theorem wrote_concat {start : AgentRun} {earlier : List AgentCall} :
    Wrote reading library sourceRepo seeds start (earlier ++ [call]) ↔
      Wrote reading library sourceRepo seeds start earlier ∨
        candidateEffect reading library sourceRepo seeds call
          (writeAgentCandidates reading library sourceRepo seeds earlier start) = .changed := by
  constructor
  · rintro ⟨first, other, last, hsplit, heffect⟩
    rcases List.eq_nil_or_concat last with rfl | ⟨last, final, rfl⟩
    · obtain ⟨rfl, hsame⟩ := List.append_inj' hsplit rfl
      obtain rfl := List.singleton_inj.mp hsame
      exact .inr heffect
    · rw [List.concat_eq_append, ← List.cons_append, ← List.append_assoc] at hsplit
      exact .inl ⟨first, other, last, (List.append_inj' hsplit rfl).1, heffect⟩
  · rintro (⟨first, other, last, rfl, heffect⟩ | heffect)
    · exact ⟨first, other, last ++ [call], by simp, heffect⟩
    · exact ⟨earlier, call, [], rfl, heffect⟩

/-- By induction on the candidates that are left: as long as nothing was written the rows are those
of before, and from then on some row has a time that none had. -/
theorem traceless_iff_stand {start : AgentRun} {base : SkillTable} {earlier calls : List AgentCall}
    (hnow : ∀ call ∈ calls, call.clock.now ∈ stamps) (hbase : ¬ Stamped stamps base)
    (hrun : writeAgentCandidates reading library sourceRepo seeds earlier start = run)
    (hrunning : run.failure = none) (hwrote : Wrote reading library sourceRepo seeds start earlier →
      Stamped stamps run.store.skills)
    (hnothing : ¬ Wrote reading library sourceRepo seeds start earlier → run.store.skills = base) :
    ((writeAgentCandidates reading library sourceRepo seeds calls run).failure.isSome = true →
        (writeAgentCandidates reading library sourceRepo seeds calls run).store.skills = base) ↔
      ∀ front call back, calls = front ++ call :: back →
        StandsAt reading library sourceRepo seeds start (earlier ++ front) call := by
  induction calls generalizing earlier run with
  | nil => simp [writeAgentCandidates, hrunning]
  | cons call rest ih =>
    have hsplit : (∀ front other back, call :: rest = front ++ other :: back →
          StandsAt reading library sourceRepo seeds start (earlier ++ front) other) ↔
        StandsAt reading library sourceRepo seeds start earlier call ∧
          ∀ front other back, rest = front ++ other :: back →
            StandsAt reading library sourceRepo seeds start
              ((earlier ++ [call]) ++ front) other := by
      constructor
      · intro hall
        refine ⟨by simpa using hall [] call rest rfl, fun front other back hrest => ?_⟩
        rw [List.append_assoc]
        exact hall (call :: front) other back (by rw [hrest]; rfl)
      · rintro ⟨hhead, hlater⟩ (_ | ⟨first, front⟩) other back heq
        · obtain ⟨rfl, rfl⟩ := List.cons.inj heq
          simpa using hhead
        · obtain ⟨rfl, hrest⟩ := List.cons.inj heq
          simpa using hlater front other back hrest
    rw [hsplit, StandsAt, hrun]
    rcases le_or_gt run.progress.budget run.progress.created with hcapped | hbudget
    · have hall : ∀ calls, (writeAgentCandidates reading library sourceRepo seeds calls run).failure =
          none ∧ _ := fun calls => writeAgentCandidates_capped hrunning hcapped
      refine iff_of_true (fun hfailed => ?_) ⟨fun _ hopen => absurd hcapped (not_le.mpr hopen), ?_⟩
      · rw [(hall (call :: rest)).1] at hfailed
        contradiction
      · intro front other back _ _ hopen
        rw [List.append_assoc, writeAgentCandidates_append, hrun] at hopen
        exact absurd (hall ([call] ++ front)).2 (not_le.mpr hopen)
    have hleft := @left_writeAgentCandidate reading library sourceRepo seeds _ _ call
      (hnow _ (.head _)) hrunning
    have hlater := fun other hother => hnow other (.tail _ hother)
    have hnext : writeAgentCandidates reading library sourceRepo seeds (earlier ++ [call]) start =
        writeAgentCandidate reading library sourceRepo seeds call run := by
      rw [writeAgentCandidates_append, hrun, writeAgentCandidates_cons hrunning hbudget]
      rfl
    have hconcat : Wrote reading library sourceRepo seeds start (earlier ++ [call]) ↔
        Wrote reading library sourceRepo seeds start earlier ∨
          candidateEffect reading library sourceRepo seeds call run = .changed :=
      hrun ▸ wrote_concat
    simp only [hrunning, hbudget, forall_const]
    rw [writeAgentCandidates_cons hrunning hbudget]
    -- behind a failure no candidate is taken
    have hfailing : (writeAgentCandidate reading library sourceRepo seeds call run).failure.isSome →
        ∀ front other,
          StandsAt reading library sourceRepo seeds start ((earlier ++ [call]) ++ front)
          other := by
      intro hfailed front other hopen
      rw [writeAgentCandidates_append, hnext, writeAgentCandidates_failed hfailed] at hopen
      rw [hopen] at hfailed
      contradiction
    cases heffect : candidateEffect reading library sourceRepo seeds call run with
    | unchanged =>
      rw [heffect] at hleft hconcat
      simp only [reduceCtorEq, or_false, ne_eq, not_false_eq_true, false_implies, true_and]
        at hconcat ⊢
      exact ih hlater hnext hleft.1 (fun hwrites => hleft.2 ▸ hwrote (hconcat.mp hwrites))
        fun hnot => hleft.2.trans (hnothing (mt hconcat.mpr hnot))
    | changed =>
      rw [heffect] at hleft hconcat
      simp only [reduceCtorEq, or_true, iff_true, ne_eq, not_false_eq_true, false_implies, true_and]
        at hconcat ⊢
      exact ih hlater hnext hleft.1 (fun _ => hleft.2) fun hnot => absurd hconcat hnot
    | refused =>
      rw [heffect] at hleft
      rw [writeAgentCandidates_failed hleft.1, hleft.2]
      simp only [reduceCtorEq, ne_eq, not_false_eq_true, true_and, forall_const]
      rw [and_iff_left fun front other _ _ => hfailing hleft.1 front other]
      constructor
      · exact fun hsame hwrites => hbase (hsame hleft.1 ▸ hwrote hwrites)
      · exact fun hnot _ => hnothing hnot
    | torn =>
      rw [heffect] at hleft
      rw [writeAgentCandidates_failed hleft.1]
      exact iff_of_false (fun hsame => hbase (hsame hleft.1 ▸ hleft.2)) fun hstands =>
        hstands.1.1 rfl

/-- A failed distillation leaves the rows exactly if nothing is refused once one is written. -/
theorem failed_distillation_iff {command : DraftCommand}
    {items : Except Text (List ReviewItemWithComments)} {answer : Except Text (List AgentCall)}
    (hnow : ∀ calls, answer = .ok calls → ∀ row ∈ store.skills.rows,
      row.updatedAt ∉ calls.map (·.clock.now)) :
    FailsWithoutTrace store (distillWithAgent reading library command items answer store) ↔
      ∀ list calls, items = .ok list → answer = .ok calls →
        collectDistillSeeds reading command list ≠ [] →
          ∀ earlier call later, calls = earlier ++ call :: later →
            StandsAt reading library command.sourceRepo (collectDistillSeeds reading command list)
              (agentRun command store) earlier call := by
  cases items with
  | error err => exact iff_of_true (fun _ => rfl) fun list _ hlist => nomatch hlist
  | ok list =>
    unfold distillWithAgent
    dsimp only
    by_cases hseeds : collectDistillSeeds reading command list = []
    · rw [if_pos hseeds]
      refine iff_of_true (fun _ => rfl) ?_
      rintro _ _ ⟨⟩ _ hne
      exact absurd hseeds hne
    rw [if_neg hseeds]
    cases answer with
    | error err => exact iff_of_true (fun _ => rfl) fun _ calls _ hcalls => nomatch hcalls
    | ok calls =>
      have hunstamped : ¬ Stamped (calls.map (·.clock.now)) store.skills := by
        rintro ⟨row, hrow, hstamp⟩
        exact hnow calls rfl row hrow hstamp
      have hstamps : ∀ call ∈ calls, call.clock.now ∈ calls.map (·.clock.now) :=
        fun call hcall => List.mem_map.mpr ⟨call, hcall, rfl⟩
      refine (traceless_iff_stand hstamps hunstamped rfl rfl (absurd · wrote_nil)
        fun _ => rfl).trans ?_
      simp only [List.nil_append]
      constructor
      · rintro hstand _ _ ⟨⟩ ⟨⟩ _
        exact hstand
      · intro hstand
        exact hstand list calls rfl rfl hseeds

section Samples

def titledAnswer (title : Text) : AgentDistillCandidate :=
  ⟨some 1, some title, some "Validate payloads.", some (some (1 / 2)), []⟩

def payloadItems : List ReviewItemWithComments :=
  [⟨payloadItem "acme/app", [payloadComment "acme/app"]⟩]

/-- An answer with one candidate of each title, in a database that works. -/
def titledCalls (titles : List Text) : List AgentCall := titles.zipIdx.map fun (title, idx) =>
    { candidate := titledAnswer title, clock := { callClock 'a' idx with now := "12:00".toList } }

def distillTitles (titles : List Text) (store : RuleStore) : RuleStore × Option Text :=
  distillWithAgent payloadReading payloadLibrary ownCommand (.ok payloadItems)
    (.ok (titledCalls titles)) store

/-- An active rule of the repository, with the body of the answers. -/
def payloadRules : RuleStore :=
  { reviewedStore (payloadLibrary.sha256Hex []) with
    skills := (reviewedStore (payloadLibrary.sha256Hex [])).skills.update (fun _ => true)
      (fun row => { row with sourceRepo := some ownCommand.sourceRepo.value }) fun _ => rfl }

end Samples

/-- The second candidate has a title without a slug, and the first is stored. -/
theorem failed_distillation_leaves_rule :
    ¬ FailsWithoutTrace emptyStore (distillTitles ["Validate payloads", "規則"] emptyStore) := by
  intro hsame
  have hrows := congrArg (·.rows.length) (hsame (by decide +kernel))
  revert hrows
  decide +kernel

/-- With an active rule that has its content the first candidate writes nothing. -/
theorem failed_distillation_behind_match :
    (distillTitles ["Validate payloads", "規則"] payloadRules).2.isSome = true ∧
      FailsWithoutTrace payloadRules
        (distillTitles ["Validate payloads", "規則"] payloadRules) := by
  refine ⟨by decide +kernel, (failed_distillation_iff ?_).mpr ?_⟩
  · rintro _ ⟨⟩
    decide +kernel
  · rintro _ _ ⟨⟩ ⟨⟩ - earlier call later hsplit
    rcases earlier with _ | ⟨first, _ | ⟨second, rest⟩⟩
    · obtain ⟨rfl, -⟩ := List.cons.inj hsplit
      exact fun _ _ => ⟨by decide +kernel, fun _ => wrote_nil⟩
    · obtain ⟨rfl, htail⟩ := List.cons.inj hsplit
      obtain ⟨rfl, -⟩ := List.cons.inj htail
      refine fun _ _ => ⟨by decide +kernel, fun _ hwrote => ?_⟩
      exact (wrote_concat.mp hwrote).elim wrote_nil (by decide +kernel)
    · have hlength := congrArg List.length hsplit
      simp [titledCalls] at hlength

end Difflore.Ingest

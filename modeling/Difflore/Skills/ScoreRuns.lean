import Difflore.Skills.ScoreCalls
import Mathlib.Data.Fintype.Basic

/-! # Is a change of a score lost?

Calls that change scores run at once. A call that writes a rule computes from the score that it
read; if the rule still has that score, the call acts as if it ran alone at that moment. A
strengthening whose rule was changed in between takes that change back.
-/

namespace Difflore.Skills

open Foundation Infra Context

variable {rows : List (Text × Rat)} {before : Rat} {call : ScoreCall} {next : ScorePhase}
  {skills : SkillTable}

/-! ## Phases -/

/-- What a call has read and done. With a written score stands the score that it replaced. -/
inductive ScorePhase
  | fresh
  | missing
  | read (before : Rat)
  | written (before : Rat) (replaced : Option Rat)
  | recorded (event : ScoreEvent) (replaced : Option Rat)
  | changed (change : ConfidenceChange) (event : ScoreEvent) (replaced : Option Rat)
  | counted (examined : Nat)
  | snapshot (examined : Nat) (rows : List (Text × Rat))
  | decayed (examined : Nat) (rows : List (Text × Rat))

/-- The event that the call recorded, with the score that its update replaced. -/
def ScorePhase.event : ScorePhase → Option (ScoreEvent × Option Rat)
  | .recorded event replaced => some (event, replaced)
  | .changed _ event replaced => some (event, replaced)
  | _ => none

def observeScore (table : ScoreTable) (phase : ScorePhase) :
    (query : ScoreQuery) → query.Answer → ScorePhase
  | .score _, none => .missing
  | .score _, some before => .read before
  | .setScore id _ _, _ =>
    match phase with
    | .read before => .written before (scoreOf id table.skills)
    | other => other
  | .insertEvent event, _ =>
    match phase with
    | .written _ replaced => .recorded event replaced
    | other => other
  | .feedback .., none => .missing
  | .feedback id raw signal, some change =>
    .changed change (feedbackEvent id raw signal change.before) (scoreOf id table.skills)
  | .countOld _, examined => .counted examined
  | .candidates _, rows =>
    match phase with
    | .counted examined => .snapshot examined rows
    | other => other
  | .decay .., _ =>
    match phase with
    | .snapshot examined rows => .decayed examined rows
    | other => other

def ScoreCall.rest : ScoreCall → ScorePhase → ScoreProgram
  | call, .fresh => call.program
  | .strengthen id now reason status, .read before =>
    .ask (.setScore id (strengthenedConfidence before) now) fun _ =>
      .ask (.insertEvent (strengthenEvent id reason status before)) fun _ =>
        .done (.strengthened (strengthenedConfidence before))
  | .strengthen id _ reason status, .written before _ =>
    .ask (.insertEvent (strengthenEvent id reason status before)) fun _ =>
      .done (.strengthened (strengthenedConfidence before))
  | .strengthen .., .recorded event _ => .done (.strengthened event.confidenceAfter)
  | .updateConfidence id raw, .missing => .done (.failed (unknownRuleError id raw))
  | .updateConfidence .., .changed change _ _ => .done (.changed change)
  | .sweep opts, .counted examined => .ask (.candidates opts) fun rows => opts.commit examined rows
  | .sweep opts, .snapshot examined rows => opts.commit examined rows
  | .sweep opts, .decayed examined rows => .done (.swept (opts.report examined rows))
  | _, _ => .done .missing

def SweepOpts.Writes (opts : SweepOpts) (rule : Text) (rows : List (Text × Rat)) : Prop :=
  opts.dryRun = false ∧ ∃ score, (rule, score) ∈ rows ∧ opts.minFloor < score

/-- The call has acted on the rule: with its update, or, if it has none, with the read that said
so. -/
def Acted (rule : Text) : ScoreCall → ScorePhase → Prop
  | _, .fresh => False
  | .strengthen .., .read _ => False
  | .sweep _, .counted _ => False
  | .sweep opts, .snapshot _ rows => ¬ opts.Writes rule rows
  | _, _ => True

section Runs

variable {ι : Type} [DecidableEq ι] (calls : ι → ScoreCall) (rule : Text)

abbrev ScorePool (ι : Type) := Pool ι ScoreQuery ScoreQuery.Answer ScoreResult ScoreTable ScorePhase

def scorePool (table : ScoreTable) : ScorePool ι :=
  Pool.start table (fun i => (calls i).program) .fresh

/-- If the next statement of the call writes the rule outside the transaction that read it, then the
rule still has the score that was read. -/
def Undisturbed (pool : ScorePool ι) (i : ι) : Prop :=
  match calls i, pool.phase i with
  | .strengthen id _ _ _, .read before =>
    id = rule → ∀ score ∈ scoreOf rule pool.shared.skills, score = before
  | .sweep opts, .snapshot _ rows =>
    opts.dryRun = false → ∀ before, (rule, before) ∈ rows → opts.minFloor < before →
      ∀ score ∈ scoreOf rule pool.shared.skills, score = before
  | _, _ => True

variable {calls rule}

theorem rest_step (call : ScoreCall) (table : ScoreTable) (phase : ScorePhase) (query : ScoreQuery)
    (resume : query.Answer → ScoreProgram) (hrest : call.rest phase = .ask query resume) :
    resume (serveScore table query).1 =
      call.rest (observeScore table phase query (serveScore table query).1) := by
  cases call with
  | strengthen id now reason status =>
    cases phase with
    | fresh =>
      obtain ⟨rfl, hresume⟩ := Program.ask.inj hrest
      obtain rfl := eq_of_heq hresume
      simp only [serveScore]
      cases scoreOf id table.skills with
      | none => rfl
      | some before => rfl
    | read before =>
      obtain ⟨rfl, hresume⟩ := Program.ask.inj hrest
      obtain rfl := eq_of_heq hresume
      rfl
    | written before replaced =>
      obtain ⟨rfl, hresume⟩ := Program.ask.inj hrest
      obtain rfl := eq_of_heq hresume
      rfl
    | _ => contradiction
  | updateConfidence id raw =>
    cases phase with
    | fresh =>
      simp only [ScoreCall.rest, ScoreCall.program, updateConfidenceProgram] at hrest
      cases hparse : ConfidenceSignal.parse raw with
      | error message => simp [hparse] at hrest
      | ok signal =>
        simp only [hparse] at hrest
        obtain ⟨rfl, hresume⟩ := Program.ask.inj hrest
        obtain rfl := eq_of_heq hresume
        simp only [serveScore]
        cases table.skills.find id with
        | none => rfl
        | some row => rfl
    | _ => contradiction
  | sweep opts =>
    cases phase with
    | fresh =>
      obtain ⟨rfl, hresume⟩ := Program.ask.inj hrest
      obtain rfl := eq_of_heq hresume
      rfl
    | counted examined =>
      obtain ⟨rfl, hresume⟩ := Program.ask.inj hrest
      obtain rfl := eq_of_heq hresume
      rfl
    | snapshot examined rows =>
      simp only [ScoreCall.rest, SweepOpts.commit] at hrest
      split at hrest
      · contradiction
      · obtain ⟨rfl, hresume⟩ := Program.ask.inj hrest
        obtain rfl := eq_of_heq hresume
        rfl
    | _ => contradiction

/-! ## Steps -/

inductive ScoreStep (table : ScoreTable) : ScoreCall → ScorePhase → ScorePhase → ScoreTable → Prop
  | absent {id now reason status} (hnone : table.skills.find id = none) :
      ScoreStep table (.strengthen id now reason status) .fresh .missing table
  | read {id now reason status} (row : SkillRow) (hfind : table.skills.find id = some row) :
      ScoreStep table (.strengthen id now reason status) .fresh (.read row.confidence) table
  | write {id now reason status} (before : Rat) :
      ScoreStep table (.strengthen id now reason status) (.read before)
        (.written before (scoreOf id table.skills))
        { table with skills := setScore id (strengthenedConfidence before) now table.skills }
  | record {id now reason status} (before : Rat) (replaced : Option Rat) :
      ScoreStep table (.strengthen id now reason status) (.written before replaced)
        (.recorded (strengthenEvent id reason status before) replaced)
        { table with events := table.events ++ [strengthenEvent id reason status before] }
  | unknown {id raw} (hnone : table.skills.find id = none) :
      ScoreStep table (.updateConfidence id raw) .fresh .missing table
  | feedback {id raw} (signal : ConfidenceSignal) (row : SkillRow)
      (hparse : ConfidenceSignal.parse raw = .ok signal) (hfind : table.skills.find id = some row) :
      ScoreStep table (.updateConfidence id raw) .fresh
        (.changed ⟨row.confidence, signal.apply row.confidence, row.name⟩
          (feedbackEvent id raw signal row.confidence) (some row.confidence))
        { skills := setScoreOnly id (signal.apply row.confidence) table.skills
          events := table.events ++ [feedbackEvent id raw signal row.confidence] }
  | count {opts} (examined : Nat) : ScoreStep table (.sweep opts) .fresh (.counted examined) table
  | snapshot {opts} (examined : Nat) : ScoreStep table (.sweep opts) (.counted examined)
        (.snapshot examined
          ((table.skills.rows.filter opts.stale).map fun row => (row.id, row.confidence))) table
  | decay {opts} (examined : Nat) (rows : List (Text × Rat)) (hwet : opts.dryRun = false) :
      ScoreStep table (.sweep opts) (.snapshot examined rows) (.decayed examined rows)
        { table with
          skills := setScores ((opts.toDecay rows).map fun entry =>
            (entry.1, opts.decayed entry.2)) opts.now table.skills }

theorem scoreStep_of_rest {phase : ScorePhase} {query : ScoreQuery}
    {resume : query.Answer → ScoreProgram} (table : ScoreTable)
    (hrest : call.rest phase = .ask query resume) :
    ScoreStep table call phase (observeScore table phase query (serveScore table query).1)
      (serveScore table query).2 := by
  cases call with
  | strengthen id now reason status =>
    cases phase with
    | fresh =>
      obtain ⟨rfl, -⟩ := Program.ask.inj hrest
      simp only [serveScore, scoreOf]
      cases hfind : table.skills.find id with
      | none => exact .absent hfind
      | some row => exact .read row hfind
    | read before =>
      obtain ⟨rfl, -⟩ := Program.ask.inj hrest
      exact .write before
    | written before replaced =>
      obtain ⟨rfl, -⟩ := Program.ask.inj hrest
      exact .record before replaced
    | _ => contradiction
  | updateConfidence id raw =>
    cases phase with
    | fresh =>
      simp only [ScoreCall.rest, ScoreCall.program, updateConfidenceProgram] at hrest
      cases hparse : ConfidenceSignal.parse raw with
      | error message => simp [hparse] at hrest
      | ok signal =>
        simp only [hparse] at hrest
        obtain ⟨rfl, -⟩ := Program.ask.inj hrest
        simp only [serveScore]
        cases hfind : table.skills.find id with
        | none => exact .unknown hfind
        | some row =>
          simp only [observeScore, scoreOf, hfind, Option.map_some]
          exact .feedback signal row hparse hfind
    | _ => contradiction
  | sweep opts =>
    cases phase with
    | fresh =>
      obtain ⟨rfl, -⟩ := Program.ask.inj hrest
      exact .count _
    | counted examined =>
      obtain ⟨rfl, -⟩ := Program.ask.inj hrest
      exact .snapshot examined
    | snapshot examined rows =>
      simp only [ScoreCall.rest, SweepOpts.commit] at hrest
      split at hrest
      · contradiction
      next hwet =>
        obtain ⟨rfl, -⟩ := Program.ask.inj hrest
        rw [Bool.not_eq_true, Bool.or_eq_false_iff] at hwet
        exact .decay examined rows hwet.1
    | _ => contradiction

theorem ScoreStep.keeps {table after : ScoreTable} {phase : ScorePhase}
    (hstep : ScoreStep table call phase next after) (rule : Text) :
    ∃ f, KeepsContent f ∧ after.skills.find rule = (table.skills.find rule).map f := by
  have hsame : ∃ f, KeepsContent f ∧ table.skills.find rule = (table.skills.find rule).map f :=
    ⟨id, keepsContent_id, Option.map_id_apply.symm⟩
  cases hstep with
  | write before =>
    refine ⟨_, fun row => ?_, find_setScore ..⟩
    split
    · exact ⟨_, _, rfl⟩
    · exact ⟨row.confidence, row.updatedAt, rfl⟩
  | feedback signal row hparse hfind =>
    refine ⟨_, fun row => ?_, find_setScoreOnly ..⟩
    split
    · exact ⟨_, _, rfl⟩
    · exact ⟨row.confidence, row.updatedAt, rfl⟩
  | decay examined rows hwet => exact keeps_setScores _ _ _
  | _ => exact hsame

section Inversions

variable {table after : ScoreTable} {phase : ScorePhase} {id reason : Text} {now : Stamp}
  {status : RuleStatus} {opts : SweepOpts}

theorem ScoreStep.of_read
    (hstep : ScoreStep table (.strengthen id now reason status) phase (.read before) after) :
    (table.skills.find id).isSome := by
  cases hstep with
  | read row hfind => rw [hfind, Option.isSome_some]

theorem ScoreStep.of_written {replaced : Option Rat}
    (hstep : ScoreStep table (.strengthen id now reason status) phase (.written before replaced)
      after) : phase = .read before ∧ replaced = scoreOf id table.skills := by
  cases hstep with
  | write before => exact ⟨rfl, rfl⟩

theorem ScoreStep.of_snapshot {examined : Nat}
    (hstep : ScoreStep table (.sweep opts) phase (.snapshot examined rows) after) :
    rows = (table.skills.rows.filter opts.stale).map (fun row => (row.id, row.confidence)) ∧
      after = table := by
  cases hstep with
  | snapshot examined => exact ⟨rfl, rfl⟩

end Inversions

theorem scoreStep_of_step {pool next : ScorePool ι} {i : ι}
    (htracked : pool.Tracked fun i phase => (calls i).rest phase)
    (hstep : pool.step serveScore observeScore i = some next) :
    ScoreStep pool.shared (calls i) (pool.phase i) (next.phase i) next.shared ∧
      ∀ j, j ≠ i → next.phase j = pool.phase j := by
  obtain ⟨query, resume, hprogram, rfl⟩ := Pool.step_eq_some.mp hstep
  rw [htracked i] at hprogram
  refine ⟨?_, fun j hne => Function.update_of_ne hne _ _⟩
  simp only [Function.update_self]
  exact scoreStep_of_rest pool.shared hprogram

/-! ## The invariant -/

structure ScoreInv (calls : ι → ScoreCall) (rule : Text) (initial : ScoreTable)
    (pool : ScorePool ι) :
    Prop where
  tracked : pool.Tracked fun i phase => (calls i).rest phase
  read : ∀ i id now reason status before, calls i = .strengthen id now reason status →
    pool.phase i = .read before → (pool.shared.skills.find id).isSome
  written : ∀ i now reason status before replaced, calls i = .strengthen rule now reason status →
    pool.phase i = .written before replaced → replaced = some before
  snapshot : ∀ i opts examined rows, calls i = .sweep opts →
    pool.phase i = .snapshot examined rows → (rows.map Prod.fst).Nodup ∧
      ∀ score, (rule, score) ∈ rows → ∃ row, pool.shared.skills.find rule = some row ∧
        opts.stale row = true
  events : ∀ event ∈ pool.shared.events, event.skillId = rule → event ∈ initial.events ∨
    ∃ i, (pool.phase i).event = some (event, some event.confidenceBefore)

theorem KeepsContent.stale {f : SkillRow → SkillRow} (hf : KeepsContent f) (opts : SweepOpts)
    (row : SkillRow) : opts.stale (f row) = opts.stale row := by
  obtain ⟨confidence, updatedAt, heq⟩ := hf row
  rw [heq]
  rfl

omit [DecidableEq ι] in
theorem scoreInv_start (initial : ScoreTable) :
    ScoreInv calls rule initial (scorePool calls initial) where
  tracked := fun i => by
    change (calls i).program = (calls i).rest .fresh
    cases calls i <;> rfl
  read := fun _ _ _ _ _ _ _ hphase => nomatch hphase
  written := fun _ _ _ _ _ _ _ hphase => nomatch hphase
  snapshot := fun _ _ _ _ _ hphase => nomatch hphase
  events := fun _ hevent _ => .inl hevent

theorem ScoreStep.event_eq_none {table after : ScoreTable} {phase : ScorePhase}
    (hstep : ScoreStep table call phase next after) :
    phase.event = none := by
  cases hstep <;> rfl

theorem events_step {table after : ScoreTable} {phase : ScorePhase}
    (hstep : ScoreStep table call phase next after)
    (hwritten : ∀ now reason status before replaced, call = .strengthen rule now reason status →
      phase = .written before replaced → replaced = some before) :
    after.events = table.events ∨ ∃ event replaced, after.events = table.events ++ [event] ∧
        next.event = some (event, replaced) ∧
        (event.skillId = rule → replaced = some event.confidenceBefore) := by
  cases hstep with
  | record before replaced =>
    refine .inr ⟨_, replaced, rfl, rfl, ?_⟩
    rintro rfl
    exact hwritten _ _ _ _ _ rfl rfl
  | feedback signal row hparse hfind => exact .inr ⟨_, _, rfl, rfl, fun _ => rfl⟩
  | _ => exact .inl rfl

theorem ScoreInv.step {initial : ScoreTable} {pool next : ScorePool ι} {i : ι}
    (hinv : ScoreInv calls rule initial pool) (hguard : Undisturbed calls rule pool i)
    (hstep : pool.step serveScore observeScore i = some next) :
    ScoreInv calls rule initial next := by
  obtain ⟨hmove, hothers⟩ := scoreStep_of_step hinv.tracked hstep
  constructor
  · exact hinv.tracked.step (fun i table phase query resume hrest =>
      rest_step (calls i) table phase query resume hrest) hstep
  · intro j id now reason status before hcall hphase
    obtain ⟨f, -, hfind⟩ := hmove.keeps id
    rw [hfind, Option.isSome_map]
    by_cases hj : j = i
    · rw [← hj, hcall, hphase] at hmove
      exact hmove.of_read
    · rw [hothers j hj] at hphase
      exact hinv.read j id now reason status before hcall hphase
  · intro j now reason status before replaced hcall hphase
    by_cases hj : j = i
    · rw [← hj, hcall, hphase] at hmove
      obtain ⟨hfrom, rfl⟩ := hmove.of_written
      obtain ⟨row, hrow⟩ := Option.isSome_iff_exists.mp
        (hinv.read j rule now reason status before hcall hfrom)
      have hscore : scoreOf rule pool.shared.skills = some row.confidence := by
        rw [scoreOf, hrow, Option.map_some]
      have hsame := hguard
      rw [Undisturbed, ← hj, hcall, hfrom] at hsame
      rw [hscore, hsame rfl _ hscore]
    · rw [hothers j hj] at hphase
      exact hinv.written j now reason status before replaced hcall hphase
  · intro j opts examined rows hcall hphase
    obtain ⟨f, hkeeps, hfind⟩ := hmove.keeps rule
    by_cases hj : j = i
    · rw [← hj, hcall, hphase] at hmove
      obtain ⟨rfl, hafter⟩ := hmove.of_snapshot
      rw [hafter]
      refine ⟨?_, fun score hmem => ?_⟩
      · rw [List.map_map]
        exact pool.shared.skills.nodup.sublist (List.filter_sublist.map _)
      · obtain ⟨row, hrow, heq⟩ := List.mem_map.mp hmem
        obtain ⟨rfl, -⟩ := Prod.mk.inj heq
        obtain ⟨hstored, hfits⟩ := List.mem_filter.mp hrow
        exact ⟨row, KeyedTable.find_eq_some.mpr ⟨hstored, rfl⟩, hfits⟩
    · rw [hothers j hj] at hphase
      obtain ⟨hnodup, hstale⟩ := hinv.snapshot j opts examined rows hcall hphase
      refine ⟨hnodup, fun score hmem => ?_⟩
      obtain ⟨row, hrow, hfits⟩ := hstale score hmem
      exact ⟨f row, by rw [hfind, hrow, Option.map_some], by rw [hkeeps.stale, hfits]⟩
  · intro event hevent hskill
    -- what was recorded before stays, and what a call recorded stays in its phase
    have hold : event ∈ pool.shared.events → event ∈ initial.events ∨
        ∃ j, (next.phase j).event = some (event, some event.confidenceBefore) := by
      intro hmem
      refine (hinv.events event hmem hskill).imp_right fun ⟨j, hrecorded⟩ => ⟨j, ?_⟩
      by_cases hj : j = i
      · rw [hj] at hrecorded ⊢
        rw [hmove.event_eq_none] at hrecorded
        contradiction
      · rw [hothers j hj, hrecorded]
    rcases events_step hmove (hinv.written i) with hsame | hnew
    · exact hold (hsame ▸ hevent)
    · obtain ⟨recorded, replaced, hevents, hphase, hreplaced⟩ := hnew
      rw [hevents, List.mem_append, List.mem_singleton] at hevent
      rcases hevent with hmem | rfl
      · exact hold hmem
      · exact .inr ⟨i, by rw [hphase, hreplaced hskill]⟩

/-! ## Calls act at once -/

def ruleEffect (calls : ι → ScoreCall) (i : ι) : Option SkillRow → Option SkillRow :=
  Option.map (calls i).effect

theorem map_effect_of_absent {id : Text} (hnone : skills.find id = none) {f : SkillRow → SkillRow}
    (hother : ∀ row, row.id ≠ id → f row = row) :
    skills.find rule = (skills.find rule).map f := by
  cases hfind : skills.find rule with
  | none => rfl
  | some row =>
    obtain ⟨-, hid⟩ := KeyedTable.find_eq_some.mp hfind
    rw [Option.map_some, hother row]
    rintro rfl
    rw [hid, hfind] at hnone
    contradiction

theorem find_setScore_effect {id reason : Text} {now : Stamp} {status : RuleStatus}
    (hsame : id = rule → ∀ score ∈ scoreOf rule skills, score = before) :
    (setScore id (strengthenedConfidence before) now skills).find rule =
      (skills.find rule).map (ScoreCall.strengthen id now reason status).effect := by
  rw [find_setScore]
  cases hfind : skills.find rule with
  | none => rfl
  | some row =>
    obtain ⟨-, hid⟩ := KeyedTable.find_eq_some.mp hfind
    simp only [Option.map_some, ScoreCall.effect]
    by_cases hown : row.id = id
    · have hscore : row.confidence = before :=
        hsame (hown.symm.trans hid) row.confidence (by simp [scoreOf, hfind])
      simp only [hown, if_true, hscore]
    · simp only [hown, if_false]

theorem find_feedback_effect {id raw : Text} {signal : ConfidenceSignal} {row : SkillRow}
    (hparse : ConfidenceSignal.parse raw = .ok signal) (hfind : skills.find id = some row) :
    (setScoreOnly id (signal.apply row.confidence) skills).find rule =
      (skills.find rule).map (ScoreCall.updateConfidence id raw).effect := by
  rw [find_setScoreOnly]
  cases hrule : skills.find rule with
  | none => rfl
  | some other =>
    simp only [Option.map_some, ScoreCall.effect, hparse]
    by_cases hown : other.id = id
    · obtain ⟨-, hid⟩ := KeyedTable.find_eq_some.mp hrule
      obtain rfl : other = row := by
        rw [← hid, hown, hfind] at hrule
        exact (Option.some.inj hrule).symm
      rfl
    · simp only [hown, if_false]

theorem nodup_decayed {opts : SweepOpts} (hnodup : (rows.map Prod.fst).Nodup) :
    (((opts.toDecay rows).map fun entry =>
      (entry.1, opts.decayed entry.2)).map Prod.fst).Nodup := by
  rw [List.map_map]
  exact hnodup.sublist (List.filter_sublist.map _)

theorem mem_decayed {opts : SweepOpts} {score : Rat} :
    (rule, score) ∈ (opts.toDecay rows).map (fun entry => (entry.1, opts.decayed entry.2)) ↔
      ∃ before, (rule, before) ∈ rows ∧ opts.minFloor < before ∧ opts.decayed before = score := by
  simp [SweepOpts.toDecay, and_assoc]

theorem find_setScores_effect {opts : SweepOpts}
    (hnodup : (rows.map Prod.fst).Nodup) (hwrites : opts.Writes rule rows)
    (hstale : ∀ score, (rule, score) ∈ rows → ∃ row, skills.find rule = some row ∧
      opts.stale row = true) (hsame : ∀ before, (rule, before) ∈ rows → opts.minFloor < before →
      ∀ score ∈ scoreOf rule skills, score = before) :
    (setScores ((opts.toDecay rows).map fun entry => (entry.1, opts.decayed entry.2)) opts.now
      skills).find rule = (skills.find rule).map (ScoreCall.sweep opts).effect := by
  obtain ⟨hwet, before, hmem, hfloor⟩ := hwrites
  obtain ⟨row, hrow, hfits⟩ := hstale before hmem
  have hscore : row.confidence = before := hsame before hmem hfloor _ (by simp [scoreOf, hrow])
  have hlookup := lookup_of_mem (nodup_decayed hnodup)
    (mem_decayed.mpr ⟨before, hmem, hfloor, rfl⟩)
  rw [find_setScores (nodup_decayed hnodup), hrow, Option.map_some, Option.map_some, hlookup]
  simp [ScoreCall.effect, hfits, hwet, hscore, hfloor]

theorem find_setScores_of_not_writes {opts : SweepOpts} (hnodup : (rows.map Prod.fst).Nodup)
    (hwet : opts.dryRun = false) (hnot : ¬ opts.Writes rule rows) :
    (setScores ((opts.toDecay rows).map fun entry => (entry.1, opts.decayed entry.2)) opts.now
      skills).find rule = skills.find rule := by
  have hlookup : ((opts.toDecay rows).map fun entry =>
      (entry.1, opts.decayed entry.2)).lookup rule = none := by
    rw [List.lookup_eq_none_iff]
    rintro ⟨id, score⟩ hmem
    rw [bne_iff_ne]
    rintro rfl
    obtain ⟨before, hread, hfloor, -⟩ := mem_decayed.mp hmem
    exact hnot ⟨hwet, before, hread, hfloor⟩
  rw [find_setScores (nodup_decayed hnodup), hlookup]
  exact Option.map_id_apply

theorem find_eq_effect_of_not_writes {table : ScoreTable} {opts : SweepOpts}
    (hnot : ¬ opts.Writes rule
      ((table.skills.rows.filter opts.stale).map fun row => (row.id, row.confidence))) :
    table.skills.find rule = (table.skills.find rule).map (ScoreCall.sweep opts).effect := by
  cases hfind : table.skills.find rule with
  | none => rfl
  | some row =>
    obtain ⟨hmem, hid⟩ := KeyedTable.find_eq_some.mp hfind
    have hkeep : ¬ (opts.stale row && !opts.dryRun && decide (opts.minFloor < row.confidence)) := by
      intro hhit
      simp only [Bool.and_eq_true, decide_eq_true_eq, Bool.not_eq_true'] at hhit
      obtain ⟨⟨hfits, hwet⟩, hfloor⟩ := hhit
      refine hnot ⟨hwet, row.confidence, ?_, hfloor⟩
      exact List.mem_map.mpr ⟨row, List.mem_filter.mpr ⟨hmem, hfits⟩, by rw [hid]⟩
    rw [Option.map_some, ScoreCall.effect, if_neg hkeep]

theorem atOnce_rule (initial : ScoreTable) :
    Pool.AtOnce serveScore observeScore (Undisturbed calls rule) (ScoreInv calls rule initial)
      (fun table => table.skills.find rule) (ruleEffect calls) (fun i => Acted rule (calls i)) := by
  intro pool i next hinv hguard hstep
  obtain ⟨hmove, -⟩ := scoreStep_of_step hinv.tracked hstep
  have hsnapshot := hinv.snapshot i
  rw [Undisturbed] at hguard
  rw [ruleEffect]
  beta_reduce
  generalize calls i = call at *
  generalize pool.phase i = phase at *
  generalize next.phase i = phase' at *
  generalize next.shared = after at *
  cases hmove with
  | absent hnone =>
    exact .inr ⟨not_false, trivial, map_effect_of_absent hnone fun row hne => if_neg hne⟩
  | read row hfind => exact .inl ⟨Iff.rfl, rfl⟩
  | write before => exact .inr ⟨not_false, trivial, find_setScore_effect hguard⟩
  | record before replaced => exact .inl ⟨Iff.rfl, rfl⟩
  | @unknown id raw hnone =>
    refine .inr ⟨not_false, trivial, map_effect_of_absent hnone fun row hne => ?_⟩
    rw [ScoreCall.effect]
    split
    · rfl
    · exact if_neg hne
  | feedback signal row hparse hfind =>
    exact .inr ⟨not_false, trivial, find_feedback_effect hparse hfind⟩
  | count examined => exact .inl ⟨Iff.rfl, rfl⟩
  | @snapshot opts examined =>
    by_cases hwrites : opts.Writes rule
        ((pool.shared.skills.rows.filter opts.stale).map fun row => (row.id, row.confidence))
    · exact .inl ⟨iff_of_false (not_not.mpr hwrites) not_false, rfl⟩
    · exact .inr ⟨not_false, hwrites, find_eq_effect_of_not_writes hwrites⟩
  | @decay opts examined rows hwet =>
    obtain ⟨hnodup, hstale⟩ := hsnapshot opts examined rows rfl rfl
    by_cases hwrites : opts.Writes rule rows
    · exact .inr ⟨not_not.mpr hwrites, trivial,
        find_setScores_effect hnodup hwrites hstale (hguard hwet)⟩
    · exact .inl ⟨iff_of_true trivial hwrites, find_setScores_of_not_writes hnodup hwet hwrites⟩

/-! ## One after another -/

theorem effect_of_error {id raw message : Text}
    (hparse : ConfidenceSignal.parse raw = .error message) :
    (ScoreCall.updateConfidence id raw).effect = fun row => row := by
  funext row
  simp only [ScoreCall.effect, hparse]

theorem mem_candidates {opts : SweepOpts} {score : Rat} :
    (rule, score) ∈ ((skills.rows.filter opts.stale).map fun row => (row.id, row.confidence)) ↔
      ∃ row, skills.find rule = some row ∧ opts.stale row = true ∧ row.confidence = score := by
  constructor
  · intro hmem
    obtain ⟨row, hrow, heq⟩ := List.mem_map.mp hmem
    obtain ⟨hstored, hfits⟩ := List.mem_filter.mp hrow
    obtain ⟨hid, hscore⟩ := Prod.mk.inj heq
    exact ⟨row, KeyedTable.find_eq_some.mpr ⟨hstored, hid⟩, hfits, hscore⟩
  · rintro ⟨row, hrow, hfits, rfl⟩
    obtain ⟨hstored, rfl⟩ := KeyedTable.find_eq_some.mp hrow
    exact List.mem_map.mpr ⟨row, List.mem_filter.mpr ⟨hstored, hfits⟩, rfl⟩

theorem nodup_candidates (skills : SkillTable) (opts : SweepOpts) :
    (((skills.rows.filter opts.stale).map fun row => (row.id, row.confidence)).map
      Prod.fst).Nodup := by
  rw [List.map_map]
  exact skills.nodup.sublist (List.filter_sublist.map _)

theorem SweepOpts.Writes.decays {opts : SweepOpts} (hwrites : opts.Writes rule rows) :
    (opts.dryRun || (opts.toDecay rows).isEmpty) = false := by
  obtain ⟨hwet, before, hmem, hfloor⟩ := hwrites
  rw [hwet, Bool.false_or, List.isEmpty_eq_false_iff_exists_mem]
  exact ⟨_, List.mem_filter.mpr ⟨hmem, decide_eq_true hfloor⟩⟩

theorem find_run_commit {opts : SweepOpts} (table : ScoreTable)
    (examined : Nat) (hnodup : (rows.map Prod.fst).Nodup)
    (hstale : ∀ score, (rule, score) ∈ rows → ∃ row, table.skills.find rule = some row ∧
      opts.stale row = true ∧ row.confidence = score) (hnot : ¬ opts.Writes rule rows →
      table.skills.find rule = (table.skills.find rule).map (ScoreCall.sweep opts).effect) :
    ((opts.commit examined rows).run serveScore table).2.skills.find rule =
      (table.skills.find rule).map (ScoreCall.sweep opts).effect := by
  by_cases hwrites : opts.Writes rule rows
  · rw [SweepOpts.commit, hwrites.decays]
    refine find_setScores_effect hnodup hwrites ?_ ?_
    · intro score hread
      obtain ⟨row, hrow, hfits, -⟩ := hstale score hread
      exact ⟨row, hrow, hfits⟩
    · intro score hread _ other hother
      obtain ⟨row, hrow, -, rfl⟩ := hstale score hread
      rw [scoreOf, hrow] at hother
      exact (Option.some.inj hother).symm
  · rw [← hnot hwrites, SweepOpts.commit]
    split
    · rfl
    next hdecays =>
      rw [Bool.not_eq_true, Bool.or_eq_false_iff] at hdecays
      exact find_setScores_of_not_writes hnodup hdecays.1 hwrites

theorem find_run (call : ScoreCall) (table : ScoreTable) (rule : Text) :
    (call.run table).skills.find rule = (table.skills.find rule).map call.effect := by
  cases call with
  | strengthen id now reason status =>
    simp only [ScoreCall.run, ScoreCall.program, strengthenProgram, Program.run, serveScore]
    cases hfind : table.skills.find id with
    | none =>
      simp only [scoreOf, hfind, Option.map_none, Program.run]
      exact map_effect_of_absent hfind fun row hne => if_neg hne
    | some row =>
      simp only [scoreOf, hfind, Option.map_some, Program.run, serveScore]
      refine find_setScore_effect fun hown score hscore => ?_
      rw [← hown, scoreOf, hfind] at hscore
      exact (Option.some.inj hscore).symm
  | updateConfidence id raw =>
    simp only [ScoreCall.run, ScoreCall.program, updateConfidenceProgram]
    cases hparse : ConfidenceSignal.parse raw with
    | error message =>
      rw [effect_of_error hparse]
      exact Option.map_id_apply.symm
    | ok signal =>
      simp only [Program.run, serveScore]
      cases hfind : table.skills.find id with
      | none =>
        simp only [Program.run]
        refine map_effect_of_absent hfind fun row hne => ?_
        simp only [ScoreCall.effect, hparse, hne, if_false]
      | some row =>
        simp only [Program.run]
        exact find_feedback_effect hparse hfind
  | sweep opts =>
    simp only [ScoreCall.run, ScoreCall.program, sweepProgram, Program.run, serveScore]
    exact find_run_commit table _ (nodup_candidates ..) (fun _ => mem_candidates.mp)
      find_eq_effect_of_not_writes

omit [DecidableEq ι] in
theorem find_foldl_run (calls : ι → ScoreCall) (order : List ι) (table : ScoreTable) (rule : Text) :
    (order.foldl (fun table i => (calls i).run table) table).skills.find rule =
      order.foldl (fun seen i => ruleEffect calls i seen) (table.skills.find rule) := by
  induction order generalizing table with
  | nil => rfl
  | cons i rest ih => rw [List.foldl_cons, List.foldl_cons, ih, find_run, ruleEffect]

theorem acted_of_done {phase : ScorePhase} {result : ScoreResult}
    (hdone : call.rest phase = .done result) :
    Acted rule call phase ∨ call.effect = fun row => row := by
  cases call with
  | strengthen id now reason status =>
    cases phase with
    | fresh => contradiction
    | read before => contradiction
    | _ => exact .inl trivial
  | updateConfidence id raw =>
    cases phase with
    | fresh =>
      cases hparse : ConfidenceSignal.parse raw with
      | error message => exact .inr (effect_of_error hparse)
      | ok signal =>
        simp only [ScoreCall.rest, ScoreCall.program, updateConfidenceProgram, hparse] at hdone
        contradiction
    | _ => exact .inl trivial
  | sweep opts =>
    cases phase with
    | fresh => contradiction
    | counted examined => contradiction
    | snapshot examined rows =>
      refine .inl fun hwrites => ?_
      rw [ScoreCall.rest, SweepOpts.commit, hwrites.decays] at hdone
      contradiction
    | _ => exact .inl trivial

/-- If every call that writes the rule still finds the score that it read, then the calls leave the
rule as some order of them leaves it that runs each alone, and every event that they record of the
rule has the score that its update replaced. -/
theorem scores_serial [Fintype ι] {initial : ScoreTable} {schedule : List ι} {final : ScorePool ι}
    (hrun : Run (Pool.step serveScore observeScore) (Undisturbed calls rule)
      (scorePool calls initial) schedule final)
    (hdone : ∀ i, ∃ result, final.program i = .done result) :
    (∃ order : List ι, order.Nodup ∧ (∀ i, i ∈ order) ∧ scoreOf rule final.shared.skills =
        scoreOf rule (order.foldl (fun table i => (calls i).run table) initial).skills) ∧
    ∀ event ∈ final.shared.events, event.skillId = rule → event ∈ initial.events ∨
      ∃ i replaced, (final.phase i).event = some (event, some replaced) ∧
        event.confidenceBefore = replaced := by
  have hinv : ScoreInv calls rule initial final :=
    hrun.invariant (fun _ _ _ hinv hguard hstep => hinv.step hguard hstep) (scoreInv_start initial)
  constructor
  · obtain ⟨order, hnodup, hacted, hview⟩ := Pool.exists_order (atOnce_rule initial)
      (fun _ _ _ hinv hguard hstep => hinv.step hguard hstep) hrun (scoreInv_start initial)
      (fun i hacted => by
        cases hcall : calls i <;> simp [hcall, scorePool, Pool.start, Acted] at hacted)
    -- a call that never acted was refused, and may come last
    let refused := Finset.univ.toList.filter fun i => i ∉ order
    have hrefused : ∀ i ∈ refused, (calls i).effect = fun row => row := by
      intro i hi
      obtain ⟨result, hprogram⟩ := hdone i
      rw [hinv.tracked i] at hprogram
      have hacts : Acted rule (calls i) (final.phase i) ∨ (calls i).effect = fun row => row :=
        acted_of_done hprogram
      refine hacts.resolve_left fun hdid => ?_
      exact of_decide_eq_true (List.mem_filter.mp hi).2 ((hacted i).mpr hdid)
    have hkept : ∀ (rest : List ι) (seen : Option SkillRow), (∀ i ∈ rest, i ∈ refused) →
        rest.foldl (fun seen i => ruleEffect calls i seen) seen = seen := by
      intro rest seen hrest
      induction rest with
      | nil => rfl
      | cons i rest ih =>
        obtain ⟨hi, hrest⟩ := List.forall_mem_cons.mp hrest
        rw [List.foldl_cons, ruleEffect, hrefused i hi, Option.map_id', ih hrest]
    refine ⟨order ++ refused, ?_, fun i => ?_, ?_⟩
    · refine hnodup.append (Finset.univ.nodup_toList.filter _) ?_
      intro i hi hrefuse
      exact of_decide_eq_true (List.mem_filter.mp hrefuse).2 hi
    · by_cases hi : i ∈ order
      · exact List.mem_append_left _ hi
      · exact List.mem_append_right _ (List.mem_filter.mpr ⟨by simp, decide_eq_true hi⟩)
    · rw [scoreOf, scoreOf, hview, find_foldl_run, List.foldl_append,
        hkept refused _ fun _ hi => hi]
      rfl
  · intro event hevent hskill
    refine (hinv.events event hevent hskill).imp_right fun ⟨i, hrecorded⟩ => ?_
    exact ⟨i, _, hrecorded, rfl⟩

end Runs

def halfTable : ScoreTable where
  skills := KeyedTable.empty.insertOrIgnore
    { id := ['r']
      name := ['t']
      source := localSource
      version := firstVersion
      confidence := 1 / 2
      origin := conversation
      installedAt := []
      updatedAt := [] }
  events := []

def twoCalls : Fin 2 → ScoreCall
  | 0 => .strengthen ['r'] [] windowReason .active
  | 1 => .updateConfidence ['r'] "accept"

/-- The acceptance comes between the read and the write of the strengthening. -/
theorem acceptance_lost :
    ∃ final, Run (Pool.step serveScore observeScore) (fun _ _ => True)
      (scorePool twoCalls halfTable)
        [0, 1, 0, 0] final ∧
      (∀ i, ∃ result, final.program i = .done result) ∧
      (∀ order : List (Fin 2), order.Nodup → (∀ i, i ∈ order) → scoreOf ['r'] final.shared.skills ≠
          scoreOf ['r'] (order.foldl (fun table i => (twoCalls i).run table) halfTable).skills) ∧
      (final.phase 0).event = some (strengthenEvent ['r'] windowReason .active (1 / 2),
        some (11 / 20)) := by
  refine ⟨_, Run.of_execute rfl,
    ?_, ?_, ?_⟩
  · exact Fin.forall_fin_two.mpr ⟨⟨_, rfl⟩, ⟨_, rfl⟩⟩
  · intro order hnodup hall
    have hperm : order.Perm [0, 1] := by
      rw [List.perm_ext_iff_of_nodup hnodup (by decide)]
      exact Fin.forall_fin_two.mpr ⟨by simp [hall], by simp [hall]⟩
    obtain ⟨a, b, rfl⟩ := List.length_eq_two.mp hperm.length_eq
    clear hall hperm
    revert a b
    decide +kernel
  · decide +kernel

theorem scores_serial_interleaved :
    ∃ final, Run (Pool.step serveScore observeScore) (Undisturbed twoCalls ['r'])
        (scorePool twoCalls halfTable) [0, 0, 1, 0] final ∧
      ∃ order : List (Fin 2), order.Nodup ∧ (∀ i, i ∈ order) ∧ scoreOf ['r'] final.shared.skills =
          scoreOf ['r'] (order.foldl (fun table i => (twoCalls i).run table) halfTable).skills := by
  have hends : ∃ final, Run (Pool.step serveScore observeScore) (Undisturbed twoCalls ['r'])
      (scorePool twoCalls halfTable) [0, 0, 1, 0] final ∧
        ∀ i, ∃ result, final.program i = .done result := by
    refine ⟨_, .cons trivial rfl (.cons ?_ rfl (.cons trivial rfl (.cons trivial rfl (.nil _)))),
      Fin.forall_fin_two.mpr ⟨⟨_, rfl⟩, ⟨_, rfl⟩⟩⟩
    intro _ score hscore
    exact (Option.some.inj hscore).symm
  obtain ⟨final, hrun, hdone⟩ := hends
  exact ⟨final, hrun, (scores_serial hrun hdone).1⟩

end Difflore.Skills

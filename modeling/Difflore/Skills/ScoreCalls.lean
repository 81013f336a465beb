import Difflore.Foundation.Pool
import Difflore.Skills.Promotion

/-! # The calls that change a score

Three functions read the score of a rule, compute a new one and write it: a strengthening by single
statements, the feedback of a user in one transaction, and a sweep whose reads come before its
transaction. Each is a program of statements.
-/

namespace Difflore.Skills

open Foundation Infra Context

inductive ConfidenceSignal
  | accept
  | reject

def ConfidenceSignal.parse (raw : Text) : Except Text ConfidenceSignal :=
  if raw = "accept" then .ok .accept
  else if raw = "reject" then .ok .reject
  else .error "signal must be one of: accept, reject"

def ConfidenceSignal.delta : ConfidenceSignal → Rat
  | .accept => 1 / 20
  | .reject => -1 / 10

inductive FeedbackKind
  | feedbackAccept
  | feedbackDismiss
  deriving DecidableEq

def ConfidenceSignal.eventKind : ConfidenceSignal → FeedbackKind
  | .accept => .feedbackAccept
  | .reject => .feedbackDismiss

def ConfidenceSignal.apply (signal : ConfidenceSignal) (before : Rat) : Rat :=
  min (max (before + signal.delta) 0) 1

/-! ## The database -/

/-- A row of `rule_events` about a score, with its metadata. -/
structure ScoreEvent where
  skillId : Text
  kind : FeedbackKind
  source : Text
  confidenceBefore : Rat
  confidenceAfter : Rat
  reason : Option Text
  signal : Text
  delta : Rat
  trustState : Option RuleStatus
  deriving DecidableEq

structure ScoreTable where
  skills : SkillTable
  events : List ScoreEvent

def scoreOf (id : Text) (skills : SkillTable) : Option Rat :=
  (skills.find id).map SkillRow.confidence

/-- `UPDATE skills SET confidence_score, updated_at WHERE id`. -/
def setScore (id : Text) (score : Rat) (now : Stamp) (skills : SkillTable) : SkillTable :=
  skills.update (fun row => row.id = id)
    (fun row => { row with confidence := score, updatedAt := now }) fun _ => rfl

theorem id_scored (score : Rat) (row : SkillRow) :
    ({ row with confidence := score } : SkillRow).id = row.id := rfl

/-- `UPDATE skills SET confidence_score WHERE id`: the row is not stamped. -/
def setScoreOnly (id : Text) (score : Rat) (skills : SkillTable) : SkillTable :=
  skills.update (fun row => row.id = id) (fun row => { row with confidence := score })
    (id_scored score)

structure ConfidenceChange where
  before : Rat
  after : Rat
  name : Text

def feedbackEvent (id raw : Text) (signal : ConfidenceSignal) (before : Rat) : ScoreEvent where
  skillId := id
  kind := signal.eventKind
  source := "local_feedback"
  confidenceBefore := before
  confidenceAfter := signal.apply before
  reason := none
  signal := raw
  delta := signal.delta
  trustState := none

def strengthenEvent (id reason : Text) (status : RuleStatus) (before : Rat) : ScoreEvent where
  skillId := id
  kind := .feedbackAccept
  source := "remember_rule"
  confidenceBefore := before
  confidenceAfter := strengthenedConfidence before
  reason := some reason
  signal := "remember_rule_dedup"
  delta := 1 / 20
  trustState := some status

/-- `SweepOpts`, with what the queries of a sweep read besides the rules: which install times lie
before the window, and which rules were served in it or have an accepted fix. -/
structure SweepOpts where
  old : Stamp → Bool
  served : Text → Bool
  accepted : Text → Bool
  decayFactor : Rat
  dryRun : Bool
  minFloor : Rat
  now : Stamp

def SweepOpts.stale (opts : SweepOpts) (row : SkillRow) : Bool :=
  opts.old row.installedAt && !opts.served row.id && !opts.accepted row.id

structure SweepReport where
  examined : Nat
  decayed : Nat
  skippedBecauseActive : Nat
  skippedBecauseAlreadyAtFloor : Nat
  dryRun : Bool

inductive ScoreQuery
  | score (id : Text)
  | setScore (id : Text) (score : Rat) (now : Stamp)
  | insertEvent (event : ScoreEvent)
  /-- The transaction of `update_confidence`. -/
  | feedback (id raw : Text) (signal : ConfidenceSignal)
  | countOld (opts : SweepOpts)
  | candidates (opts : SweepOpts)
  /-- The transaction of `sweep_stale_skills`. -/
  | decay (scores : List (Text × Rat)) (now : Stamp)

def ScoreQuery.Answer : ScoreQuery → Type
  | .score _ => Option Rat
  | .setScore .. => Unit
  | .insertEvent _ => Unit
  | .feedback .. => Option ConfidenceChange
  | .countOld _ => Nat
  | .candidates _ => List (Text × Rat)
  | .decay .. => Unit

def setScores (scores : List (Text × Rat)) (now : Stamp) (skills : SkillTable) : SkillTable :=
  scores.foldl (fun skills entry => setScore entry.1 entry.2 now skills) skills

def serveScore (table : ScoreTable) : (query : ScoreQuery) → query.Answer × ScoreTable
  | .score id => (scoreOf id table.skills, table)
  | .setScore id score now => ((), { table with skills := setScore id score now table.skills })
  | .insertEvent event => ((), { table with events := table.events ++ [event] })
  | .feedback id raw signal =>
    match table.skills.find id with
    | none => (none, table)
    | some row =>
      (some ⟨row.confidence, signal.apply row.confidence, row.name⟩,
        { skills := setScoreOnly id (signal.apply row.confidence) table.skills
          events := table.events ++ [feedbackEvent id raw signal row.confidence] })
  | .countOld opts => (table.skills.rows.countP fun row => opts.old row.installedAt, table)
  | .candidates opts =>
    ((table.skills.rows.filter opts.stale).map fun row => (row.id, row.confidence), table)
  | .decay scores now => ((), { table with skills := setScores scores now table.skills })

inductive ScoreResult
  | strengthened (after : Rat)
  | changed (change : ConfidenceChange)
  | swept (report : SweepReport)
  | missing
  | failed (message : Text)

abbrev ScoreProgram := Program ScoreQuery ScoreQuery.Answer ScoreResult

/-- `strengthen_existing_remember_rule`. -/
def strengthenProgram (id : Text) (now : Stamp) (reason : Text) (status : RuleStatus) :
    ScoreProgram :=
  .ask (.score id) fun
    | none => .done .missing
    | some before =>
      .ask (.setScore id (strengthenedConfidence before) now) fun _ =>
        .ask (.insertEvent (strengthenEvent id reason status before)) fun _ =>
          .done (.strengthened (strengthenedConfidence before))

def unknownRuleError (id raw : Text) : Text :=
  "rule '" ++ (id ++ ("' not found; cannot apply " ++ (raw ++
    (" feedback. Run `difflore status --json` to inspect current local rule ids."))))

def updateConfidenceProgram (id raw : Text) : ScoreProgram :=
  match ConfidenceSignal.parse raw with
  | .error message => .done (.failed message)
  | .ok signal =>
    .ask (.feedback id raw signal) fun
      | none => .done (.failed (unknownRuleError id raw))
      | some change => .done (.changed change)

def SweepOpts.toDecay (opts : SweepOpts) (rows : List (Text × Rat)) : List (Text × Rat) :=
  rows.filter fun entry => opts.minFloor < entry.2

def SweepOpts.report (opts : SweepOpts) (examined : Nat) (rows : List (Text × Rat)) : SweepReport :=
  let decayed := (opts.toDecay rows).length
  let atFloor := rows.length - decayed
  { examined
    decayed
    skippedBecauseActive := examined - (decayed + atFloor)
    skippedBecauseAlreadyAtFloor := atFloor
    dryRun := opts.dryRun }

def SweepOpts.decayed (opts : SweepOpts) (score : Rat) : Rat :=
  max (score * opts.decayFactor) opts.minFloor

/-- `sweep_stale_skills`, when its queries have been answered. -/
def SweepOpts.commit (opts : SweepOpts) (examined : Nat) (rows : List (Text × Rat)) :
    ScoreProgram :=
  if opts.dryRun || (opts.toDecay rows).isEmpty then .done (.swept (opts.report examined rows))
  else
    .ask (.decay ((opts.toDecay rows).map fun entry => (entry.1, opts.decayed entry.2)) opts.now)
      fun _ => .done (.swept (opts.report examined rows))

/-- `sweep_stale_skills`. -/
def sweepProgram (opts : SweepOpts) : ScoreProgram :=
  .ask (.countOld opts) fun examined =>
    .ask (.candidates opts) fun rows => opts.commit examined rows

inductive ScoreCall
  | strengthen (id : Text) (now : Stamp) (reason : Text) (status : RuleStatus)
  | updateConfidence (id raw : Text)
  | sweep (opts : SweepOpts)

def ScoreCall.program : ScoreCall → ScoreProgram
  | .strengthen id now reason status => strengthenProgram id now reason status
  | .updateConfidence id raw => updateConfidenceProgram id raw
  | .sweep opts => sweepProgram opts

def ScoreCall.run (call : ScoreCall) (table : ScoreTable) : ScoreTable :=
  (call.program.run serveScore table).2

def ScoreCall.effect : ScoreCall → SkillRow → SkillRow
  | .strengthen id now _ _, row =>
    if row.id = id then
      { row with confidence := strengthenedConfidence row.confidence, updatedAt := now }
    else row
  | .updateConfidence id raw, row =>
    match ConfidenceSignal.parse raw with
    | .error _ => row
    | .ok signal =>
      if row.id = id then { row with confidence := signal.apply row.confidence } else row
  | .sweep opts, row =>
    if opts.stale row && !opts.dryRun && opts.minFloor < row.confidence then
      { row with confidence := opts.decayed row.confidence, updatedAt := opts.now }
    else row

section Rows

variable {skills : SkillTable} {rule : Text}

theorem find_setScore (id : Text) (score : Rat) (now : Stamp) :
    (setScore id score now skills).find rule = (skills.find rule).map fun row =>
      if row.id = id then { row with confidence := score, updatedAt := now } else row := by
  rw [setScore, KeyedTable.find_update]
  simp only [decide_eq_true_eq]

theorem find_setScoreOnly (id : Text) (score : Rat) :
    (setScoreOnly id score skills).find rule = (skills.find rule).map fun row =>
      if row.id = id then { row with confidence := score } else row := by
  rw [setScoreOnly, KeyedTable.find_update]
  simp only [decide_eq_true_eq]

theorem find_setScores {scores : List (Text × Rat)} (hnodup : (scores.map Prod.fst).Nodup)
    (now : Stamp) (skills : SkillTable) :
    (setScores scores now skills).find rule = (skills.find rule).map fun row =>
      match scores.lookup rule with
      | some score => { row with confidence := score, updatedAt := now }
      | none => row := by
  induction scores generalizing skills with
  | nil => simp [setScores]
  | cons entry rest ih =>
    obtain ⟨id, score⟩ := entry
    rw [List.map_cons, List.nodup_cons] at hnodup
    rw [setScores, List.foldl_cons, ← setScores, ih hnodup.2, find_setScore, Option.map_map]
    refine Option.map_congr fun row hrow => ?_
    obtain ⟨-, rfl⟩ := KeyedTable.find_eq_some.mp hrow
    by_cases hsame : row.id = id
    · subst id
      have hnone : rest.lookup row.id = none := by
        rw [List.lookup_eq_none_iff]
        rintro ⟨other, value⟩ hmem
        have hne : row.id ≠ other := by
          rintro rfl
          exact hnodup.1 (List.mem_map.mpr ⟨_, hmem, rfl⟩)
        simpa using hne
      simp [hnone]
    · have hfalse : (row.id == id) = false := by simpa using hsame
      simp [List.lookup_cons, hsame, hfalse]

theorem lookup_of_mem {scores : List (Text × Rat)} (hnodup : (scores.map Prod.fst).Nodup)
    {id : Text} {score : Rat} (hmem : (id, score) ∈ scores) : scores.lookup id = some score := by
  induction scores with
  | nil => contradiction
  | cons entry rest ih =>
    obtain ⟨other, value⟩ := entry
    rw [List.map_cons, List.nodup_cons] at hnodup
    rcases List.mem_cons.mp hmem with heq | hrest
    · obtain ⟨rfl, rfl⟩ := Prod.mk.inj heq
      exact List.lookup_cons_self
    · have hne : (id == other) = false := by
        rw [beq_eq_false_iff_ne]
        rintro rfl
        exact hnodup.1 (List.mem_map.mpr ⟨_, hrest, rfl⟩)
      rw [List.lookup_cons, hne]
      exact ih hnodup.2 hrest

theorem keeps_setScores (scores : List (Text × Rat)) (now : Stamp) (skills : SkillTable) :
    ∃ f, KeepsContent f ∧ (setScores scores now skills).find rule = (skills.find rule).map f := by
  induction scores generalizing skills with
  | nil => exact ⟨id, keepsContent_id, Option.map_id_apply.symm⟩
  | cons entry rest ih =>
    obtain ⟨f, hf, hfind⟩ := ih (setScore entry.1 entry.2 now skills)
    rw [setScores, List.foldl_cons, ← setScores, hfind, find_setScore, Option.map_map]
    refine ⟨_, KeepsContent.comp (fun row => ?_) hf, rfl⟩
    split
    · exact ⟨_, _, rfl⟩
    · exact ⟨row.confidence, row.updatedAt, rfl⟩

end Rows

end Difflore.Skills

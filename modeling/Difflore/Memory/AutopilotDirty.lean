import Difflore.Memory.AutopilotSchedule

/-! # The dirty flag of the autopilot schedule

A mark sets the flag and its time. A finish compares that time with the start of its run
and clears the flag if the run started later; it asks nothing about how the run ended.
-/

namespace Difflore.Memory.Autopilot

open Foundation

/-- The flag was cleared only by runs that succeeded and started after the latest mark, and
it is off only if such a run came after the latest mark. -/
structure MarksKept (world : World) : Prop where
  cleared : ∀ clearing ∈ world.clearings, clearing.outcome.succeeded = true ∧
    ∀ mark ∈ clearing.latestMark, mark < clearing.startedAt
  handled : world.row.dirty = false → ∀ mark ∈ world.latestMark,
    ∃ clearing ∈ world.clearings, clearing.latestMark = some mark

/-- A run that ends in an error has lost its lease, or finds the flag off, or started no
later than the latest mark. -/
def FailureKeepsFlag (world : World) (timed : Nat × Action) : Prop :=
  match timed.2 with
  | .finishRun owner (.error _) =>
    world.row.leaseOwner ≠ some owner ∨ world.row.dirty = false ∨
      ∃ mark ∈ world.row.lastDirtyAt, ∀ run ∈ world.runs owner, run.startedAt ≤ mark
  | _ => True

instance (world : World) : (timed : Nat × Action) → Decidable (FailureKeepsFlag world timed)
  | (_, .finishRun owner (.error _)) =>
    inferInstanceAs (Decidable (world.row.leaseOwner ≠ some owner ∨ world.row.dirty = false ∨
      ∃ mark ∈ world.row.lastDirtyAt, ∀ run ∈ world.runs owner, run.startedAt ≤ mark))
  | (_, .finishRun _ (.ok ..)) | (_, .markDirty _) | (_, .acquire ..) | (_, .recordSkip _)
  | (_, .acquireManual _) | (_, .noteSpawnSuccess _) | (_, .release ..) | (_, .startRun _)
  | (_, .checkRun _) => isTrue trivial

/-- The flag is left alone, set by a mark, or cleared by the owner of the lease. -/
inductive MarkStep (now : Nat) (world : World) : Action → World → Prop
  | kept {action : Action} {next : World} (hdirty : next.row.dirty = world.row.dirty)
      (hlast : next.row.lastDirtyAt = world.row.lastDirtyAt)
      (hlatest : next.latestMark = world.latestMark)
      (hclearings : next.clearings = world.clearings) : MarkStep now world action next
  | marked {action : Action} {next : World} (hdirty : next.row.dirty = true)
      (hlast : next.row.lastDirtyAt = some now) (hlatest : next.latestMark = some now)
      (hclearings : next.clearings = world.clearings) : MarkStep now world action next
  | cleared {next : World} (owner : Owner) (outcome : RunOutcome) (run : BackgroundRun)
      (howner : world.row.leaseOwner = some owner) (hrun : world.runs owner = some run)
      (hset : world.row.dirty = true)
      (hlater : ∀ mark ∈ world.row.lastDirtyAt, mark < run.startedAt)
      (hlast : next.row.lastDirtyAt = world.row.lastDirtyAt)
      (hlatest : next.latestMark = world.latestMark)
      (hclearings : next.clearings =
        ⟨outcome, run.startedAt, world.latestMark⟩ :: world.clearings) :
      MarkStep now world (.finishRun owner outcome) next

/-- A finish clears the flag if its owner has the lease and its run started after the time
of the latest mark. -/
theorem finish_dirty (row : Schedule) (now : Nat) (owner : Owner) (startedAt : Nat)
    (outcome : RunOutcome) :
    (row.finish now owner startedAt outcome).dirty =
      (row.dirty && !(row.leaseOwner = some owner && row.lastDirtyAt.all (· < startedAt))) := by
  unfold Schedule.finish
  split
  next howner =>
    cases hlater : row.lastDirtyAt.all (· < startedAt)
    · simp [howner]
    · simp [howner]
  next hother => simp [hother]

theorem finish_lastDirtyAt (row : Schedule) (now : Nat) (owner : Owner) (startedAt : Nat)
    (outcome : RunOutcome) :
    (row.finish now owner startedAt outcome).lastDirtyAt = row.lastDirtyAt := by
  unfold Schedule.finish
  split
  · rfl
  · rfl

theorem act_marks {world next : World} {now : Nat} {action : Action}
    (hacted : Acted now world action next) : MarkStep now world action next := by
  cases hacted with
  | marked => exact .marked rfl rfl rfl rfl
  | acquired | refused | skipped | acquiredManual | refusedManual | started | checked =>
    exact .kept rfl rfl rfl rfl
  | noted =>
    unfold Schedule.noteSpawnSuccess
    split
    · exact .kept rfl rfl rfl rfl
    · exact .kept rfl rfl rfl rfl
  | released =>
    unfold Schedule.release
    split
    · exact .kept rfl rfl rfl rfl
    · exact .kept rfl rfl rfl rfl
  | finished owner outcome run hrun =>
    have hlast := finish_lastDirtyAt world.row now owner run.startedAt outcome
    have hdirty := finish_dirty world.row now owner run.startedAt outcome
    cases hset : world.row.dirty with
    | false =>
      rw [hset, Bool.false_and] at hdirty
      refine .kept ?_ hlast rfl ?_
      · rw [hset]
        exact hdirty
      · simp
    | true =>
      rw [hset, Bool.true_and] at hdirty
      cases hclears : (decide (world.row.leaseOwner = some owner) &&
          world.row.lastDirtyAt.all (· < run.startedAt)) with
      | false =>
        rw [hclears, Bool.not_false] at hdirty
        refine .kept ?_ hlast rfl ?_
        · rw [hset]
          exact hdirty
        · simp [hdirty]
      | true =>
        rw [hclears, Bool.not_true] at hdirty
        simp only [Bool.and_eq_true, decide_eq_true_eq, Option.all_eq_true] at hclears
        refine .cleared owner outcome run hclears.1 hrun hset hclears.2 hlast rfl ?_
        simp [hdirty]

structure MarkInvariant (world : World) : Prop where
  recorded : world.row.lastDirtyAt = world.latestMark
  kept : MarksKept world

theorem MarkInvariant.initial : MarkInvariant .initial where
  recorded := rfl
  kept :=
    { cleared := fun _ hmem => absurd hmem List.not_mem_nil
      handled := fun _ _ hmark => absurd hmark (Option.not_mem_none _) }

theorem MarkInvariant.step {world next : World} {timed : Nat × Action}
    (hinv : MarkInvariant world) (hkeeps : FailureKeepsFlag world timed)
    (hstep : world.step timed = some next) : MarkInvariant next := by
  obtain ⟨_, hact⟩ := World.step_eq_some.mp hstep
  obtain ⟨now, action⟩ := timed
  cases act_marks (World.act_cases hact) with
  | kept hdirty hlast hlatest hclearings =>
    constructor
    · rw [hlast, hlatest]
      exact hinv.recorded
    · constructor
      · rw [hclearings]
        exact hinv.kept.cleared
      · rw [hdirty, hlatest, hclearings]
        exact hinv.kept.handled
  | marked hdirty hlast hlatest hclearings =>
    constructor
    · rw [hlast, hlatest]
    · constructor
      · rw [hclearings]
        exact hinv.kept.cleared
      · intro hoff
        rw [hdirty] at hoff
        contradiction
  | cleared owner outcome run howner hrun hset hlater hlast hlatest hclearings =>
    constructor
    · rw [hlast, hlatest]
      exact hinv.recorded
    · constructor
      · intro clearing hmem
        rw [hclearings] at hmem
        rcases List.mem_cons.mp hmem with rfl | hold
        · constructor
          · cases outcome with
            | ok => rfl
            | error message =>
              -- The condition leaves no failed run that could have cleared the flag.
              exfalso
              rcases hkeeps with hlost | hoff | ⟨mark, hmark, hstarted⟩
              · exact hlost howner
              · exact absurd hset (by rw [hoff]; exact Bool.false_ne_true)
              · exact absurd (hlater mark hmark) (Nat.not_lt.mpr (hstarted run hrun))
          · intro mark hmark
            apply hlater mark
            rw [hinv.recorded]
            exact hmark
        · exact hinv.kept.cleared clearing hold
      · intro _ mark hmark
        refine ⟨_, hclearings ▸ List.mem_cons_self, ?_⟩
        rw [← Option.mem_def, ← hlatest]
        exact hmark

/-- Whatever the interleaving, no mark is lost if no failed run that holds the lease started
after the latest mark. -/
theorem marks_kept_of_run {schedule : List (Nat × Action)} {world : World}
    (hrun : Run World.step FailureKeepsFlag .initial schedule world) : MarksKept world := by
  have hinv : MarkInvariant world := by
    apply hrun.invariant
    · intro world timed next hinv hkeeps hstep
      exact hinv.step hkeeps hstep
    · exact .initial
  exact hinv.kept

/-- A mark comes while a run is under way that then fails, and a later run clears the flag. -/
def failsThenSucceeds : List (Nat × Action) :=
  [(0, .markDirty []), (1, .acquire ['a'] [] 0), (2, .startRun ['a']), (3, .checkRun ['a']),
    (4, .markDirty []), (5, .finishRun ['a'] (.error [])), (1000000, .acquire ['b'] [] 0),
    (1000001, .startRun ['b']), (1000002, .checkRun ['b']),
    (1000003, .finishRun ['b'] (.ok 1 0 0 0 1))]

theorem marks_kept_of_run_ok :
    ∃ world, Run World.step FailureKeepsFlag .initial failsThenSucceeds world ∧
      world.row.dirty = false ∧ MarksKept world := by
  have hclears : (execute World.step FailureKeepsFlag .initial failsThenSucceeds).map
      (fun world => world.row.dirty) = some false := by decide
  obtain ⟨world, hexecute, hdirty⟩ := Option.map_eq_some_iff.mp hclears
  have hrun := Run.of_execute hexecute
  exact ⟨world, hrun, hdirty, marks_kept_of_run hrun⟩

def failingRun : List (Nat × Action) :=
  [(0, .markDirty []), (1, .acquire ['a'] [] 0), (2, .startRun ['a']), (3, .checkRun ['a']),
    (4, .finishRun ['a'] (.error []))]

/-- The run fails, and the mark that it did not handle is cleared with it. -/
theorem failed_run_clears_mark :
    ¬ ∀ schedule world, Run World.step (fun _ _ => True) .initial schedule world →
      MarksKept world := by
  intro hall
  have hclears : (execute World.step (fun _ _ => True) .initial failingRun).map
      (fun world => world.clearings) = some [⟨.error [], 2, some 0⟩] := by decide
  obtain ⟨world, hexecute, hclearings⟩ := Option.map_eq_some_iff.mp hclears
  have hkept := hall _ world (Run.of_execute hexecute)
  have hsucceeded := (hkept.cleared ⟨.error [], 2, some 0⟩ (by simp [hclearings])).1
  exact absurd hsucceeded (by decide)

end Difflore.Memory.Autopilot

import Difflore.Memory.AutopilotSchedule

/-! # The lease of the autopilot schedule

A process holds the lease from its acquire until it releases it or finishes its run. The
row names the last process that acquired it, and a process that is not named has a lease
that lapsed. A skip is recorded by a second statement, which judges the row anew.
-/

namespace Difflore.Memory.Autopilot

open Foundation

variable {now : Nat} {world next : World}

def Exclusive (world : World) : Prop :=
  ∀ owner other expiry otherExpiry, world.granted owner = some expiry →
    world.granted other = some otherExpiry → world.clock ≤ expiry → world.clock ≤ otherExpiry →
    owner = other

def LeaseColumnsAgree (row : Schedule) : Prop := row.leaseOwner = none ↔ row.leaseExpiresAt = none

/-- A process that is not the owner changes nothing by releasing and finishing, whether another
one is or nobody. -/
def OthersAreInert (row : Schedule) : Prop :=
  ∀ owner, row.leaseOwner ≠ some owner →
    (∀ reason, row.release owner reason = row) ∧
      ∀ now startedAt outcome, row.finish now owner startedAt outcome = row

def SkipReason.blocks (row : Schedule) (now cooldownMs : Nat) : SkipReason → Bool
  | .disabled => !row.enabled
  | .notDirty => !row.dirty
  | .leaseHeld => !row.leaseFree now
  | .cooldown => !row.cooledDown now cooldownMs
  | .unknown => false

/-- The reason recorded for a skip is one whose predicate blocked the acquire. -/
def ReasonsTold (world : World) : Prop :=
  ∀ skip ∈ world.skips, skip.2.blocks skip.1.row skip.1.refusedAt skip.1.cooldownMs = true

/-- The predicates of an acquire, in the order in which the `CASE` asks for them. -/
def SkipReason.order : List SkipReason := [.disabled, .notDirty, .leaseHeld, .cooldown]

def firstBlocking (row : Schedule) (now cooldownMs : Nat) : Option SkipReason :=
  SkipReason.order.find? (·.blocks row now cooldownMs)

/-- When a skip is recorded, a predicate blocks, and the first that does is one that blocked
the acquire. -/
def SkipUndisturbed (world : World) (timed : Nat × Action) : Prop :=
  match timed.2 with
  | .recordSkip owner => ∀ refusal ∈ world.refused owner,
      ∃ reason ∈ firstBlocking world.row timed.1 refusal.cooldownMs,
        reason.blocks refusal.row refusal.refusedAt refusal.cooldownMs = true
  | _ => True

instance (world : World) : (timed : Nat × Action) → Decidable (SkipUndisturbed world timed)
  | (now, .recordSkip owner) =>
    inferInstanceAs (Decidable (∀ refusal ∈ world.refused owner,
      ∃ reason ∈ firstBlocking world.row now refusal.cooldownMs,
        reason.blocks refusal.row refusal.refusedAt refusal.cooldownMs = true))
  | (_, .markDirty _) | (_, .acquire ..) | (_, .acquireManual _) | (_, .noteSpawnSuccess _)
  | (_, .release ..) | (_, .startRun _) | (_, .checkRun _) | (_, .finishRun ..) => isTrue trivial

/-- While the columns of the lease agree, the `CASE` and the condition of the acquire ask for
the same predicates. -/
theorem skipReason_eq {row : Schedule} (hcolumns : LeaseColumnsAgree row) (now cooldownMs : Nat) :
    row.skipReason now cooldownMs = (firstBlocking row now cooldownMs).getD .unknown := by
  have hheld : (row.leaseOwner.isSome && row.leaseExpiresAt.any (now ≤ ·)) =
      !row.leaseFree now := by
    cases howner : row.leaseOwner with
    | none => simp [Schedule.leaseFree, howner]
    | some owner =>
      cases hexpires : row.leaseExpiresAt with
      | none => simp [hcolumns.mpr hexpires] at howner
      | some expiry =>
        apply Bool.eq_iff_iff.mpr
        simp [Schedule.leaseFree, howner, hexpires]
  have hcooling : row.lastRunAt.any (now ≤ · + cooldownMs) = !row.cooledDown now cooldownMs := by
    cases hlast : row.lastRunAt with
    | none => simp [Schedule.cooledDown, hlast]
    | some lastRun =>
      apply Bool.eq_iff_iff.mpr
      simp [Schedule.cooledDown, hlast]
  unfold Schedule.skipReason firstBlocking SkipReason.order
  rw [hheld, hcooling]
  simp only [List.find?_cons, SkipReason.blocks]
  cases row.enabled
  case false => rfl
  cases row.dirty
  case false => rfl
  cases row.leaseFree now
  case false => rfl
  cases row.cooledDown now cooldownMs
  case false => rfl
  rfl

/-! ## What a step does to the lease -/

/-- The lease is left alone, taken over when it is free, or dropped by a process. -/
inductive LeaseStep (now : Nat) (world next : World) : Prop
  | kept (howner : next.row.leaseOwner = world.row.leaseOwner)
      (hexpiry : next.row.leaseExpiresAt = world.row.leaseExpiresAt)
      (hgranted : next.granted = world.granted)
  | taken (owner : Owner) (hfree : world.row.leaseFree now = true)
      (howner : next.row.leaseOwner = some owner)
      (hexpiry : next.row.leaseExpiresAt = some (now + backgroundLeaseMs))
      (hgranted : next.granted = setAt world.granted owner (some (now + backgroundLeaseMs)))
  | dropped (owner : Owner)
      (howner : next.row.leaseOwner =
        if world.row.leaseOwner = some owner then none else world.row.leaseOwner)
      (hexpiry : next.row.leaseExpiresAt =
        if world.row.leaseOwner = some owner then none else world.row.leaseExpiresAt)
      (hgranted : next.granted = setAt world.granted owner none)

theorem act_lease {action : Action} (hacted : Acted now world action next) :
    LeaseStep now world next := by
  cases hacted with
  | marked | refused | skipped | refusedManual | started | checked => exact .kept rfl rfl rfl
  | acquired owner reason cooldownSecs hacquirable =>
    simp only [Schedule.acquirable, Bool.and_eq_true] at hacquirable
    exact .taken owner hacquirable.1.2 rfl rfl rfl
  | acquiredManual owner hfree => exact .taken owner hfree rfl rfl rfl
  | noted owner =>
    unfold Schedule.noteSpawnSuccess
    split
    · exact .kept rfl rfl rfl
    · exact .kept rfl rfl rfl
  | released owner reason =>
    unfold Schedule.release
    split
    next howner => exact .dropped owner (if_pos howner).symm (if_pos howner).symm rfl
    next hother => exact .dropped owner (if_neg hother).symm (if_neg hother).symm rfl
  | finished owner outcome run =>
    unfold Schedule.finish
    split
    next howner => exact .dropped owner (if_pos howner).symm (if_pos howner).symm rfl
    next hother => exact .dropped owner (if_neg hother).symm (if_neg hother).symm rfl

/-- The named owner has the expiry it was granted, everybody else a lapsed one. -/
structure LeaseInvariant (world : World) : Prop where
  columns : LeaseColumnsAgree world.row
  named : ∀ owner, world.row.leaseOwner = some owner →
    world.row.leaseExpiresAt = world.granted owner
  lapsed : ∀ owner expiry, world.granted owner = some expiry →
    world.row.leaseOwner ≠ some owner → expiry < world.clock

theorem LeaseInvariant.initial : LeaseInvariant .initial where
  columns := ⟨fun _ => rfl, fun _ => rfl⟩
  named _ howner := by contradiction
  lapsed _ _ hgranted := by contradiction

theorem LeaseInvariant.act (hinv : LeaseInvariant world) (hclock : world.clock = now)
    (hnext : next.clock = now) (hstep : LeaseStep now world next) :
    LeaseInvariant next := by
  cases hstep with
  | kept howner hexpiry hgranted =>
    constructor
    · rw [LeaseColumnsAgree, howner, hexpiry]
      exact hinv.columns
    · rw [howner, hexpiry, hgranted]
      exact hinv.named
    · rw [howner, hgranted, hnext, ← hclock]
      exact hinv.lapsed
  | taken owner hfree howner hexpiry hgranted =>
    constructor
    · simp [LeaseColumnsAgree, howner, hexpiry]
    · intro other hother
      rw [howner] at hother
      obtain rfl := Option.some.inj hother
      rw [hexpiry, hgranted, setAt_self]
    · intro other expiry hother hne
      rw [howner] at hne
      have hdistinct : other ≠ owner := fun heq => hne (heq ▸ rfl)
      rw [hgranted, setAt_other _ hdistinct] at hother
      rw [hnext]
      -- The owner that is replaced is the one whose expiry made the lease free.
      by_cases hnamed : world.row.leaseOwner = some other
      · have hexpires := hinv.named other hnamed
        rw [hother] at hexpires
        simpa [Schedule.leaseFree, hnamed, hexpires] using hfree
      · rw [← hclock]
        exact hinv.lapsed other expiry hother hnamed
  | dropped owner howner hexpiry hgranted =>
    by_cases hnamed : world.row.leaseOwner = some owner
    · rw [if_pos hnamed] at howner hexpiry
      constructor
      · simp [LeaseColumnsAgree, howner, hexpiry]
      · intro other hother
        rw [howner] at hother
        contradiction
      · intro other expiry hother _
        by_cases heq : other = owner
        · rw [hgranted, heq, setAt_self] at hother
          contradiction
        · rw [hgranted, setAt_other _ heq] at hother
          rw [hnext, ← hclock]
          apply hinv.lapsed other expiry hother
          rw [hnamed]
          exact fun hsame => heq (Option.some.inj hsame).symm
    · rw [if_neg hnamed] at howner hexpiry
      constructor
      · rw [LeaseColumnsAgree, howner, hexpiry]
        exact hinv.columns
      · intro other hother
        rw [howner] at hother
        have hdistinct : other ≠ owner := fun heq => hnamed (heq ▸ hother)
        rw [hexpiry, hgranted, setAt_other _ hdistinct]
        exact hinv.named other hother
      · intro other expiry hother hne
        have hdistinct : other ≠ owner := by
          rintro rfl
          rw [hgranted, setAt_self] at hother
          contradiction
        rw [hgranted, setAt_other _ hdistinct] at hother
        rw [howner] at hne
        rw [hnext, ← hclock]
        exact hinv.lapsed other expiry hother hne

theorem act_clock_skips {action : Action} (hacted : Acted now world action next) :
    next.clock = world.clock ∧ (next.skips = world.skips ∨
      ∃ owner refusal, action = .recordSkip owner ∧ world.refused owner = some refusal ∧
        next.skips = (refusal, world.row.skipReason now refusal.cooldownMs) :: world.skips) := by
  cases hacted with
  | skipped owner refusal hrefusal => exact ⟨rfl, .inr ⟨owner, refusal, rfl, hrefusal, rfl⟩⟩
  | marked | acquired | refused | acquiredManual | refusedManual | noted | released | started
  | checked | finished => exact ⟨rfl, .inl rfl⟩

theorem LeaseInvariant.step {timed : Nat × Action} (hinv : LeaseInvariant world)
    (hstep : world.step timed = some next) : LeaseInvariant next := by
  obtain ⟨hclock, hact⟩ := World.step_eq_some.mp hstep
  have hlater : LeaseInvariant { world with clock := timed.1 } :=
    { columns := hinv.columns
      named := hinv.named
      lapsed := fun owner expiry hgranted hne =>
        lt_of_lt_of_le (hinv.lapsed owner expiry hgranted hne) hclock }
  have hacted := World.act_cases hact
  exact hlater.act rfl (act_clock_skips hacted).1 (act_lease hacted)

theorem ReasonsTold.step {timed : Nat × Action} (hcolumns : LeaseColumnsAgree world.row)
    (htold : ReasonsTold world) (hundisturbed : SkipUndisturbed world timed)
    (hstep : world.step timed = some next) :
    ReasonsTold next := by
  obtain ⟨_, hact⟩ := World.step_eq_some.mp hstep
  rcases (act_clock_skips (World.act_cases hact)).2 with
    hsame | ⟨owner, refusal, haction, hrefusal, hskips⟩
  · intro skip hskip
    rw [hsame] at hskip
    exact htold skip hskip
  · intro skip hskip
    rw [hskips] at hskip
    rcases List.mem_cons.mp hskip with rfl | hold
    · simp only [SkipUndisturbed, haction] at hundisturbed
      obtain ⟨reason, hfirst, hblocks⟩ := hundisturbed refusal hrefusal
      rw [skipReason_eq hcolumns, Option.mem_def.mp hfirst]
      exact hblocks
    · exact htold skip hold

theorem LeaseInvariant.exclusive (hinv : LeaseInvariant world) : Exclusive world := by
  intro owner other expiry otherExpiry hgranted hother hlive hotherLive
  have hnamed : ∀ owner expiry, world.granted owner = some expiry → world.clock ≤ expiry →
      world.row.leaseOwner = some owner := by
    intro owner expiry hgranted hlive
    by_contra hne
    exact absurd (hinv.lapsed owner expiry hgranted hne) (Nat.not_lt.mpr hlive)
  have hsame := (hnamed owner expiry hgranted hlive).symm.trans
    (hnamed other otherExpiry hother hotherLive)
  exact Option.some.inj hsame

theorem othersAreInert (row : Schedule) : OthersAreInert row := by
  intro owner hforeign
  constructor
  · intro reason
    exact if_neg hforeign
  · intro now startedAt outcome
    exact if_neg hforeign

structure LeaseSafe (world : World) : Prop where
  lease : LeaseInvariant world
  told : ReasonsTold world

/-- Whatever the interleaving, the lease is exclusive, its columns agree, and processes that
lost it are inert; the reasons of skips are told if no skip is disturbed. -/
theorem schedule_lease_safe {schedule : List (Nat × Action)}
    (hrun : Run World.step SkipUndisturbed .initial schedule world) :
    Exclusive world ∧ LeaseColumnsAgree world.row ∧ OthersAreInert world.row ∧
      ReasonsTold world := by
  have hsafe : LeaseSafe world := by
    apply hrun.invariant
    · intro world timed next hsafe hundisturbed hstep
      exact ⟨hsafe.lease.step hstep, hsafe.told.step hsafe.lease.columns hundisturbed hstep⟩
    · exact ⟨.initial, fun skip hskip => absurd hskip List.not_mem_nil⟩
  exact ⟨hsafe.lease.exclusive, hsafe.lease.columns, othersAreInert world.row, hsafe.told⟩

def firstOwner : Owner := ['a']

def secondOwner : Owner := ['b']

/-- The lease is taken, refused to another process, and the run is finished. -/
def finishedRun : List (Nat × Action) :=
  [(0, .markDirty []), (1, .acquire firstOwner [] 0), (2, .acquire secondOwner [] 0),
    (3, .startRun firstOwner), (4, .checkRun firstOwner),
    (5, .finishRun firstOwner (.ok 1 0 0 0 1))]

/-- The skip of the second process, before the run of the first one. -/
def promptSkip : List (Nat × Action) :=
  [(0, .markDirty []), (1, .acquire firstOwner [] 0), (2, .acquire secondOwner [] 0),
    (3, .recordSkip secondOwner)]

theorem schedule_lease_safe_promptSkip :
    ∃ world, Run World.step SkipUndisturbed .initial promptSkip world ∧
      world.skips.map Prod.snd = [.leaseHeld] ∧ Exclusive world ∧ LeaseColumnsAgree world.row ∧
      OthersAreInert world.row ∧ ReasonsTold world := by
  have hskips : (execute World.step SkipUndisturbed .initial promptSkip).map
      (fun world => world.skips.map Prod.snd) = some [.leaseHeld] := by decide
  obtain ⟨world, hexecute, hreason⟩ := Option.map_eq_some_iff.mp hskips
  have hrun := Run.of_execute hexecute
  exact ⟨world, hrun, hreason, schedule_lease_safe hrun⟩

/-- The run ends between the refusal and its record, which then names the cleared flag. -/
theorem late_skip_tells_another_reason :
    ¬ ∀ schedule world, Run World.step (fun _ _ => True) .initial schedule world →
      Exclusive world ∧ LeaseColumnsAgree world.row ∧ OthersAreInert world.row ∧
        ReasonsTold world := by
  intro hall
  have hskips : (execute World.step (fun _ _ => True) .initial
      (finishedRun ++ [(6, .recordSkip secondOwner)])).map
        (fun world => world.skips.map fun skip =>
          (skip.2, skip.2.blocks skip.1.row skip.1.refusedAt skip.1.cooldownMs)) =
      some [(.notDirty, false)] := by decide
  obtain ⟨world, hexecute, hreason⟩ := Option.map_eq_some_iff.mp hskips
  have htold := (hall _ world (Run.of_execute hexecute)).2.2.2
  obtain ⟨skip, hskips, hblocks⟩ := List.map_eq_singleton_iff.mp hreason
  have hmem : skip ∈ world.skips := by simp [hskips]
  have hblocked := htold skip hmem
  rw [(Prod.mk.inj hblocks).2] at hblocked
  exact absurd hblocked (by decide)

end Difflore.Memory.Autopilot

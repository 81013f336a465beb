import Difflore.Cloud.Observations.Sync
import Difflore.Hook.Stores

/-! # The cap of the observation queue

`cap_queue` run without interleaving sheds the sent rows, then the abandoned ones, and unsent rows
only when nothing else is left.
-/

namespace Difflore.Cloud.Observations

open Foundation

inductive Worth
  | sent
  | abandoned
  | unsent
  deriving DecidableEq

def Row.worth (row : Row) : Worth :=
  match row.status with
  | .sent => .sent
  | .abandoned => .abandoned
  | .pending | .sending | .parked => .unsent

def Row.age (row : Row) : Int ×ₗ RowId :=
  toLex (if row.worth = .sent then row.sentAtMs.getD (-(2 ^ 63)) else row.createdAtMs, row.id)

def Row.isUnsent (row : Row) : Bool := row.worth = .unsent

namespace Trim

def age (trim : Trim) (row : Row) : Int ×ₗ RowId := toLex (trim.order row, row.id)

theorem execute_eq_shed (trim : Trim) (overflow : Int) (table : Table) :
    trim.execute overflow table = table.shed trim.selects trim.age overflow.toNat := rfl

theorem trimOverflow_eq_shedOver (trim : Trim) (table : Table) :
    Hook.trimOverflow trim table = table.shedOver maxQueueRows trim.selects trim.age := by
  have hcount : (queueOverflow table).toNat = table.rows.length - maxQueueRows := by
    unfold queueOverflow
    omega
  unfold Hook.trimOverflow
  split
  next => rw [execute_eq_shed, hcount, AutoTable.shedOver]
  next hunder =>
    apply (AutoTable.shedOver_of_le _).symm
    unfold queueOverflow at hunder
    omega

end Trim

section Run

variable (now : Int) (outcome : Except OutboxFailure PUnit)

/-- The flusher alone with the table: every query is answered at once. -/
def World.serve (world : World) (query : Query) : Answer query × World :=
  world.answer now outcome query

theorem run_trimOverflow (kind : Trim) (world : World) :
    (trimOverflow kind).run (World.serve now outcome) world =
      (⟨⟩, { world with table := Hook.trimOverflow kind world.table }) := by
  have hcount : (trimOverflow kind).run (World.serve now outcome) world =
      (if queueOverflow world.table > 0 then trim kind (queueOverflow world.table)
        else pure ⟨⟩ : Flush PUnit).run (World.serve now outcome) world := rfl
  rw [hcount, Hook.trimOverflow]
  split <;> rfl

theorem run_capQueue (world : World) : capQueue.run (World.serve now outcome) world =
    (⟨⟩, { world with table := Hook.capQueue world.table }) := by
  have hcount : capQueue.run (World.serve now outcome) world =
      (if queueOverflow world.table ≤ 0 then pure ⟨⟩ else do
        trim .sent (queueOverflow world.table)
        trimOverflow .abandoned
        trimOverflow .oldest : Flush PUnit).run (World.serve now outcome) world := rfl
  rw [hcount]
  by_cases hunder : queueOverflow world.table ≤ 0
  · have hsame : ∀ kind, Hook.trimOverflow kind world.table = world.table := by
      intro kind
      rw [Hook.trimOverflow, if_neg (by omega)]
    rw [if_pos hunder, Hook.capQueue, hsame, hsame, hsame]
    rfl
  · have hsent : (trim .sent (queueOverflow world.table)).run (World.serve now outcome) world =
        (⟨⟩, { world with table := Hook.trimOverflow .sent world.table }) := by
      rw [Hook.trimOverflow, if_pos (by omega)]
      rfl
    rw [if_neg hunder, Program.run_bind, hsent, Program.run_bind, run_trimOverflow,
      run_trimOverflow]
    rfl

end Run

section Cap

variable {before : Table} {row other : Row}

/-- What is left after the sent rows and then the abandoned rows were shed. -/
def keptOfFinished (before : Table) : Table :=
  (before.shedOver maxQueueRows Trim.sent.selects Trim.sent.age).shedOver maxQueueRows
    Trim.abandoned.selects Trim.abandoned.age

theorem capQueue_eq (before : Table) : Hook.capQueue before =
    (keptOfFinished before).shedOver maxQueueRows Trim.oldest.selects Trim.oldest.age := by
  unfold Hook.capQueue keptOfFinished
  simp only [Trim.trimOverflow_eq_shedOver]

theorem capQueue_sublist : (Hook.capQueue before).rows.Sublist before.rows := by
  rw [capQueue_eq]
  exact (AutoTable.shedOver_sublist.trans AutoTable.shedOver_sublist).trans
    AutoTable.shedOver_sublist

theorem keptOfFinished_sublist : (keptOfFinished before).rows.Sublist before.rows :=
  AutoTable.shedOver_sublist.trans AutoTable.shedOver_sublist

theorem selects_sent_eq : Trim.sent.selects row = decide (row.worth = .sent) := by
  cases hstatus : row.status <;> simp [Trim.selects, Row.worth, hstatus]

theorem selects_abandoned_eq : Trim.abandoned.selects row = decide (row.worth = .abandoned) := by
  cases hstatus : row.status <;> simp [Trim.selects, Row.worth, hstatus]

theorem age_eq_sent (hsent : row.worth = .sent) : Trim.sent.age row = row.age := by
  simp [Trim.age, Trim.order, Row.age, hsent]

theorem age_eq_abandoned (habandoned : row.worth ≠ .sent) : Trim.abandoned.age row = row.age := by
  simp [Trim.age, Trim.order, Row.age, habandoned]

theorem age_eq_oldest (hunsent : row.worth ≠ .sent) : Trim.oldest.age row = row.age := by
  simp [Trim.age, Trim.order, Row.age, hunsent]

theorem unsent_of_over (hover : maxQueueRows < (keptOfFinished before).rows.length)
    (hrow : row ∈ (keptOfFinished before).rows) : row.worth = .unsent := by
  have habandoned := AutoTable.not_of_mem_shedOver hover hrow
  have hlength := AutoTable.shedOver_sublist.length_le.trans' hover
  have hsent := AutoTable.not_of_mem_shedOver hlength (AutoTable.shedOver_sublist.subset hrow)
  rw [selects_abandoned_eq, decide_eq_false_iff_not] at habandoned
  rw [selects_sent_eq, decide_eq_false_iff_not] at hsent
  cases hworth : row.worth with
  | sent => exact absurd hworth hsent
  | abandoned => exact absurd hworth habandoned
  | unsent => rfl

theorem mem_keptOfFinished (hrow : row ∈ before.rows) (hunsent : row.worth = .unsent) :
    row ∈ (keptOfFinished before).rows := by
  apply AutoTable.mem_shedOver_of_not
  · apply AutoTable.mem_shedOver_of_not hrow
    simp [selects_sent_eq, hunsent]
  · simp [selects_abandoned_eq, hunsent]

theorem length_capQueue : (Hook.capQueue before).rows.length =
    min before.rows.length maxQueueRows := by
  have hsent : min before.rows.length maxQueueRows ≤ (before.shedOver maxQueueRows
      Trim.sent.selects Trim.sent.age).rows.length := AutoTable.min_le_length_shedOver
  have habandoned : _ ≤ (keptOfFinished before).rows.length := AutoTable.min_le_length_shedOver
  have hkept : (keptOfFinished before).rows.length ≤ _ := keptOfFinished_sublist.length_le
  have hall : ∀ row ∈ (keptOfFinished before).rows, Trim.oldest.selects row := fun _ _ => rfl
  rw [capQueue_eq, AutoTable.length_shedOver_of_all hall]
  omega

theorem unsent_of_lost (hrow : row ∈ before.rows) (hlost : row ∉ (Hook.capQueue before).rows)
    (hunsent : row.isUnsent) : maxQueueRows < before.rows.countP Row.isUnsent ∧
      ∀ other ∈ (Hook.capQueue before).rows, other.isUnsent := by
  rw [capQueue_eq] at hlost ⊢
  have hkept := mem_keptOfFinished hrow (of_decide_eq_true hunsent)
  have hover := (AutoTable.of_not_mem_shedOver hkept hlost).1
  have hall : ∀ other ∈ (keptOfFinished before).rows, other.isUnsent := by
    intro other hother
    exact decide_eq_true (unsent_of_over hover hother)
  constructor
  · calc maxQueueRows < (keptOfFinished before).rows.length := hover
      _ = (keptOfFinished before).rows.countP Row.isUnsent := (List.countP_eq_length.mpr hall).symm
      _ ≤ before.rows.countP Row.isUnsent := keptOfFinished_sublist.countP_le
  · intro other hother
    exact hall other (AutoTable.shedOver_sublist.subset hother)

theorem age_le_of_lost (hrow : row ∈ before.rows) (hlost : row ∉ (Hook.capQueue before).rows)
    (hother : other ∈ (Hook.capQueue before).rows) (hworth : other.worth = row.worth) :
    row.age ≤ other.age := by
  rw [capQueue_eq] at hlost hother
  have hkept := AutoTable.shedOver_sublist.subset hother
  by_cases hstays : row ∈ (keptOfFinished before).rows
  · obtain ⟨hover, _, hage⟩ := AutoTable.of_not_mem_shedOver hstays hlost
    have hunsent := unsent_of_over hover hstays
    rw [← age_eq_oldest (by simp [hunsent]), ← age_eq_oldest (by simp [hworth, hunsent])]
    exact hage other hother rfl
  · have hleft := AutoTable.shedOver_sublist.subset hkept
    by_cases hnotSent : row ∈ (before.shedOver maxQueueRows Trim.sent.selects Trim.sent.age).rows
    · obtain ⟨_, habandoned, hage⟩ := AutoTable.of_not_mem_shedOver hnotSent hstays
      rw [selects_abandoned_eq, decide_eq_true_iff] at habandoned
      rw [← age_eq_abandoned (by simp [habandoned]),
        ← age_eq_abandoned (by simp [hworth, habandoned])]
      apply hage other hkept
      rw [selects_abandoned_eq, hworth, habandoned]
      rfl
    · obtain ⟨_, hsent, hage⟩ := AutoTable.of_not_mem_shedOver hrow hnotSent
      rw [selects_sent_eq, decide_eq_true_iff] at hsent
      rw [← age_eq_sent hsent, ← age_eq_sent (hworth.trans hsent)]
      apply hage other hleft
      rw [selects_sent_eq, hworth, hsent]
      rfl

theorem age_lt_of_lost (hrow : row ∈ before.rows) (hlost : row ∉ (Hook.capQueue before).rows)
    (hother : other ∈ (Hook.capQueue before).rows) (hworth : other.worth = row.worth) :
    row.age < other.age := by
  apply lt_of_le_of_ne (age_le_of_lost hrow hlost hother hworth)
  intro hage
  have hid : row.id = other.id := congrArg (fun age => (ofLex age).2) hage
  have hsame := AutoTable.eq_of_key_eq hrow (capQueue_sublist.subset hother) hid
  exact hlost (hsame ▸ hother)

end Cap

/-- `cap_queue` leaves as many rows as the cap allows. It takes an unsent row only when the unsent
rows alone exceed the cap, and then no other row is left; of equally valuable rows the older go
first. -/
theorem capQueue_sheds_by_worth (now : Int) (outcome : Except OutboxFailure PUnit) (world : World) :
    let before := world.table
    let after := (capQueue.run (World.serve now outcome) world).2.table
    after.rows.Sublist before.rows ∧ after.rows.length = min before.rows.length maxQueueRows ∧
      (∀ row ∈ before.rows, row ∉ after.rows → row.isUnsent →
        maxQueueRows < before.rows.countP Row.isUnsent ∧ ∀ other ∈ after.rows, other.isUnsent) ∧
      ∀ row ∈ before.rows, row ∉ after.rows →
        ∀ other ∈ after.rows, other.worth = row.worth → row.age < other.age := by
  simp only [run_capQueue]
  refine ⟨capQueue_sublist, length_capQueue, ?_, ?_⟩
  · intro row hrow hlost hunsent
    exact unsent_of_lost hrow hlost hunsent
  · intro row hrow hlost other hother hworth
    exact age_lt_of_lost hrow hlost hother hworth

end Difflore.Cloud.Observations

import Difflore.Cloud.Observations.FlushProtocol

/-! # Lease fencing of the observation queue

A row in flight carries the lease of the flusher that claimed it last. A
flusher that lost its row can still mark it sent, and nothing else; `sent` is
final, and is backed by a successful upload.
-/

namespace Difflore.Cloud.Observations

open Foundation

variable (serde : Serde)

variable {program : Flush (Nat × Nat)} {lease : Int} {phase : Phase} {process : ProcessId}
  {row : Row} {id : RowId} {session : Session} {statement : Statement} {table : Table}
  {world next : World}

theorem mem_selectIds {condition : Row → Bool} {order : Row → Int} {limit : Nat}
    (hrow : row ∈ table.rows) (hid : row.id ∈ selectIds condition order limit table) :
    condition row := by
  obtain ⟨other, hother, hsame⟩ := List.mem_map.mp hid
  have hfiltered := (List.mem_insertionSort _).mp (List.mem_of_mem_take hother)
  obtain ⟨hmem, hcondition⟩ := List.mem_filter.mp hfiltered
  have hfound : table.find row.id = some other := hsame ▸ AutoTable.find_of_mem hmem
  rw [AutoTable.find_of_mem hrow] at hfound
  exact Option.some.inj hfound ▸ hcondition

theorem Statement.sent_absorbing (hrow : row ∈ table.rows) (hselects : statement.selects table row)
    (hsent : row.status = .sent) : (statement.set row).status = .sent := by
  cases statement with
  | claim leaseUntil now =>
    have hclaimable := mem_selectIds hrow (of_decide_eq_true hselects)
    simp [claimableAt, hsent] at hclaimable
  | reschedule id retryCount nextAttemptAtMs err lease =>
    simp [Statement.selects, leasedAs, hsent] at hselects
  | park id err lease => simp [Statement.selects, leasedAs, hsent] at hselects
  | abandon id err lease => simp [Statement.selects, leasedAs, hsent] at hselects
  | markSent id sentAtMs => rfl
  | unparkAfterSuccess now =>
    have hparked := mem_selectIds hrow (of_decide_eq_true hselects)
    simp [hsent] at hparked
  | retryPendingUploadsNow now => simp [Statement.selects, hsent] at hselects
  | drainAbandonedOlderThan cutoff now => simp [Statement.selects, hsent] at hselects

/-- What every step respects: ids are not reused, payloads do not change, and a
sent row stays sent. -/
structure Evolves (world next : World) : Prop where
  nextKey : world.table.nextKey ≤ next.table.nextKey
  clock : world.clock ≤ next.clock
  delivered : ∀ batch ∈ world.delivered, batch ∈ next.delivered
  row : ∀ id row, id < world.table.nextKey → next.row id = some row →
    ∃ old, world.row id = some old ∧ old.payloadJson = row.payloadJson ∧
      (old.status = .sent → row.status = .sent)

namespace Evolves

theorem of_table (htable : next.table = world.table) (hclock : world.clock ≤ next.clock)
    (hdelivered : ∀ batch ∈ world.delivered, batch ∈ next.delivered) : Evolves world next where
  nextKey := htable ▸ le_rfl
  clock := hclock
  delivered := hdelivered
  row id row _ hrow := ⟨row, by rwa [World.row, ← htable], rfl, fun hsent => hsent⟩

theorem refl (world : World) : Evolves world world := of_table rfl le_rfl fun _ hbatch => hbatch

theorem trans {first second third : World} (hfirst : Evolves first second)
    (hsecond : Evolves second third) : Evolves first third where
  nextKey := hfirst.nextKey.trans hsecond.nextKey
  clock := hfirst.clock.trans hsecond.clock
  delivered batch hbatch := hsecond.delivered batch (hfirst.delivered batch hbatch)
  row id row hid hrow := by
    obtain ⟨middle, hmiddle, hpayload, hsent⟩ :=
      hsecond.row id row (lt_of_lt_of_le hid hfirst.nextKey) hrow
    obtain ⟨old, hold, holdPayload, holdSent⟩ := hfirst.row id middle hid hmiddle
    exact ⟨old, hold, holdPayload.trans hpayload, fun hstart => hsent (holdSent hstart)⟩

theorem execute (statement : Statement) (htable : next.table = statement.execute world.table)
    (hclock : next.clock = world.clock) (hdelivered : next.delivered = world.delivered) :
    Evolves world next where
  nextKey := by rw [htable]; exact le_rfl
  clock := hclock.ge
  delivered batch hbatch := hdelivered ▸ hbatch
  row id row _ hrow := by
    rw [World.row, htable, Statement.find_execute, Option.map_eq_some_iff] at hrow
    obtain ⟨old, hold, rfl⟩ := hrow
    refine ⟨old, hold, ?_, ?_⟩
    · split
      · exact (statement.set_payloadJson old).symm
      · rfl
    · intro hsent
      split
      next hselects =>
        exact Statement.sent_absorbing (AutoTable.find_mem hold) hselects hsent
      next => exact hsent

theorem trim (kind : Trim) (overflow : Int)
    (htable : next.table = kind.execute overflow world.table) (hclock : next.clock = world.clock)
    (hdelivered : next.delivered = world.delivered) : Evolves world next where
  nextKey := by rw [htable]; exact le_rfl
  clock := hclock.ge
  delivered batch hbatch := hdelivered ▸ hbatch
  row id row _ hrow := by
    rw [World.row, htable, Trim.find_execute, Option.filter_eq_some_iff] at hrow
    exact ⟨row, hrow.1, rfl, fun hsent => hsent⟩

theorem enqueue (world : World) (process : ProcessId) (event : ObservationEvent) (now : Int) :
    Evolves world (world.enqueue serde process event now) where
  nextKey := Nat.le_succ _
  clock := le_rfl
  delivered _ hbatch := hbatch
  row id row hid hrow := by
    have hfound : (world.enqueue serde process event now).row id = world.row id := by
      have hinsert := AutoTable.find_insert world.table (newRow_id serde event now) id
      rwa [if_neg hid.ne] at hinsert
    exact ⟨row, hfound ▸ hrow, rfl, fun hsent => hsent⟩

end Evolves

/-- A row that a running flush still owes is sent, or in flight under its own
lease, or lost: claimed by another process after that lease had run out. -/
structure Held (world : World) (process : ProcessId) (lease : Int) (id : RowId) : Prop where
  lt : id < world.table.nextKey
  status : ∀ row, world.row id = some row → row.status = .sent ∨
    (row.status = .sending ∧ row.nextAttemptAtMs = lease ∧ world.owner id = some process) ∨
    (lease ≤ world.clock ∧ world.owner id ≠ some process ∧
      (row.status = .sending → row.nextAttemptAtMs ≠ lease))

def Carried (world : World) (id : RowId) (payloadJson : Text) : Prop :=
  ∃ batch ∈ world.delivered, ∃ item ∈ batch,
    item.id = id ∧ serde.decode payloadJson = .ok item.event

/-- The rows a session claimed are still in the table as they were claimed,
state aside, unless they were trimmed. -/
def Current (world : World) (rows : List Row) : Prop := ∀ row ∈ rows, row.id < world.table.nextKey ∧
    ∀ current, world.row row.id = some current → current.payloadJson = row.payloadJson

/-- A running session follows the flush protocol from the phase it is in. -/
structure SessionInvariant (world : World) (process : ProcessId) (session : Session)
    (phase : Phase) : Prop where
  obeys : (flushProtocol serde session.rows session.lease).Obeys (fun after _ => after.owed = [])
    phase session.program
  current : Current world session.rows
  nodup : phase.owed.Nodup
  held : ∀ id ∈ phase.owed, Held world process session.lease id
  carried : ∀ id ∈ phase.delivered, id < world.table.nextKey ∧
    ∀ row, world.row id = some row → Carried serde world id row.payloadJson

structure EmitterInvariant (world : World) : Prop where
  session : ∀ process session, world.sessions process = some session →
    ∃ phase, SessionInvariant serde world process session phase
  sent : ∀ id row, world.row id = some row → row.status = .sent →
    Carried serde world id row.payloadJson

theorem Carried.evolve {payloadJson : Text} (hcarried : Carried serde world id payloadJson)
    (hevolves : Evolves world next) :
    Carried serde next id payloadJson := by
  obtain ⟨batch, hbatch, hitem⟩ := hcarried
  exact ⟨batch, hevolves.delivered batch hbatch, hitem⟩

theorem Current.evolve {rows : List Row} (hcurrent : Current world rows)
    (hevolves : Evolves world next) : Current next rows := by
  intro row hrow
  obtain ⟨hlt, hpayload⟩ := hcurrent row hrow
  refine ⟨lt_of_lt_of_le hlt hevolves.nextKey, fun current hfound => ?_⟩
  obtain ⟨old, hold, hsame, _⟩ := hevolves.row row.id current hlt hfound
  exact hsame.symm.trans (hpayload old hold)

section

variable (hinv : SessionInvariant serde world process session phase)
include hinv

theorem SessionInvariant.carried_evolve (hevolves : Evolves world next) :
    ∀ id ∈ phase.delivered, id < next.table.nextKey ∧
      ∀ row, next.row id = some row → Carried serde next id row.payloadJson := by
  intro id hid
  obtain ⟨hlt, hcarried⟩ := hinv.carried id hid
  refine ⟨lt_of_lt_of_le hlt hevolves.nextKey, fun row hrow => ?_⟩
  obtain ⟨old, hold, hpayload, _⟩ := hevolves.row id row hlt hrow
  exact hpayload ▸ (hcarried old hold).evolve serde hevolves

theorem SessionInvariant.evolve (hevolves : Evolves world next)
    (hheld : ∀ id ∈ phase.owed, Held next process session.lease id) :
    SessionInvariant serde next process session phase where
  obeys := hinv.obeys
  current := hinv.current.evolve hevolves
  nodup := hinv.nodup
  held := hheld
  carried := hinv.carried_evolve serde hevolves

theorem SessionInvariant.proceed (hobeys : (flushProtocol serde session.rows session.lease).Obeys
      (fun after _ => after.owed = []) phase program) :
    SessionInvariant serde world process { session with program := program } phase where
  obeys := hobeys
  current := hinv.current
  nodup := hinv.nodup
  held := hinv.held
  carried := hinv.carried

theorem SessionInvariant.settle {resume : Answer (.exec statement) → Flush (Nat × Nat)}
    (hevolves : Evolves world next)
    (hresume : ∀ answer, (flushProtocol serde session.rows session.lease).Obeys
      (fun after _ => after.owed = [])
      (statement.settles.elim phase phase.settle) (resume answer))
    (hheld : ∀ id ∈ phase.owed, statement.settles ≠ some id → Held next process session.lease id) :
    SessionInvariant serde next process { session with program := resume ⟨⟩ }
      (statement.settles.elim phase phase.settle) where
  obeys := hresume ⟨⟩
  current := hinv.current.evolve hevolves
  nodup := by
    cases statement.settles with
    | none => exact hinv.nodup
    | some written => exact hinv.nodup.erase written
  held id hid := by
    cases hsettles : statement.settles with
    | none =>
      rw [hsettles] at hid
      exact hheld id hid (by simp [hsettles])
    | some written =>
      rw [hsettles] at hid
      obtain ⟨hne, howed⟩ := hinv.nodup.mem_erase_iff.mp hid
      exact hheld id howed (by simpa [hsettles] using Ne.symm hne)
  carried id hid := by
    refine hinv.carried_evolve serde hevolves id ?_
    cases hsettles : statement.settles with
    | none => simpa [hsettles] using hid
    | some written => simpa [hsettles, Phase.settle] using hid

end

/-- A lease survives a step that leaves the row alone, marks it sent, or takes
it from one idle state to another. -/
theorem Held.preserve (hheld : Held world process lease id) (hevolves : Evolves world next)
    (howner : next.owner id = world.owner id)
    (hrow : ∀ old row, world.row id = some old → next.row id = some row →
      row = old ∨ row.status = .sent ∨ (row.status ≠ .sending ∧ old.status ≠ .sent ∧
          ¬ (old.status = .sending ∧ old.nextAttemptAtMs = lease ∧
            world.owner id = some process))) :
    Held next process lease id where
  lt := lt_of_lt_of_le hheld.lt hevolves.nextKey
  status row hnext := by
    have hclock := hevolves.clock
    obtain ⟨old, hold, _⟩ := hevolves.row id row hheld.lt hnext
    rw [howner]
    rcases hrow old row hold hnext with rfl | hsent | ⟨hidle, hunsent, hfree⟩
    · rcases hheld.status row hold with hsent | hmine | ⟨hlapsed, hlost⟩
      · exact .inl hsent
      · exact .inr (.inl hmine)
      · exact .inr (.inr ⟨hlapsed.trans hclock, hlost⟩)
    · exact .inl hsent
    · rcases hheld.status old hold with hsent | hmine | ⟨hlapsed, hother, _⟩
      · exact absurd hsent hunsent
      · exact absurd hmine hfree
      · exact .inr (.inr ⟨hlapsed.trans hclock, hother, fun hsending => absurd hsending hidle⟩)

def Statement.fenced : Statement → Bool
  | .reschedule .. | .park .. | .abandon .. => true
  | .claim .. | .markSent .. | .unparkAfterSuccess _ | .retryPendingUploadsNow _
  | .drainAbandonedOlderThan .. => false

theorem Statement.fenced_selects (hfenced : statement.fenced)
    (hselects : statement.selects table row) :
    row.status = .sending ∧ (statement.set row).status ≠ .sending := by
  cases statement with
  | reschedule id retryCount nextAttemptAtMs err lease =>
    simp only [Statement.selects, leasedAs, Bool.and_eq_true, decide_eq_true_eq] at hselects
    exact ⟨hselects.1.2, by simp [Statement.set]⟩
  | park id err lease =>
    simp only [Statement.selects, leasedAs, Bool.and_eq_true, decide_eq_true_eq] at hselects
    exact ⟨hselects.1.2, by simp [Statement.set]⟩
  | abandon id err lease =>
    simp only [Statement.selects, leasedAs, Bool.and_eq_true, decide_eq_true_eq] at hselects
    exact ⟨hselects.1.2, by simp [Statement.set]⟩
  | _ => simp [Statement.fenced] at hfenced

theorem Statement.settles_of_fenced (hfenced : statement.fenced)
    (hselects : statement.selects table row) :
    statement.settles = some row.id := by
  cases statement with
  | reschedule id retryCount nextAttemptAtMs err lease =>
    simp only [Statement.selects, leasedAs, Bool.and_eq_true, decide_eq_true_eq] at hselects
    exact congrArg some hselects.1.1.symm
  | park id err lease =>
    simp only [Statement.selects, leasedAs, Bool.and_eq_true, decide_eq_true_eq] at hselects
    exact congrArg some hselects.1.1.symm
  | abandon id err lease =>
    simp only [Statement.selects, leasedAs, Bool.and_eq_true, decide_eq_true_eq] at hselects
    exact congrArg some hselects.1.1.symm
  | _ => simp [Statement.fenced] at hfenced

theorem Statement.unfenced_selects (hrow : row ∈ table.rows)
    (hclaim : ∀ leaseUntil now, statement ≠ .claim leaseUntil now) (hunfenced : ¬ statement.fenced)
    (hselects : statement.selects table row) :
    (statement.set row).status = .sent ∨
      ((statement.set row).status ≠ .sending ∧ row.status ≠ .sent ∧ row.status ≠ .sending) := by
  cases statement with
  | claim leaseUntil now => exact absurd rfl (hclaim leaseUntil now)
  | markSent id sentAtMs => exact .inl rfl
  | unparkAfterSuccess now =>
    have hparked := mem_selectIds hrow (of_decide_eq_true hselects)
    simp only [decide_eq_true_eq] at hparked
    exact .inr ⟨by simp [Statement.set], by simp [hparked], by simp [hparked]⟩
  | retryPendingUploadsNow now =>
    simp only [Statement.selects, Bool.or_eq_true, Bool.and_eq_true, decide_eq_true_eq]
      at hselects
    rcases hselects with ⟨hpending, _⟩ | hparked
    · exact .inr ⟨by simp [Statement.set], by simp [hpending], by simp [hpending]⟩
    · exact .inr ⟨by simp [Statement.set], by simp [hparked], by simp [hparked]⟩
  | drainAbandonedOlderThan cutoff now =>
    simp only [Statement.selects, Bool.and_eq_true, decide_eq_true_eq] at hselects
    exact .inr ⟨by simp [Statement.set], by simp [hselects.1], by simp [hselects.1]⟩
  | _ => simp [Statement.fenced] at hunfenced

/-- Every outcome but `markSent` leaves the row unsent. -/
theorem Statement.set_sent (hsent : (statement.set row).status = .sent) :
    ∃ id sentAtMs, statement = .markSent id sentAtMs := by
  cases statement with
  | markSent id sentAtMs => exact ⟨id, sentAtMs, rfl⟩
  | _ => simp [Statement.set] at hsent

/-- A lease survives every statement but a claim, if a fenced write that hits
the row is not aimed at a row of this process. -/
theorem Held.execute (hheld : Held world process lease id)
    (hclaim : ∀ leaseUntil now, statement ≠ .claim leaseUntil now)
    (htable : next.table = statement.execute world.table) (hclock : next.clock = world.clock)
    (hdelivered : next.delivered = world.delivered) (howner : next.owner = world.owner)
    (hfree : ∀ old, world.row id = some old → statement.fenced →
      statement.selects world.table old → world.owner id ≠ some process) :
    Held next process lease id := by
  refine hheld.preserve (.execute statement htable hclock hdelivered) (by rw [howner]) ?_
  intro old row hold hrow
  rw [World.row, htable, Statement.find_execute, Option.map_eq_some_iff] at hrow
  obtain ⟨same, hsame, rfl⟩ := hrow
  obtain rfl : same = old := Option.some.inj (hsame.symm.trans hold)
  split
  next hselects =>
    right
    by_cases hfenced : statement.fenced
    · have htaken := Statement.fenced_selects hfenced hselects
      exact .inr ⟨htaken.2, by simp [htaken.1], fun hmine =>
        hfree same hold hfenced hselects hmine.2.2⟩
    · rcases Statement.unfenced_selects (AutoTable.find_mem hold) hclaim hfenced hselects with
        hsent | ⟨hidle, hunsent, hwaiting⟩
      · exact .inl hsent
      · exact .inr ⟨hidle, hunsent, fun hmine => hwaiting hmine.1⟩
  next => exact .inl rfl

theorem Held.owner_of_fenced (hinv : SessionInvariant serde world process session phase)
    (hpermits : (flushProtocol serde session.rows session.lease).permits phase (.exec statement))
    (hrow : world.row id = some row) (hfenced : statement.fenced)
    (hselects : statement.selects world.table row) :
    world.owner id = some process := by
  have howns : ∀ written lease, written ∈ phase.owed ∧ lease = session.lease →
      leasedAs written lease row → world.owner id = some process := by
    rintro written lease ⟨howed, rfl⟩ hleased
    simp only [leasedAs, Bool.and_eq_true, decide_eq_true_eq] at hleased
    obtain ⟨⟨hid, hsending⟩, hlease⟩ := hleased
    obtain rfl : id = written := (AutoTable.find_key hrow).symm.trans hid
    rcases (hinv.held id howed).status row hrow with hsent | ⟨_, _, hmine⟩ | ⟨_, _, hlost⟩
    · simp [hsending] at hsent
    · exact hmine
    · exact absurd hlease (hlost hsending)
  cases statement with
  | reschedule written retryCount nextAttemptAtMs err lease => exact howns _ _ hpermits hselects
  | park written err lease => exact howns _ _ hpermits hselects
  | abandon written err lease => exact howns _ _ hpermits hselects
  | _ => simp [Statement.fenced] at hfenced

namespace EmitterInvariant

theorem init : EmitterInvariant serde .init where
  session := by simp [World.init]
  sent id row hrow := by simp [World.init, World.row, AutoTable.find_empty] at hrow

section

variable (hinv : EmitterInvariant serde world)
include hinv

/-- The invariant after a step: the rows evolve, newly sent rows are carried,
and every session still meets its own invariant. -/
theorem evolve (hevolves : Evolves world next)
    (hsession : ∀ process session, next.sessions process = some session →
      ∃ phase, SessionInvariant serde next process session phase)
    (hsent : ∀ id row, next.row id = some row → row.status = .sent →
      (id < world.table.nextKey ∧ ∀ old, world.row id = some old → old.status = .sent) ∨
        Carried serde next id row.payloadJson) :
    EmitterInvariant serde next where
  session := hsession
  sent id row hrow hstatus := by
    rcases hsent id row hrow hstatus with ⟨hlt, hbefore⟩ | hcarried
    · obtain ⟨old, hold, hpayload, _⟩ := hevolves.row id row hlt hrow
      exact hpayload ▸ (hinv.sent id old hold (hbefore old hold)).evolve serde hevolves
    · exact hcarried

theorem of_table (htable : next.table = world.table) (hclock : world.clock ≤ next.clock)
    (howner : next.owner = world.owner)
    (hdelivered : ∀ batch ∈ world.delivered, batch ∈ next.delivered)
    (hsessions : ∀ process session, next.sessions process = some session →
      world.sessions process = some session) : EmitterInvariant serde next := by
  have hevolves : Evolves world next := .of_table htable hclock hdelivered
  have hrow : ∀ id, next.row id = world.row id := fun id => by rw [World.row, htable, World.row]
  refine hinv.evolve serde hevolves ?_ ?_
  · intro process session hsession
    obtain ⟨phase, hphase⟩ := hinv.session process session (hsessions process session hsession)
    refine ⟨phase, hphase.evolve serde hevolves fun id hid => ?_⟩
    refine (hphase.held id hid).preserve hevolves (by rw [howner]) ?_
    intro old row hold hnext
    exact .inl (Option.some.inj (hnext.symm.trans ((hrow id).trans hold)))
  · intro id row hnext hstatus
    rw [hrow] at hnext
    refine .inl ⟨AutoTable.find_lt hnext, fun old hold => ?_⟩
    obtain rfl := Option.some.inj (hold.symm.trans hnext)
    exact hstatus

theorem environment
    (hclaim : ∀ leaseUntil now, statement ≠ .claim leaseUntil now) (hunfenced : ¬ statement.fenced)
    (hmark : ∀ id sentAtMs, statement ≠ .markSent id sentAtMs)
    (hnext : next = { world with table := statement.execute world.table }) :
    EmitterInvariant serde next := by
  subst hnext
  refine hinv.evolve serde (.execute statement rfl rfl rfl) ?_ ?_
  · intro process session hsession
    obtain ⟨phase, hphase⟩ := hinv.session process session hsession
    refine ⟨phase, hphase.evolve serde (.execute statement rfl rfl rfl) fun id hid => ?_⟩
    exact (hphase.held id hid).execute hclaim rfl rfl rfl rfl
      fun _ _ hfenced => absurd hfenced hunfenced
  · intro id row hrow hstatus
    rw [World.row, Statement.find_execute, Option.map_eq_some_iff] at hrow
    obtain ⟨old, hold, rfl⟩ := hrow
    refine .inl ⟨AutoTable.find_lt hold, fun same hsame => ?_⟩
    obtain rfl : old = same := Option.some.inj (hold.symm.trans hsame)
    split at hstatus
    next =>
      obtain ⟨written, sentAtMs, hmarks⟩ := Statement.set_sent hstatus
      exact absurd hmarks (hmark written sentAtMs)
    next => exact hstatus

theorem enqueue (process : ProcessId) (event : ObservationEvent) (now : Int) :
    EmitterInvariant serde (world.enqueue serde process event now) := by
  have hevolves := Evolves.enqueue serde world process event now
  have hfind : ∀ id, (world.enqueue serde process event now).row id =
      if id = world.table.nextKey then some (newRow serde event now world.table.nextKey)
      else world.row id :=
    fun id => AutoTable.find_insert world.table (newRow_id serde event now) id
  refine hinv.evolve serde hevolves ?_ ?_
  · intro other session hsession
    by_cases hsame : other = process
    · -- The enqueuer itself goes on with a trim, which owes nothing.
      simp only [World.enqueue, hsame, Function.update_self, Option.some.injEq] at hsession
      subst hsession
      refine ⟨⟨[], []⟩, ⟨obeys_finish rfl, by simp [Current], List.nodup_nil, by simp, by simp⟩⟩
    · simp only [World.enqueue, Function.update_of_ne hsame] at hsession
      obtain ⟨phase, hphase⟩ := hinv.session other session hsession
      refine ⟨phase, hphase.evolve serde hevolves fun id hid => ?_⟩
      have hheld := hphase.held id hid
      refine hheld.preserve hevolves rfl ?_
      intro old row hold hrow
      rw [hfind, if_neg hheld.lt.ne] at hrow
      exact .inl (Option.some.inj (hrow.symm.trans hold))
  · intro id row hrow hstatus
    rw [hfind] at hrow
    by_cases hnew : id = world.table.nextKey
    · rw [if_pos hnew] at hrow
      obtain rfl := Option.some.inj hrow
      simp [newRow] at hstatus
    · rw [if_neg hnew] at hrow
      refine .inl ⟨AutoTable.find_lt hrow, fun old hold => ?_⟩
      obtain rfl := Option.some.inj (hold.symm.trans hrow)
      exact hstatus

end

theorem owner_claim (world : World) (process : ProcessId) (now : Int) (id : RowId) :
    (world.claim serde process now).owner id =
      if id ∈ claimedIds world.table now then some process else world.owner id := rfl

theorem held_claim {other : ProcessId} (hother : other ≠ process)
    (hheld : Held world other lease id) :
    Held (world.claim serde process world.clock) other lease id where
  lt := hheld.lt
  status row hrow := by
    have hexecute := Statement.find_execute (.claim (world.clock + claimLeaseMs) world.clock)
      world.table id
    obtain ⟨old, hold, rfl⟩ := Option.map_eq_some_iff.mp (hexecute.symm.trans hrow)
    have hid : old.id = id := AutoTable.find_key hold
    have hselects : (Statement.claim (world.clock + claimLeaseMs) world.clock).selects world.table
        old = decide (id ∈ claimedIds world.table world.clock) := by rw [← hid]; rfl
    rw [hselects]
    rw [owner_claim]
    by_cases htaken : id ∈ claimedIds world.table world.clock
    · have hclaimable := mem_selectIds (AutoTable.find_mem hold) (hid ▸ htaken)
      simp only [claimableAt, Bool.and_eq_true, Bool.or_eq_true, decide_eq_true_eq] at hclaimable
      have hlapsed : lease ≤ world.clock := by
        rcases hheld.status old hold with hsent | ⟨_, hlease, _⟩ | ⟨hlapsed, _⟩
        · simp [hsent] at hclaimable
        · omega
        · exact hlapsed
      simp only [htaken, decide_true, if_true, Statement.set]
      refine .inr (.inr ⟨hlapsed, by simpa using Ne.symm hother, fun _ => ?_⟩)
      simp only [claimLeaseMs]
      omega
    · rw [if_neg htaken, if_neg (by simpa using htaken)]
      exact hheld.status old hold

theorem sessionInvariant_claim (world : World) (process : ProcessId) (now : Int) :
    ∃ session phase, (world.claim serde process now).sessions process = some session ∧
      SessionInvariant serde (world.claim serde process now) process session phase := by
  let leaseUntil := now + claimLeaseMs
  let table := (Statement.claim leaseUntil now).execute world.table
  let rows := table.rows.filter (·.id ∈ claimedIds world.table now)
  have hnodup : (rows.map Row.id).Nodup := table.nodup.sublist (List.filter_sublist.map _)
  have hfind : ∀ row ∈ rows, table.find row.id = some row ∧ row.id ∈ claimedIds world.table now :=
    fun row hrow =>
      ⟨AutoTable.find_of_mem (List.mem_filter.mp hrow).1,
        of_decide_eq_true (List.mem_filter.mp hrow).2⟩
  refine ⟨⟨leaseUntil, rows, flushClaimed serde rows leaseUntil⟩, ⟨rows.map Row.id, []⟩, ?_,
    obeys_flushClaimed rfl hnodup, ?_, hnodup, ?_, by simp⟩
  · simp [World.claim, rows, table, leaseUntil]
  · intro row hrow
    obtain ⟨hfound, _⟩ := hfind row hrow
    refine ⟨AutoTable.find_lt hfound, fun current hcurrent => ?_⟩
    obtain rfl : row = current := Option.some.inj (hfound.symm.trans hcurrent)
    rfl
  · intro id hid
    obtain ⟨row, hrow, rfl⟩ := List.mem_map.mp hid
    obtain ⟨hfound, htaken⟩ := hfind row hrow
    refine ⟨AutoTable.find_lt hfound, fun current hcurrent => .inr (.inl ?_)⟩
    obtain rfl : row = current := Option.some.inj (hfound.symm.trans hcurrent)
    rw [owner_claim, if_pos htaken]
    obtain ⟨old, hold, hset⟩ := List.mem_map.mp (List.mem_filter.mp hrow).1
    split at hset
    next => exact hset ▸ ⟨rfl, rfl, rfl⟩
    next hskipped =>
      subst hset
      exact absurd (by simpa [Statement.selects] using htaken) hskipped

section

variable (hinv : EmitterInvariant serde world)
include hinv

theorem claim (process : ProcessId) :
    EmitterInvariant serde (world.claim serde process world.clock) := by
  have hevolves : Evolves world (world.claim serde process world.clock) :=
    .execute (.claim (world.clock + claimLeaseMs) world.clock) rfl rfl rfl
  refine hinv.evolve serde hevolves ?_ ?_
  · intro other session hsession
    by_cases hsame : other = process
    · subst hsame
      obtain ⟨claimed, phase, hclaimed, hphase⟩ :=
        sessionInvariant_claim serde world other world.clock
      obtain rfl := Option.some.inj (hsession.symm.trans hclaimed)
      exact ⟨phase, hphase⟩
    · simp only [World.claim, Function.update_of_ne hsame] at hsession
      obtain ⟨phase, hphase⟩ := hinv.session other session hsession
      exact ⟨phase, hphase.evolve serde hevolves fun id hid =>
        held_claim serde hsame (hphase.held id hid)⟩
  · intro id row hrow hstatus
    have hexecute := Statement.find_execute (.claim (world.clock + claimLeaseMs) world.clock)
      world.table id
    obtain ⟨old, hold, rfl⟩ := Option.map_eq_some_iff.mp (hexecute.symm.trans hrow)
    refine .inl ⟨AutoTable.find_lt hold, fun same hsame => ?_⟩
    obtain rfl : old = same := Option.some.inj (hold.symm.trans hsame)
    split at hstatus
    next => simp [Statement.set] at hstatus
    next => exact hstatus

/-- One process moves on: everybody else keeps their leases, and the process
follows its protocol into the next phase. -/
theorem advance {after : Session} (hevolves : Evolves world next)
    (hsessions : next.sessions = Function.update world.sessions process (some after))
    (hafter : SessionInvariant serde next process after phase)
    (hheld : ∀ other lease id, other ≠ process → Held world other lease id →
      Held next other lease id) (hsent : ∀ id row, next.row id = some row → row.status = .sent →
      (id < world.table.nextKey ∧ ∀ old, world.row id = some old → old.status = .sent) ∨
        Carried serde next id row.payloadJson) :
    EmitterInvariant serde next := by
  refine hinv.evolve serde hevolves ?_ hsent
  intro other running hrunning
  rw [hsessions] at hrunning
  by_cases hsame : other = process
  · subst hsame
    rw [Function.update_self] at hrunning
    exact ⟨phase, Option.some.inj hrunning ▸ hafter⟩
  · rw [Function.update_of_ne hsame] at hrunning
    obtain ⟨otherPhase, hother⟩ := hinv.session other running hrunning
    exact ⟨otherPhase, hother.evolve serde hevolves fun id hid =>
      hheld other running.lease id hsame (hother.held id hid)⟩

theorem exec (hsession : SessionInvariant serde world process session phase)
    {resume : Answer (.exec statement) → Flush (Nat × Nat)}
    (hprogram : session.program = .ask (.exec statement) resume) (hnext : next = { world with
      table := statement.execute world.table
      sessions := Function.update world.sessions process
        (some { session with program := resume ⟨⟩ }) }) :
    EmitterInvariant serde next := by
  have hobeys := hsession.obeys
  rw [hprogram] at hobeys
  obtain ⟨hpermits, hresume⟩ := hobeys
  have hclaim : ∀ leaseUntil now, statement ≠ .claim leaseUntil now := by
    rintro leaseUntil now rfl
    exact hpermits
  have hevolves : Evolves world next := by
    subst hnext
    exact .execute statement rfl rfl rfl
  have hexecute : ∀ other lease id, Held world other lease id →
      (∀ old, world.row id = some old → statement.fenced →
        statement.selects world.table old → world.owner id ≠ some other) →
      Held next other lease id := by
    subst hnext
    exact fun other lease id hheld hfree => hheld.execute hclaim rfl rfl rfl rfl hfree
  refine hinv.advance serde hevolves (by rw [hnext]) (hsession.settle serde hevolves hresume ?_)
    ?_ ?_
  · intro id howed hunsettled
    refine hexecute process session.lease id (hsession.held id howed) ?_
    intro old hold hfenced hselects
    refine absurd ?_ hunsettled
    rw [← AutoTable.find_key hold]
    exact Statement.settles_of_fenced hfenced hselects
  · intro other lease id hother hheld
    refine hexecute other lease id hheld ?_
    intro old hold hfenced hselects
    rw [Held.owner_of_fenced serde hsession hpermits hold hfenced hselects]
    simpa using Ne.symm hother
  · intro id row hrow hstatus
    rw [hnext, World.row, Statement.find_execute, Option.map_eq_some_iff] at hrow
    obtain ⟨old, hold, rfl⟩ := hrow
    split at hstatus
    next hselects =>
      obtain ⟨written, sentAtMs, rfl⟩ := Statement.set_sent hstatus
      obtain rfl : id = written := (AutoTable.find_key hold).symm.trans (of_decide_eq_true hselects)
      right
      rw [if_pos hselects, Statement.set_payloadJson]
      exact ((hsession.carried id hpermits.2).2 old hold).evolve serde hevolves
    next =>
      refine .inl ⟨AutoTable.find_lt hold, fun same hsame => ?_⟩
      obtain rfl : old = same := Option.some.inj (hold.symm.trans hsame)
      exact hstatus

theorem trim
    (hsession : SessionInvariant serde world process session phase) {kind : Trim} {overflow : Int}
    {resume : Answer (.trim kind overflow) → Flush (Nat × Nat)}
    (hprogram : session.program = .ask (.trim kind overflow) resume) (hnext : next = { world with
      table := kind.execute overflow world.table
      sessions := Function.update world.sessions process
        (some { session with program := resume ⟨⟩ }) }) :
    EmitterInvariant serde next := by
  have hobeys := hsession.obeys
  rw [hprogram] at hobeys
  have hevolves : Evolves world next := by
    subst hnext
    exact .trim kind overflow rfl rfl rfl
  have hkept : ∀ id row, next.row id = some row → world.row id = some row := by
    intro id row hrow
    rw [hnext, World.row, Trim.find_execute, Option.filter_eq_some_iff] at hrow
    exact hrow.1
  have hheld : ∀ other lease id, Held world other lease id → Held next other lease id := by
    intro other lease id hheld
    refine hheld.preserve hevolves (by rw [hnext]) ?_
    exact fun old row hold hrow => .inl (Option.some.inj ((hkept id row hrow).symm.trans hold))
  have hafter := (hsession.proceed serde (hobeys.2 ⟨⟩)).evolve serde hevolves
    fun id hid => hheld process session.lease id (hsession.held id hid)
  refine hinv.advance serde hevolves (by rw [hnext]) hafter
    (fun other lease id _ => hheld other lease id) ?_
  intro id row hrow hstatus
  refine .inl ⟨AutoTable.find_lt (hkept id row hrow), fun old hold => ?_⟩
  obtain rfl := Option.some.inj (hold.symm.trans (hkept id row hrow))
  exact hstatus

theorem upload (hsession : SessionInvariant serde world process session phase)
    {batch : List ClaimedObservation} (hgenuine : ∀ item ∈ batch, Genuine serde session.rows item)
    (hobeys : (flushProtocol serde session.rows session.lease).Obeys
      (fun after _ => after.owed = [])
      { phase with delivered := batch.map ClaimedObservation.id ++ phase.delivered } program)
    (hnext : next = { world with
      delivered := batch :: world.delivered
      sessions := Function.update world.sessions process
        (some { session with program := program }) }) :
    EmitterInvariant serde next := by
  have hrow : ∀ id, next.row id = world.row id := by
    subst hnext
    exact fun id => rfl
  have hevolves : Evolves world next := by
    subst hnext
    exact .of_table rfl le_rfl fun _ hbatch => List.mem_cons_of_mem batch hbatch
  have hheld : ∀ other lease id, Held world other lease id → Held next other lease id := by
    intro other lease id hheld
    refine hheld.preserve hevolves (by rw [hnext]) ?_
    exact fun old row hold hfound => .inl
      (Option.some.inj (hfound.symm.trans ((hrow id).trans hold)))
  have hafter : SessionInvariant serde next process { session with program := program }
      { phase with delivered := batch.map ClaimedObservation.id ++ phase.delivered } := by
    refine ⟨hobeys, hsession.current.evolve hevolves, hsession.nodup,
      fun id hid => hheld process session.lease id (hsession.held id hid), ?_⟩
    intro id hid
    rcases List.mem_append.mp hid with hnew | hold
    · obtain ⟨item, hitem, rfl⟩ := List.mem_map.mp hnew
      obtain ⟨row, hmem, hid, hdecode⟩ := hgenuine item hitem
      obtain ⟨hlt, hpayload⟩ := hsession.current row hmem
      rw [← hid]
      refine ⟨lt_of_lt_of_le hlt hevolves.nextKey, fun found hfound => ?_⟩
      rw [hpayload found ((hrow row.id).symm.trans hfound)]
      exact ⟨batch, by simp [hnext], item, hitem, hid.symm, hdecode⟩
    · exact hsession.carried_evolve serde hevolves id hold
  refine hinv.advance serde hevolves (by rw [hnext]) hafter
    (fun other lease id _ => hheld other lease id) ?_
  intro id row hfound hstatus
  rw [hrow] at hfound
  refine .inl ⟨AutoTable.find_lt hfound, fun old hold => ?_⟩
  obtain rfl := Option.some.inj (hold.symm.trans hfound)
  exact hstatus

theorem read (hsession : SessionInvariant serde world process session phase)
    (hobeys : (flushProtocol serde session.rows session.lease).Obeys
      (fun after _ => after.owed = []) phase program) (hnext : next = { world with
      sessions := Function.update world.sessions process
        (some { session with program := program }) }) :
    EmitterInvariant serde next := by
  subst hnext
  have hevolves : Evolves world { world with
      sessions := Function.update world.sessions process
        (some { session with program := program }) } := .of_table rfl le_rfl fun _ hbatch => hbatch
  have hheld : ∀ other lease id, Held world other lease id → Held { world with
      sessions := Function.update world.sessions process
        (some { session with program := program }) } other lease id :=
    fun other lease id hheld => ⟨hheld.lt, hheld.status⟩
  refine hinv.advance serde hevolves rfl ((hsession.proceed serde hobeys).evolve serde hevolves
    fun id hid => hheld process session.lease id (hsession.held id hid))
    (fun other lease id _ => hheld other lease id) ?_
  intro id row hfound hstatus
  refine .inl ⟨AutoTable.find_lt hfound, fun old hold => ?_⟩
  obtain rfl := Option.some.inj (hold.symm.trans hfound)
  exact hstatus

theorem resume
    (hrunning : world.sessions process = some session) (outcome : Except OutboxFailure PUnit) :
    EmitterInvariant serde (world.resume process world.clock outcome session) := by
  obtain ⟨phase, hsession⟩ := hinv.session process session hrunning
  have hobeys := hsession.obeys
  unfold World.resume
  split
  next =>
    refine hinv.of_table serde rfl le_rfl rfl (fun _ hbatch => hbatch) ?_
    intro other running hother
    by_cases hsame : other = process
    · simp [hsame] at hother
    · simpa [Function.update_of_ne hsame] using hother
  next query resume hprogram =>
    rw [hprogram] at hobeys
    cases query with
    | now => exact hinv.read serde hsession (hobeys.2 world.clock) rfl
    | exec statement => exact hinv.exec serde hsession hprogram rfl
    | overflow => exact hinv.read serde hsession (hobeys.2 (queueOverflow world.table)) rfl
    | trim kind overflow => exact hinv.trim serde hsession hprogram rfl
    | upload batch =>
      cases outcome with
      | ok reply => exact hinv.upload serde hsession hobeys.1 (hobeys.2 (.ok reply)) rfl
      | error failure => exact hinv.read serde hsession (hobeys.2 (.error failure)) rfl

theorem step {timed : Int × Action}
    (hstep : world.step serde timed = some next) : EmitterInvariant serde next := by
  obtain ⟨now, action⟩ := timed
  unfold World.step at hstep
  split at hstep
  next hclock =>
    have hinv : EmitterInvariant serde { world with clock := now } :=
      hinv.of_table serde rfl hclock rfl (fun _ hbatch => hbatch) fun _ _ hsession => hsession
    cases action with
    | enqueue process captureEnabled event =>
      simp only [World.perform] at hstep
      split at hstep
      next => contradiction
      next =>
        split at hstep
        next =>
          obtain rfl := Option.some.inj hstep
          exact hinv.enqueue serde process event now
        next =>
          obtain rfl := Option.some.inj hstep
          exact hinv
    | flush process loggedIn =>
      simp only [World.perform] at hstep
      split at hstep
      next => contradiction
      next =>
        split at hstep
        next =>
          obtain rfl := Option.some.inj hstep
          exact hinv.claim serde process
        next =>
          obtain rfl := Option.some.inj hstep
          exact hinv
    | resume process outcome =>
      obtain ⟨session, hrunning, rfl⟩ := Option.map_eq_some_iff.mp hstep
      exact hinv.resume serde hrunning outcome
    | stop process =>
      obtain rfl := Option.some.inj hstep
      refine hinv.of_table serde rfl le_rfl rfl (fun _ hbatch => hbatch) ?_
      intro other running hother
      by_cases hsame : other = process
      · simp [hsame] at hother
      · simpa [Function.update_of_ne hsame] using hother
    | retryPendingUploadsNow =>
      obtain rfl := Option.some.inj hstep
      exact hinv.environment serde (by simp) (by simp [Statement.fenced]) (by simp) rfl
    | unparkAfterSuccess =>
      obtain rfl := Option.some.inj hstep
      exact hinv.environment serde (by simp) (by simp [Statement.fenced]) (by simp) rfl
    | drainAbandonedOlderThan cutoff dryRun =>
      simp only [World.perform] at hstep
      split at hstep
      next =>
        obtain rfl := Option.some.inj hstep
        exact hinv
      next =>
        obtain rfl := Option.some.inj hstep
        exact hinv.environment serde (by simp) (by simp [Statement.fenced]) (by simp) rfl
  next => contradiction

end

end EmitterInvariant

theorem Evolves.resume (world : World) (process : ProcessId) (now : Int)
    (outcome : Except OutboxFailure PUnit) (session : Session) :
    Evolves world (world.resume process now outcome session) := by
  unfold World.resume
  split
  next => exact .of_table rfl le_rfl fun _ hbatch => hbatch
  next query resume _ =>
    cases query with
    | now => exact .of_table rfl le_rfl fun _ hbatch => hbatch
    | exec statement => exact .execute statement rfl rfl rfl
    | overflow => exact .of_table rfl le_rfl fun _ hbatch => hbatch
    | trim kind overflow => exact .trim kind overflow rfl rfl rfl
    | upload batch =>
      cases outcome with
      | ok reply => exact .of_table rfl le_rfl fun _ hbatch => List.mem_cons_of_mem batch hbatch
      | error failure => exact .of_table rfl le_rfl fun _ hbatch => hbatch

theorem Evolves.step {timed : Int × Action} (hstep : world.step serde timed = some next) :
    Evolves world next := by
  obtain ⟨now, action⟩ := timed
  unfold World.step at hstep
  split at hstep
  next hclock =>
    refine Evolves.trans (.of_table rfl hclock fun _ hbatch => hbatch :
      Evolves world { world with clock := now }) ?_
    cases action with
    | enqueue process captureEnabled event =>
      simp only [World.perform, Option.ite_none_left_eq_some] at hstep
      obtain ⟨_, hnext⟩ := hstep
      split at hnext
      next => exact Option.some.inj hnext ▸ Evolves.enqueue serde _ process event now
      next => exact Option.some.inj hnext ▸ Evolves.refl _
    | flush process loggedIn =>
      simp only [World.perform, Option.ite_none_left_eq_some] at hstep
      obtain ⟨_, hnext⟩ := hstep
      split at hnext
      next =>
        obtain rfl := Option.some.inj hnext
        exact .execute (.claim (now + claimLeaseMs) now) rfl rfl rfl
      next => exact Option.some.inj hnext ▸ Evolves.refl _
    | resume process outcome =>
      obtain ⟨session, _, rfl⟩ := Option.map_eq_some_iff.mp hstep
      exact Evolves.resume _ process now outcome session
    | stop process =>
      obtain rfl := Option.some.inj hstep
      exact .of_table rfl le_rfl fun _ hbatch => hbatch
    | retryPendingUploadsNow =>
      obtain rfl := Option.some.inj hstep
      exact .execute (.retryPendingUploadsNow now) rfl rfl rfl
    | unparkAfterSuccess =>
      obtain rfl := Option.some.inj hstep
      exact .execute (.unparkAfterSuccess now) rfl rfl rfl
    | drainAbandonedOlderThan cutoff dryRun =>
      simp only [World.perform] at hstep
      split at hstep
      next => exact Option.some.inj hstep ▸ Evolves.refl _
      next =>
        obtain rfl := Option.some.inj hstep
        exact .execute (.drainAbandonedOlderThan cutoff now) rfl rfl rfl
  next => contradiction

def Session.writesOutcome (session : Session) : Bool :=
  match session.program with
  | .ask (.exec statement) _ => statement.settles.isSome
  | _ => false

/-- An outcome write never changes a row that another process claimed last,
except to `sent`. -/
def Fenced (world : World) : Prop := ∀ process session outcome now next id owner row after,
    world.sessions process = some session → session.writesOutcome →
    world.step serde (now, .resume process outcome) = some next →
    world.owner id = some owner → owner ≠ process →
    world.row id = some row → next.row id = some after → after = row ∨ after.status = .sent

/-- No step moves a row out of `sent`; it can only disappear. -/
def SentAbsorbing (world : World) : Prop :=
  ∀ timed next id row after, world.step serde timed = some next →
    world.row id = some row → row.status = .sent → next.row id = some after →
    after.status = .sent

def SentDelivered (world : World) : Prop :=
  ∀ id row, world.row id = some row → row.status = .sent → Carried serde world id row.payloadJson

theorem EmitterInvariant.fenced (hinv : EmitterInvariant serde world) : Fenced serde world := by
  intro process session outcome now next id owner row after hrunning hwrites hstep howner hother
    hrow hafter
  obtain ⟨phase, hsession⟩ := hinv.session process session hrunning
  have hobeys := hsession.obeys
  unfold Session.writesOutcome at hwrites
  split at hwrites
  next statement resume hprogram =>
    rw [hprogram] at hobeys
    simp only [World.step, World.perform, hrunning, Option.map_some, World.resume, hprogram,
      Option.ite_none_right_eq_some, Option.some.injEq] at hstep
    obtain ⟨_, rfl⟩ := hstep
    have hexecute := Statement.find_execute statement world.table id
    obtain ⟨old, hold, rfl⟩ := Option.map_eq_some_iff.mp (hexecute.symm.trans hafter)
    obtain rfl : row = old := Option.some.inj (hrow.symm.trans hold)
    split
    next hselects =>
      right
      by_cases hfenced : statement.fenced
      · have hmine := Held.owner_of_fenced serde hsession hobeys.1 hrow hfenced hselects
        exact absurd (Option.some.inj (howner.symm.trans hmine)) hother
      · cases statement with
        | markSent id sentAtMs => rfl
        | _ => simp_all [Statement.settles, Statement.fenced]
    next => exact .inl rfl
  next => contradiction

/-- Any number of flushers, enqueuers, retries, unparkings and drains: in every
reachable state outcome writes are fenced, `sent` is final, and sent rows were
delivered. -/
theorem emitter_safe_of_run {schedule : List (Int × Action)} {final : World}
    (hrun : Run (World.step serde) (fun _ _ => True) .init schedule final) :
    Fenced serde final ∧ SentAbsorbing serde final ∧ SentDelivered serde final := by
  have hinv : EmitterInvariant serde final :=
    hrun.invariant (fun _ _ _ hinv _ hstep => hinv.step serde hstep) (.init serde)
  refine ⟨hinv.fenced serde, ?_, hinv.sent⟩
  intro timed next id row after hstep hrow hsent hafter
  obtain ⟨old, hold, _, hstays⟩ :=
    (Evolves.step serde hstep).row id after (AutoTable.find_lt hrow) hafter
  obtain rfl : row = old := Option.some.inj (hrow.symm.trans hold)
  exact hstays hsent

def sessionSerde : Serde where
  encode := ObservationEvent.sessionId
  encodeIds := List.flatten
  decode payload := .ok (.ruleFired [] none none payload 0)
  parseJson _ := none

/-- Process 2 takes over a row whose lease lapsed and sends it; the transport
error of process 1 comes in late. -/
def takeoverSchedule : List (Int × Action) :=
  [ (0, .enqueue 1 true (.ruleFired [] none none "s" 0)), (0, .resume 1 (.ok ⟨⟩)),
    (0, .resume 1 (.ok ⟨⟩)),
    (1, .flush 1 true),
    (60001, .flush 2 true),
    (60002, .resume 2 (.ok ⟨⟩)),
    (60002, .resume 2 (.ok ⟨⟩)),
    (60003, .resume 1 (.error (.transport "timeout"))),
    (60003, .resume 1 (.ok ⟨⟩)),
    (60003, .resume 1 (.ok ⟨⟩)),
    (60004, .resume 2 (.ok ⟨⟩)) ]

theorem emitter_safe_of_run_takeover :
    ∃ final, Run (World.step sessionSerde) (fun _ _ => True) .init takeoverSchedule final ∧
      Fenced sessionSerde final ∧ SentAbsorbing sessionSerde final ∧
      SentDelivered sessionSerde final := by
  obtain ⟨final, hfinal⟩ : ∃ final, execute (World.step sessionSerde) (fun _ _ => True)
      .init takeoverSchedule = some final := Option.isSome_iff_exists.mp (by decide)
  exact ⟨final, .of_execute hfinal, emitter_safe_of_run sessionSerde (.of_execute hfinal)⟩

end Difflore.Cloud.Observations

import Difflore.Cloud.Observations.Sync

/-! # The protocol of a flush

A flush owes every row it claimed one outcome write: a failure write under its
own lease, or `sent` after an upload that carried the row. The program settles
all of them, whatever the server answers.
-/

namespace Difflore.Cloud.Observations

open Foundation

variable (serde : Serde)

def Statement.settles : Statement → Option RowId
  | .reschedule id .. | .park id .. | .abandon id .. | .markSent id _ => some id
  | .claim .. | .unparkAfterSuccess _ | .retryPendingUploadsNow _
  | .drainAbandonedOlderThan .. => none

/-- Rows still to be settled, and rows that a successful upload carried. -/
structure Phase where
  owed : List RowId
  delivered : List RowId

def Phase.settle (phase : Phase) (id : RowId) : Phase := { phase with owed := phase.owed.erase id }

def Genuine (rows : List Row) (item : ClaimedObservation) : Prop :=
  ∃ row ∈ rows, row.id = item.id ∧ serde.decode row.payloadJson = .ok item.event

def flushProtocol (rows : List Row) (lease : Int) : Protocol Query Answer Phase where
  permits phase
    | .exec (.reschedule id _ _ _ fence) | .exec (.park id _ fence) | .exec (.abandon id _ fence) =>
      id ∈ phase.owed ∧ fence = lease
    | .exec (.markSent id _) => id ∈ phase.owed ∧ id ∈ phase.delivered
    | .exec (.unparkAfterSuccess _) => True
    | .exec (.claim ..) | .exec (.retryPendingUploadsNow _)
    | .exec (.drainAbandonedOlderThan ..) => False
    | .upload batch => ∀ item ∈ batch, Genuine serde rows item
    | .now | .overflow | .trim .. => True
  advance phase query answer :=
    match query, answer with
    | .exec statement, _ => statement.settles.elim phase phase.settle
    | .upload batch, .ok _ =>
      { phase with delivered := batch.map ClaimedObservation.id ++ phase.delivered }
    | .upload _, .error _ | .now, _ | .overflow, _ | .trim .., _ => phase

section Rules

variable {serde} {rows : List Row} {lease : Int} {phase : Phase}

theorem settle_cons {id : RowId} {rest : List RowId} (howed : phase.owed = id :: rest) :
    (phase.settle id).owed = rest := by
  simp [Phase.settle, howed]

theorem settle_append_cons {id : RowId} {before rest : List RowId}
    (howed : phase.owed = before ++ id :: rest) (hnodup : phase.owed.Nodup) :
    (phase.settle id).owed = before ++ rest := by
  rw [howed] at hnodup
  have hnot : id ∉ before := fun hmem =>
    (List.nodup_append.mp hnodup).2.2 id hmem id (.head _ ..) rfl
  rw [Phase.settle, howed, List.erase_append_right _ hnot, List.erase_cons_head]

theorem obeys_now_bind {Result : Type} {post : Phase → Result → Prop} {next : Int → Flush Result} :
    (flushProtocol serde rows lease).Obeys post phase (nowUnixMs >>= next) ↔
      ∀ now, (flushProtocol serde rows lease).Obeys post phase (next now) :=
  ⟨fun hobeys => hobeys.2, fun hobeys => ⟨trivial, hobeys⟩⟩

theorem obeys_exec {post : Phase → PUnit → Prop} {statement : Statement}
    (hpermits : (flushProtocol serde rows lease).permits phase (.exec statement))
    (hpost : post (statement.settles.elim phase phase.settle) ⟨⟩) :
    (flushProtocol serde rows lease).Obeys post phase (exec statement) :=
  ⟨hpermits, fun _ => hpost⟩

theorem obeys_abandon {id : RowId} {err : Text} (howed : id ∈ phase.owed) :
    (flushProtocol serde rows lease).Obeys (fun after _ => after = phase.settle id) phase
      (exec (.abandon id err lease)) :=
  obeys_exec ⟨howed, rfl⟩ rfl

theorem obeys_markSent {id : RowId} {sentAtMs : Int} (howed : id ∈ phase.owed)
    (hdelivered : id ∈ phase.delivered) :
    (flushProtocol serde rows lease).Obeys (fun after _ => after = phase.settle id) phase
      (exec (.markSent id sentAtMs)) :=
  obeys_exec ⟨howed, hdelivered⟩ rfl

theorem obeys_upload_bind {Result : Type} {post : Phase → Result → Prop}
    {batch : List ClaimedObservation} {next : Except OutboxFailure PUnit → Flush Result}
    (hgenuine : ∀ item ∈ batch, Genuine serde rows item)
    (hok : ∀ carried reply, carried.owed = phase.owed →
      (∀ item ∈ batch, item.id ∈ carried.delivered) →
      (flushProtocol serde rows lease).Obeys post carried (next (.ok reply)))
    (herror : ∀ failure, (flushProtocol serde rows lease).Obeys post phase
      (next (.error failure))) :
    (flushProtocol serde rows lease).Obeys post phase (upload batch >>= next) := by
  refine ⟨hgenuine, ?_⟩
  intro answer
  cases answer with
  | ok reply =>
    exact hok { phase with delivered := batch.map ClaimedObservation.id ++ phase.delivered } reply
      rfl fun item hitem => List.mem_append_left _ (List.mem_map_of_mem hitem)
  | error failure => exact herror failure

theorem obeys_trimOverflow {kind : Trim} :
    (flushProtocol serde rows lease).Obeys (fun after _ => after = phase) phase
      (trimOverflow kind) := by
  refine ⟨trivial, fun count => ?_⟩
  show (flushProtocol serde rows lease).Obeys _ phase (if count > 0 then _ else _)
  split
  next => exact ⟨trivial, fun _ => rfl⟩
  next => exact rfl

theorem obeys_capQueue :
    (flushProtocol serde rows lease).Obeys (fun after _ => after = phase) phase capQueue := by
  refine ⟨trivial, fun count => ?_⟩
  show (flushProtocol serde rows lease).Obeys _ phase (if count ≤ 0 then _ else _)
  split
  next => exact rfl
  next =>
    refine ⟨trivial, fun _ => obeys_trimOverflow.bind ?_⟩
    rintro after _ rfl
    exact obeys_trimOverflow

theorem obeys_unparkAfterSuccess :
    (flushProtocol serde rows lease).Obeys (fun after _ => after = phase) phase
      unparkAfterSuccess :=
  obeys_now_bind.mpr fun _ => obeys_exec trivial rfl

theorem obeys_markFailedWithClass {row : ClaimedObservation} {failure : OutboxFailure}
    {deliveryClass : DeliveryClass} (howed : row.id ∈ phase.owed) :
    (flushProtocol serde rows lease).Obeys (fun after _ => after = phase.settle row.id) phase
      (markFailedWithClass row failure lease deliveryClass) := by
  refine obeys_now_bind.mpr fun now => ?_
  cases deliveryClass with
  | authBlocked => exact obeys_exec ⟨howed, rfl⟩ rfl
  | permanentInvalid => exact obeys_exec ⟨howed, rfl⟩ rfl
  | rateLimited retryAfterMs =>
    show (flushProtocol serde rows lease).Obeys _ phase (if _ then _ else _)
    split <;> exact obeys_exec ⟨howed, rfl⟩ rfl
  | transient =>
    show (flushProtocol serde rows lease).Obeys _ phase (if _ then _ else _)
    split <;> exact obeys_exec ⟨howed, rfl⟩ rfl

theorem obeys_markFailed {row : ClaimedObservation} {failure : OutboxFailure}
    (howed : row.id ∈ phase.owed) :
    (flushProtocol serde rows lease).Obeys (fun after _ => after = phase.settle row.id) phase
      (markFailed serde row failure lease) :=
  obeys_markFailedWithClass howed

theorem obeys_settle_forM {ι : Type} (ids : ι → RowId) {body : ι → Flush PUnit} {items : List ι}
    {tail : List RowId} (hbody : ∀ item ∈ items, ∀ current, current.delivered = phase.delivered →
      ids item ∈ current.owed →
      (flushProtocol serde rows lease).Obeys (fun after _ => after = current.settle (ids item))
        current (body item)) (howed : phase.owed = items.map ids ++ tail) :
    (flushProtocol serde rows lease).Obeys (fun after _ => after.owed = tail) phase
      (forM items body) := by
  let inv (rest : List ι) (current : Phase) : Prop :=
    current.owed = rest.map ids ++ tail ∧ current.delivered = phase.delivered ∧
      ∀ item ∈ rest, item ∈ items
  have hloop : ∀ item rest current, inv (item :: rest) current →
      (flushProtocol serde rows lease).Obeys (fun after _ => inv rest after) current
        (body item) := by
    rintro item rest current ⟨hcurrent, hdelivered, hrest⟩
    have hmem : ids item ∈ current.owed := by simp [hcurrent]
    refine (hbody item (hrest item (.head _ ..)) current hdelivered hmem).mono ?_
    rintro after _ rfl
    exact ⟨settle_cons hcurrent, hdelivered,
      fun other hother => hrest other (List.mem_cons_of_mem item hother)⟩
  have hstart : inv items phase := ⟨howed, rfl, fun _ hitem => hitem⟩
  exact (Protocol.obeys_forM inv hloop hstart).mono fun after _ hafter => hafter.1

theorem obeys_decodeClaimed (claimedRows : List Row) (hrows : ∀ row ∈ claimedRows, row ∈ rows)
    (kept : List RowId) (howed : phase.owed = kept ++ claimedRows.map Row.id)
    (hnodup : phase.owed.Nodup) :
    (flushProtocol serde rows lease).Obeys
      (fun after claimed => after.owed = kept ++ claimed.map ClaimedObservation.id ∧
        after.owed.Nodup ∧ ∀ item ∈ claimed, Genuine serde rows item)
      phase (decodeClaimed serde lease claimedRows) := by
  induction claimedRows generalizing phase kept with
  | nil => exact ⟨howed, hnodup, by simp⟩
  | cons row rest ih =>
    have hrest : ∀ other ∈ rest, other ∈ rows :=
      fun other hother => hrows other (List.mem_cons_of_mem row hother)
    rw [List.map_cons] at howed
    unfold decodeClaimed
    split
    next event hdecode =>
      refine (ih hrest (kept ++ [row.id]) (by simpa using howed) hnodup).bind ?_
      rintro after claimed ⟨hafter, hafterNodup, hgenuine⟩
      refine ⟨by simpa using hafter, hafterNodup, ?_⟩
      intro item hitem
      rcases List.mem_cons.mp hitem with rfl | hitem
      · exact ⟨row, hrows row (.head _ ..), rfl, hdecode⟩
      · exact hgenuine item hitem
    next e _ =>
      have hmem : row.id ∈ phase.owed := by simp [howed]
      refine (obeys_abandon hmem).bind ?_
      rintro after _ rfl
      exact ih hrest kept (settle_append_cons howed hnodup) (hnodup.erase _)

theorem obeys_isolateFrom (total : Nat) (claimed : List ClaimedObservation)
    (hgenuine : ∀ item ∈ claimed, Genuine serde rows item) (sent : Nat)
    (pendingPermanent : List (ClaimedObservation × OutboxFailure))
    (howed : phase.owed = pendingPermanent.map (·.1.id) ++ claimed.map ClaimedObservation.id)
    (hnodup : phase.owed.Nodup) :
    (flushProtocol serde rows lease).Obeys (fun after _ => after.owed = []) phase
      (isolateFrom serde total lease claimed sent pendingPermanent) := by
  induction claimed generalizing phase sent pendingPermanent with
  | nil =>
    refine (obeys_settle_forM (·.1.id) (fun _ _ _ _ => obeys_markFailedWithClass) howed).bind ?_
    exact fun after _ hafter => hafter
  | cons row rest ih =>
    have hrest : ∀ item ∈ rest, Genuine serde rows item :=
      fun item hitem => hgenuine item (List.mem_cons_of_mem row hitem)
    have hmem : row.id ∈ phase.owed := by simp [howed]
    unfold isolateFrom
    refine obeys_upload_bind (by simpa using hgenuine row (.head _ ..)) ?_ ?_
    · intro carried reply hcarried hdelivered
      rw [← hcarried] at howed hnodup hmem
      have hsettled := settle_append_cons howed hnodup
      have hsettledNodup : (carried.settle row.id).owed.Nodup := hnodup.erase _
      refine obeys_now_bind.mpr fun sentAt => ?_
      refine (obeys_markSent hmem (hdelivered row (List.mem_singleton_self row))).bind ?_
      rintro after _ rfl
      split
      next =>
        -- The first success proves the earlier verdicts were about their rows.
        refine (obeys_settle_forM (·.1.id) (fun _ _ _ _ => obeys_markFailed) hsettled).bind ?_
        intro after _ hafter
        refine ih hrest (sent + 1) [] hafter ?_
        rw [hsettled] at hsettledNodup
        exact hafter ▸ (List.nodup_append.mp hsettledNodup).2.1
      next => exact ih hrest (sent + 1) pendingPermanent hsettled hsettledNodup
    · intro failure
      dsimp only
      split
      next =>
        split
        next =>
          refine (obeys_markFailed hmem).bind ?_
          rintro after _ rfl
          exact ih hrest sent pendingPermanent (settle_append_cons howed hnodup) (hnodup.erase _)
        next =>
          exact ih hrest sent (pendingPermanent ++ [(row, failure)]) (by simpa using howed) hnodup
      next =>
        refine (obeys_settle_forM (·.1.id) (fun _ _ _ _ => obeys_markFailed) howed).bind ?_
        intro after _ hafter
        exact (obeys_settle_forM ClaimedObservation.id (fun _ _ _ _ => obeys_markFailed)
          (hafter.trans (List.append_nil _).symm)).bind fun after _ hafter => hafter

theorem obeys_finish {attempted sent : Nat} (howed : phase.owed = []) :
    (flushProtocol serde rows lease).Obeys (fun after _ => after.owed = []) phase
      (capQueue >>= fun _ => pure (attempted, sent)) := by
  refine obeys_capQueue.bind ?_
  rintro after _ rfl
  exact howed

theorem obeys_unpark_finish {attempted sent : Nat} (howed : phase.owed = []) :
    (flushProtocol serde rows lease).Obeys (fun after _ => after.owed = []) phase
      (unparkAfterSuccess >>= fun _ => capQueue >>= fun _ => pure (attempted, sent)) := by
  refine obeys_unparkAfterSuccess.bind ?_
  rintro after _ rfl
  exact obeys_finish howed

theorem obeys_deliver (claimed : List ClaimedObservation)
    (hgenuine : ∀ item ∈ claimed, Genuine serde rows item)
    (howed : phase.owed = claimed.map ClaimedObservation.id) (hnodup : phase.owed.Nodup) :
    (flushProtocol serde rows lease).Obeys (fun after _ => after.owed = []) phase
      (deliver serde claimed lease) := by
  have hall : phase.owed = claimed.map ClaimedObservation.id ++ [] :=
    howed.trans (List.append_nil _).symm
  unfold deliver
  refine obeys_upload_bind hgenuine ?_ ?_
  · intro carried reply hcarried hdelivered
    refine obeys_now_bind.mpr fun sentAt => ?_
    refine (obeys_settle_forM ClaimedObservation.id ?_ (hcarried.trans hall)).bind ?_
    · intro item hitem current hcurrent hmem
      exact obeys_markSent hmem (hcurrent ▸ hdelivered item hitem)
    · exact fun after _ hafter => obeys_unpark_finish hafter
  · intro failure
    dsimp only
    split
    next =>
      refine (obeys_settle_forM ClaimedObservation.id
        (fun _ _ _ _ => obeys_markFailed) hall).bind ?_
      exact fun after _ hafter => obeys_finish hafter
    next =>
      refine (obeys_isolateFrom claimed.length claimed hgenuine 0 [] howed hnodup).bind ?_
      intro after sent hafter
      split
      next => exact obeys_unpark_finish hafter
      next => exact obeys_finish hafter

theorem obeys_flushClaimed (howed : phase.owed = rows.map Row.id) (hnodup : phase.owed.Nodup) :
    (flushProtocol serde rows lease).Obeys (fun after _ => after.owed = []) phase
      (flushClaimed serde rows lease) := by
  unfold flushClaimed
  refine (obeys_decodeClaimed rows (fun _ hrow => hrow) [] howed hnodup).bind ?_
  rintro after claimed ⟨hafter, hafterNodup, hgenuine⟩
  rw [List.nil_append] at hafter
  split
  next hempty =>
    rw [hempty] at hafter
    exact hafter
  next => exact obeys_deliver claimed hgenuine hafter hafterNodup

end Rules

end Difflore.Cloud.Observations

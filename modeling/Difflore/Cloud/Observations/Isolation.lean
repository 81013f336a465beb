import Difflore.Cloud.Observations.FlushProtocol

/-! # What a flush writes for the rows of a batch

The history of a flush decides what it may still do: no upload after a failure
that every row shares, and no permanent verdict on a row before its own upload
was rejected and another row of the batch got through.
-/

namespace Difflore.Cloud.Observations

open Foundation

variable (serde : Serde)

variable {row : ClaimedObservation} {failure : OutboxFailure}

abbrev History := List (Exchange Query Answer)

def IsUpload : Query → Prop
  | .upload _ => True
  | .now | .exec _ | .overflow | .trim .. => False

def Query.settles : Query → Option RowId
  | .exec statement => statement.settles
  | .upload _ | .now | .overflow | .trim .. => none

def outcomeWrites (history : History) (id : RowId) : Nat :=
  history.countP fun exchange => exchange.query.settles = some id

def SharedFailure (history : History) : Prop :=
  ∃ batch failure, (⟨.upload batch, .error failure⟩ : Exchange Query Answer) ∈ history ∧
    classify serde.parseJson failure ≠ .permanentInvalid

def RejectedAlone (history : History) (row : ClaimedObservation) (failure : OutboxFailure) : Prop :=
  (⟨.upload [row], .error failure⟩ : Exchange Query Answer) ∈ history ∧
    classify serde.parseJson failure = .permanentInvalid

def AcceptedAlone (history : History) (row : ClaimedObservation) : Prop :=
  (⟨.upload [row], .ok ⟨⟩⟩ : Exchange Query Answer) ∈ history

def permanentMark : Text := "permanent: "

/-- A row of this id was rejected on its own, and another row of the batch got
through, unless there is no other. -/
def Condemned (claimed : List ClaimedObservation) (history : History) (id : RowId) : Prop :=
  ∃ row others, claimed.Perm (row :: others) ∧ row.id = id ∧
    (∃ failure, RejectedAlone serde history row failure) ∧
    (others = [] ∨ ∃ other ∈ others, AcceptedAlone history other)

def isolationPermits (claimed : List ClaimedObservation) (history : History) : Query → Prop
  | .upload _ => ¬SharedFailure serde history
  | .exec (.abandon id err _) => permanentMark <+: err → Condemned serde claimed history id
  | .exec _ | .now | .overflow | .trim .. => True

abbrev isolationProtocol (claimed : List ClaimedObservation) : Protocol Query Answer History :=
  historyProtocol (isolationPermits serde claimed)

/-- The history went on without uploads, with one outcome write for each id. -/
def Settled (ids : List RowId) (before after : History) : Prop :=
  ∃ more, after = before ++ more ∧ (∀ exchange ∈ more, ¬IsUpload exchange.query) ∧
    ∀ id, outcomeWrites more id = ids.count id

def Written (ids : List RowId) (before after : History) : Prop :=
  ∀ id, outcomeWrites after id = outcomeWrites before id + ids.count id

section Rules

variable {serde} {claimed : List ClaimedObservation} {lease : Int} {before middle after : History}
  {ids more : List RowId}

theorem outcomeWrites_append (history later : History) (id : RowId) :
    outcomeWrites (history ++ later) id = outcomeWrites history id + outcomeWrites later id :=
  List.countP_append

theorem Settled.refl (history : History) : Settled [] history history :=
  ⟨[], (List.append_nil _).symm, by simp, fun _ => rfl⟩

theorem Settled.trans (hfirst : Settled ids before middle) (hsecond : Settled more middle after) :
    Settled (ids ++ more) before after := by
  obtain ⟨one, rfl, hone, honeCount⟩ := hfirst
  obtain ⟨two, rfl, htwo, htwoCount⟩ := hsecond
  refine ⟨one ++ two, List.append_assoc .., ?_, ?_⟩
  · intro exchange hexchange
    rcases List.mem_append.mp hexchange with hmem | hmem
    · exact hone exchange hmem
    · exact htwo exchange hmem
  · intro id
    rw [outcomeWrites_append, honeCount, htwoCount, List.count_append]

theorem Settled.quiet (history : History) (query : Query) (answer : Answer query)
    (hquery : ¬IsUpload query) (hsettles : query.settles = none) :
    Settled [] history (history ++ [⟨query, answer⟩]) := by
  refine ⟨[⟨query, answer⟩], rfl, ?_, ?_⟩
  · intro exchange hexchange
    rw [List.mem_singleton.mp hexchange]
    exact hquery
  · intro id
    simp [outcomeWrites, hsettles]

theorem Settled.written (hsettled : Settled ids before after) : Written ids before after := by
  obtain ⟨later, rfl, -, hcount⟩ := hsettled
  intro id
  rw [outcomeWrites_append, hcount]

theorem Settled.subset (hsettled : Settled ids before after) : before ⊆ after := by
  obtain ⟨later, rfl, -, -⟩ := hsettled
  exact List.subset_append_left before later

theorem Settled.not_sharedFailure (hsettled : Settled ids before after)
    (hshared : ¬SharedFailure serde before) : ¬SharedFailure serde after := by
  obtain ⟨later, rfl, hlater, -⟩ := hsettled
  rintro ⟨batch, failure, hmem, hclass⟩
  rcases List.mem_append.mp hmem with hmem | hmem
  · exact hshared ⟨batch, failure, hmem, hclass⟩
  · exact hlater _ hmem trivial

theorem Written.trans (hfirst : Written ids before middle) (hsecond : Written more middle after) :
    Written (ids ++ more) before after := by
  intro id
  rw [hsecond id, hfirst id, List.count_append, Nat.add_assoc]

theorem Written.of_perm (hwritten : Written ids before after) (hperm : ids.Perm more) :
    Written more before after := by
  intro id
  rw [hwritten id, hperm.count_eq]

theorem RejectedAlone.mono (hrejected : RejectedAlone serde before row failure)
    (hsubset : before ⊆ after) :
    RejectedAlone serde after row failure :=
  ⟨hsubset hrejected.1, hrejected.2⟩

theorem Condemned.mono {rowId : RowId} (hcondemned : Condemned serde claimed before rowId)
    (hsubset : before ⊆ after) : Condemned serde claimed after rowId := by
  obtain ⟨row, others, hperm, hid, ⟨failure, hrejected⟩, hothers⟩ := hcondemned
  refine ⟨row, others, hperm, hid, ⟨failure, hrejected.mono hsubset⟩, ?_⟩
  rcases hothers with hnone | ⟨other, hother, haccepted⟩
  · exact .inl hnone
  · exact .inr ⟨other, hother, hsubset haccepted⟩

/-! ## The parts of the program -/

theorem isolation_now_bind {Result : Type} {post : History → Result → Prop}
    {next : Int → Flush Result} (hnext : ∀ now after, Settled [] before after →
      (isolationProtocol serde claimed).Obeys post after (next now)) :
    (isolationProtocol serde claimed).Obeys post before (nowUnixMs >>= next) := by
  exact ⟨trivial, fun now => hnext now _ (Settled.quiet before .now now id rfl)⟩

theorem isolation_exec {statement : Statement}
    (hpermits : isolationPermits serde claimed before (.exec statement)) :
    (isolationProtocol serde claimed).Obeys
      (fun after _ => Settled statement.settles.toList before after) before (exec statement) := by
  refine ⟨hpermits, fun answer => ⟨[⟨.exec statement, answer⟩], rfl, ?_, ?_⟩⟩
  · intro exchange hexchange
    rw [List.mem_singleton.mp hexchange]
    exact id
  · intro id
    cases hsettles : statement.settles with
    | none => simp [outcomeWrites, Query.settles, hsettles]
    | some settled => simp [outcomeWrites, Query.settles, hsettles, List.count_singleton]

theorem isolation_upload_bind {Result : Type} {post : History → Result → Prop}
    {batch : List ClaimedObservation} {next : Except OutboxFailure PUnit → Flush Result}
    (hshared : ¬SharedFailure serde before)
    (hok : ∀ after, Written [] before after → before ⊆ after → ¬SharedFailure serde after →
      (⟨.upload batch, .ok ⟨⟩⟩ : Exchange Query Answer) ∈ after →
      (isolationProtocol serde claimed).Obeys post after (next (.ok ⟨⟩)))
    (herror : ∀ failure after, Written [] before after → before ⊆ after →
      (classify serde.parseJson failure = .permanentInvalid → ¬SharedFailure serde after) →
      (⟨.upload batch, .error failure⟩ : Exchange Query Answer) ∈ after →
      (isolationProtocol serde claimed).Obeys post after (next (.error failure))) :
    (isolationProtocol serde claimed).Obeys post before (upload batch >>= next) := by
  refine ⟨hshared, fun answer => ?_⟩
  have hwritten : Written [] before (before ++ [⟨.upload batch, answer⟩]) := by
    intro id
    rw [outcomeWrites_append]
    rfl
  have hmem : (⟨.upload batch, answer⟩ : Exchange Query Answer) ∈
      before ++ [⟨.upload batch, answer⟩] := by simp
  have hsubset : before ⊆ before ++ [(⟨.upload batch, answer⟩ : Exchange Query Answer)] :=
    List.subset_append_left ..
  cases answer with
  | ok reply =>
    refine hok _ hwritten hsubset ?_ hmem
    rintro ⟨other, failure, hother, hclass⟩
    rcases List.mem_append.mp hother with hother | hother
    · exact hshared ⟨other, failure, hother, hclass⟩
    · simp at hother
  | error failure =>
    refine herror failure _ hwritten hsubset ?_ hmem
    rintro hpermanent ⟨other, failure', hother, hclass⟩
    rcases List.mem_append.mp hother with hother | hother
    · exact hshared ⟨other, failure', hother, hclass⟩
    · simp only [List.mem_singleton, Exchange.mk.injEq, Query.upload.injEq] at hother
      obtain ⟨rfl, hfailure⟩ := hother
      cases eq_of_heq hfailure
      exact hclass hpermanent

theorem not_permanentMark_truncate {heading : Char} {text : Text} {limit : Nat}
    (hheading : heading ≠ 'p') : ¬permanentMark <+: truncate (heading :: text) limit := by
  have hmark : permanentMark = 'p' :: "ermanent: " := by decide
  have hhead : ∀ kept : Text, ¬permanentMark <+: heading :: kept := by
    intro kept hpart
    rw [hmark, List.cons_prefix_cons] at hpart
    exact hheading hpart.1.symm
  unfold truncate
  split
  next => exact hhead text
  next =>
    cases limit with
    | zero =>
      rw [List.take_zero, List.prefix_nil, hmark]
      exact List.cons_ne_nil _ _
    | succ limit => exact hhead _

theorem isolation_markFailedWithClass {deliveryClass : DeliveryClass}
    (hclass : deliveryClass = .permanentInvalid → Condemned serde claimed before row.id) :
    (isolationProtocol serde claimed).Obeys (fun after _ => Settled [row.id] before after) before
      (markFailedWithClass row failure lease deliveryClass) := by
  refine isolation_now_bind fun now middle hmiddle => ?_
  have hwrite : ∀ statement : Statement, statement.settles = some row.id →
      isolationPermits serde claimed middle (.exec statement) →
      (isolationProtocol serde claimed).Obeys (fun after _ => Settled [row.id] before after) middle
        (exec statement) := by
    intro statement hsettles hpermits
    refine (isolation_exec hpermits).mono fun after _ hafter => ?_
    rw [hsettles] at hafter
    exact hmiddle.trans hafter
  cases deliveryClass with
  | authBlocked => exact hwrite _ rfl trivial
  | permanentInvalid =>
    exact hwrite _ rfl fun _ => (hclass rfl).mono hmiddle.subset
  | rateLimited retryAfterMs =>
    show (isolationProtocol serde claimed).Obeys _ middle (if _ then _ else _)
    split
    next => exact hwrite _ rfl fun hmark => absurd hmark (not_permanentMark_truncate (by decide))
    next => exact hwrite _ rfl trivial
  | transient =>
    show (isolationProtocol serde claimed).Obeys _ middle (if _ then _ else _)
    split
    next => exact hwrite _ rfl fun hmark => absurd hmark (not_permanentMark_truncate (by decide))
    next => exact hwrite _ rfl trivial

theorem isolation_forM {ι : Type} (ids : ι → RowId) {body : ι → Flush PUnit} {items : List ι}
    (hbody : ∀ item ∈ items, ∀ current, before ⊆ current →
      (isolationProtocol serde claimed).Obeys (fun after _ => Settled [ids item] current after)
        current (body item)) :
    (isolationProtocol serde claimed).Obeys (fun after _ => Settled (items.map ids) before after)
      before (forM items body) := by
  induction items generalizing before with
  | nil => exact Settled.refl before
  | cons item rest ih =>
    rw [List.forM_cons]
    refine (hbody item (.head _ ..) before (List.Subset.refl before)).bind ?_
    intro middle _ hmiddle
    refine (ih ?_).mono fun after _ hafter => hmiddle.trans hafter
    intro other hother current hcurrent
    exact hbody other (List.mem_cons_of_mem item hother) current
      (List.Subset.trans hmiddle.subset hcurrent)

theorem isolation_trimOverflow {kind : Trim} :
    (isolationProtocol serde claimed).Obeys (fun after _ => Settled [] before after) before
      (trimOverflow kind) := by
  refine ⟨trivial, fun count => ?_⟩
  show (isolationProtocol serde claimed).Obeys _ _ (if count > 0 then _ else _)
  have hcount := Settled.quiet before (.overflow) count id rfl
  split
  next => exact ⟨trivial, fun answer => hcount.trans (Settled.quiet _ _ answer id rfl)⟩
  next => exact hcount

theorem isolation_capQueue :
    (isolationProtocol serde claimed).Obeys (fun after _ => Settled [] before after) before
      capQueue := by
  refine ⟨trivial, fun count => ?_⟩
  show (isolationProtocol serde claimed).Obeys _ _ (if count ≤ 0 then _ else _)
  have hcount := Settled.quiet before (.overflow) count id rfl
  split
  next => exact hcount
  next =>
    refine ⟨trivial, fun answer => ?_⟩
    have htrim := hcount.trans (Settled.quiet _ (.trim .sent count) answer id rfl)
    refine isolation_trimOverflow.bind fun middle _ hmiddle => ?_
    exact isolation_trimOverflow.mono fun after _ hafter => (htrim.trans hmiddle).trans hafter

theorem isolation_unparkAfterSuccess :
    (isolationProtocol serde claimed).Obeys (fun after _ => Settled [] before after) before
      unparkAfterSuccess := by
  refine isolation_now_bind fun now middle hmiddle => ?_
  have hpermits : isolationPermits serde claimed middle (.exec (.unparkAfterSuccess now)) := trivial
  exact (isolation_exec hpermits).mono fun after _ hafter => hmiddle.trans hafter

theorem isolation_finish {attempted sent : Nat} :
    (isolationProtocol serde claimed).Obeys (fun after _ => Settled [] before after) before
      (capQueue >>= fun _ => pure (attempted, sent)) :=
  isolation_capQueue.bind fun _ _ hafter => hafter

theorem isolation_unpark_finish {attempted sent : Nat} :
    (isolationProtocol serde claimed).Obeys (fun after _ => Settled [] before after) before
      (unparkAfterSuccess >>= fun _ => capQueue >>= fun _ => pure (attempted, sent)) := by
  refine isolation_unparkAfterSuccess.bind fun middle _ hmiddle => ?_
  exact isolation_finish.mono fun after _ hafter => hmiddle.trans hafter

theorem isolation_markFailed (hclass : classify serde.parseJson failure = .permanentInvalid →
      Condemned serde claimed before row.id) :
    (isolationProtocol serde claimed).Obeys (fun after _ => Settled [row.id] before after) before
      (markFailed serde row failure lease) :=
  isolation_markFailedWithClass hclass

/-! ## The isolation loop -/

/-- Where the loop stands: the rows it is done with, the rows rejected without
a verdict yet, and the rows still to try. -/
def Isolating (serde : Serde) (claimed : List ClaimedObservation) (history : History)
    (remaining : List ClaimedObservation) (sent : Nat)
    (pendingPermanent : List (ClaimedObservation × OutboxFailure)) : Prop :=
  ¬SharedFailure serde history ∧
    ∃ finished, claimed.Perm (finished ++ (pendingPermanent.map Prod.fst ++ remaining)) ∧
      (0 < sent → ∃ other ∈ finished, AcceptedAlone history other) ∧
      ∀ failed ∈ pendingPermanent, RejectedAlone serde history failed.1 failed.2

theorem condemned_of_accepted {others : List ClaimedObservation}
    (hperm : claimed.Perm (row :: others)) (hrejected : RejectedAlone serde before row failure)
    (haccepted : ∃ other ∈ others, AcceptedAlone before other) :
    Condemned serde claimed before row.id :=
  ⟨row, others, hperm, rfl, ⟨failure, hrejected⟩, .inr haccepted⟩

theorem condemned_pending {finished rest : List ClaimedObservation}
    {pendingPermanent : List (ClaimedObservation × OutboxFailure)}
    {failed : ClaimedObservation × OutboxFailure}
    (hperm : claimed.Perm (finished ++ (pendingPermanent.map Prod.fst ++ row :: rest)))
    (hfailed : failed ∈ pendingPermanent) (hrejected : RejectedAlone serde before failed.1 failed.2)
    (haccepted : AcceptedAlone before row) : Condemned serde claimed before failed.1.id := by
  obtain ⟨front, back, rfl⟩ := List.append_of_mem hfailed
  have hsplit : claimed.Perm (failed.1 :: (finished ++ (front.map Prod.fst ++
      (back.map Prod.fst ++ row :: rest)))) := by
    refine hperm.trans ?_
    rw [List.map_append, List.map_cons, List.append_assoc, List.cons_append, ← List.append_assoc,
      ← List.append_assoc finished]
    exact List.perm_middle
  exact condemned_of_accepted hsplit hrejected ⟨row, by simp, haccepted⟩

theorem isolation_isolateFrom {total : Nat} (htotal : claimed.length = total)
    (remaining : List ClaimedObservation) (sent : Nat)
    (pendingPermanent : List (ClaimedObservation × OutboxFailure))
    (hinv : Isolating serde claimed before remaining sent pendingPermanent) :
    (isolationProtocol serde claimed).Obeys
      (fun after _ => Written (pendingPermanent.map (·.1.id) ++ remaining.map ClaimedObservation.id)
        before after)
      before (isolateFrom serde total lease remaining sent pendingPermanent) := by
  induction remaining generalizing before sent pendingPermanent with
  | nil =>
    refine (isolation_forM (·.1.id) fun _ _ _ _ => isolation_markFailedWithClass ?_).bind ?_
    · exact fun hclass => nomatch hclass
    · intro after _ hafter
      rw [List.map_nil, List.append_nil]
      exact hafter.written
  | cons row rest ih =>
    obtain ⟨hshared, finished, hperm, hsent, hpending⟩ := hinv
    have hids : (row.id :: (pendingPermanent.map (·.1.id) ++ rest.map ClaimedObservation.id)).Perm
        (pendingPermanent.map (·.1.id) ++ (row :: rest).map ClaimedObservation.id) :=
      List.perm_middle.symm
    unfold isolateFrom
    refine isolation_upload_bind hshared ?_ ?_
    · intro uploaded hwritten hsubset hunshared haccepted
      have hrow : AcceptedAlone uploaded row := haccepted
      refine isolation_now_bind fun sentAt timed htimed => ?_
      have hpermits : isolationPermits serde claimed timed (.exec (.markSent row.id sentAt)) :=
        trivial
      refine (isolation_exec hpermits).bind fun marked _ hmarked => ?_
      have hsettled : Settled [row.id] uploaded marked := htimed.trans hmarked
      have hbefore : before ⊆ marked := List.Subset.trans hsubset hsettled.subset
      have hmarkedRow : AcceptedAlone marked row := hsettled.subset hrow
      have hnow : Written [row.id] before marked := hwritten.trans hsettled.written
      have hmarkedShared := hsettled.not_sharedFailure hunshared
      split
      next =>
        -- The first success proves the earlier verdicts were about their rows.
        refine (isolation_forM (·.1.id) fun failed hfailed current hcurrent =>
          isolation_markFailed fun _ => (condemned_pending hperm hfailed
            ((hpending failed hfailed).mono hbefore) hmarkedRow).mono hcurrent).bind ?_
        intro proven _ hproven
        refine (ih (sent + 1) [] ⟨hproven.not_sharedFailure hmarkedShared,
          row :: (finished ++ pendingPermanent.map Prod.fst), ?_, fun _ => ⟨row, by simp,
            hproven.subset hmarkedRow⟩, by simp⟩).mono ?_
        · refine hperm.trans ?_
          rw [← List.append_assoc]
          exact List.perm_middle
        · intro after _ hafter
          exact ((hnow.trans hproven.written).trans hafter).of_perm hids
      next =>
        refine (ih (sent + 1) pendingPermanent ⟨hmarkedShared, row :: finished, ?_,
          fun _ => ⟨row, by simp, hmarkedRow⟩,
          fun failed hfailed => (hpending failed hfailed).mono hbefore⟩).mono ?_
        · refine hperm.trans ?_
          rw [← List.append_assoc, List.cons_append, ← List.append_assoc]
          exact List.perm_middle
        · intro after _ hafter
          exact (hnow.trans hafter).of_perm hids
    · intro failure rejected hwritten hsubset hunshared hfailure
      dsimp only
      split
      next hclass =>
        have hrejected : RejectedAlone serde rejected row failure := ⟨hfailure, hclass⟩
        have hpending' : ∀ failed ∈ pendingPermanent,
            RejectedAlone serde rejected failed.1 failed.2 :=
          fun failed hfailed => (hpending failed hfailed).mono hsubset
        split
        next hproof =>
          have hsplit : claimed.Perm (row :: (finished ++ (pendingPermanent.map Prod.fst ++
              rest))) := by
            refine hperm.trans ?_
            rw [← List.append_assoc, ← List.append_assoc]
            exact List.perm_middle
          have hcondemned : Condemned serde claimed rejected row.id := by
            refine ⟨row, _, hsplit, rfl, ⟨failure, hrejected⟩, ?_⟩
            rcases Bool.or_eq_true_iff.mp hproof with hsome | hone
            · obtain ⟨other, hother, haccepted⟩ := hsent (of_decide_eq_true hsome)
              exact .inr ⟨other, List.mem_append_left _ hother, hsubset haccepted⟩
            · have hlength := hsplit.length_eq
              rw [htotal, of_decide_eq_true hone, List.length_cons] at hlength
              exact .inl (List.eq_nil_of_length_eq_zero (by omega))
          refine (isolation_markFailed fun _ => hcondemned).bind fun marked _ hmarked => ?_
          refine (ih sent pendingPermanent ⟨hmarked.not_sharedFailure (hunshared hclass),
            row :: finished, hsplit, ?_, ?_⟩).mono ?_
          · intro hpositive
            obtain ⟨other, hother, haccepted⟩ := hsent hpositive
            exact ⟨other, List.mem_cons_of_mem row hother, hmarked.subset (hsubset haccepted)⟩
          · exact fun failed hfailed => (hpending' failed hfailed).mono hmarked.subset
          · intro after _ hafter
            exact ((hwritten.trans hmarked.written).trans hafter).of_perm hids
        next =>
          refine (ih sent (pendingPermanent ++ [(row, failure)]) ⟨hunshared hclass, finished,
            by simpa using hperm, ?_, ?_⟩).mono ?_
          · intro hpositive
            obtain ⟨other, hother, haccepted⟩ := hsent hpositive
            exact ⟨other, hother, hsubset haccepted⟩
          · intro failed hfailed
            rcases List.mem_append.mp hfailed with hfailed | hfailed
            · exact hpending' failed hfailed
            · rw [List.mem_singleton.mp hfailed]
              exact hrejected
          · intro after _ hafter
            refine (hwritten.trans hafter).of_perm ?_
            simp
      next hclass =>
        have hnever : classify serde.parseJson failure ≠ .permanentInvalid := hclass
        refine (isolation_forM (·.1.id) fun _ _ _ _ =>
          isolation_markFailed fun hpermanent => absurd hpermanent hnever).bind ?_
        intro middle _ hmiddle
        refine (isolation_forM ClaimedObservation.id fun _ _ _ _ =>
          isolation_markFailed fun hpermanent => absurd hpermanent hnever).bind ?_
        intro after _ hafter
        exact hwritten.trans (hmiddle.trans hafter).written

theorem isolation_deliver : (isolationProtocol serde claimed).Obeys
      (fun after _ => Written (claimed.map ClaimedObservation.id) [] after) []
      (deliver serde claimed lease) := by
  have hnone : ¬SharedFailure serde [] := by
    rintro ⟨batch, failure, hmem, -⟩
    simp at hmem
  have hclose : ∀ {settled : History} {Result : Type} {finish : Flush Result},
      Written (claimed.map ClaimedObservation.id) [] settled →
      (isolationProtocol serde claimed).Obeys (fun after _ => Settled [] settled after) settled
        finish →
      (isolationProtocol serde claimed).Obeys
        (fun after _ => Written (claimed.map ClaimedObservation.id) [] after) settled finish := by
    intro settled Result finish hsettled hfinish
    refine hfinish.mono fun after _ hafter => ?_
    exact (hsettled.trans hafter.written).of_perm (by rw [List.append_nil])
  unfold deliver
  refine isolation_upload_bind hnone ?_ ?_
  · intro uploaded hwritten _ _ _
    refine isolation_now_bind fun sentAt timed htimed => ?_
    have hmark : ∀ row ∈ claimed, ∀ current, timed ⊆ current →
        (isolationProtocol serde claimed).Obeys (fun after _ => Settled [row.id] current after)
          current (exec (.markSent row.id sentAt)) := by
      intro row _ current _
      have hpermits : isolationPermits serde claimed current (.exec (.markSent row.id sentAt)) :=
        trivial
      exact isolation_exec hpermits
    refine (isolation_forM ClaimedObservation.id hmark).bind fun marked _ hmarked => ?_
    exact hclose (hwritten.trans (htimed.trans hmarked).written)
      isolation_unpark_finish
  · intro failure rejected hwritten _ hunshared _
    dsimp only
    split
    next hclass =>
      refine (isolation_forM ClaimedObservation.id fun _ _ _ _ =>
        isolation_markFailed fun hpermanent => absurd hpermanent hclass).bind ?_
      intro marked _ hmarked
      exact hclose (hwritten.trans hmarked.written) isolation_finish
    next hclass =>
      have hpermanent := not_not.mp hclass
      refine (isolation_isolateFrom rfl claimed 0 [] ⟨hunshared hpermanent, [], List.Perm.refl _,
        fun hpositive => absurd hpositive (Nat.lt_irrefl 0), by simp⟩).bind ?_
      intro isolated sent hisolated
      have hall : Written (claimed.map ClaimedObservation.id) [] isolated :=
        hwritten.trans hisolated
      split
      next => exact hclose hall isolation_unpark_finish
      next => exact hclose hall isolation_finish

end Rules

/-- In every complete delivery of a batch, whatever the server answers: each
row gets its one outcome write; the permanent verdict falls only on a row that
was rejected on its own, with another row of the batch accepted or none there;
and no upload follows a failure that every row shares. -/
theorem deliver_isolates (claimed : List ClaimedObservation) (lease : Int) (trace : History)
    (result : Nat × Nat) (hends : (deliver serde claimed lease).Ends trace result) :
    (∀ id, outcomeWrites trace id = (claimed.map ClaimedObservation.id).count id) ∧
      (∀ front id err fence answer back,
        trace = front ++ ⟨.exec (.abandon id err fence), answer⟩ :: back →
        permanentMark <+: err → Condemned serde claimed front id) ∧
      ∀ front batch failure back, trace = front ++ ⟨.upload batch, .error failure⟩ :: back →
        classify serde.parseJson failure ≠ .permanentInvalid →
        ∀ exchange ∈ back, ¬IsUpload exchange.query := by
  have hobeys : (isolationProtocol serde claimed).Obeys
      (fun after _ => Written (claimed.map ClaimedObservation.id) [] after) []
      (deliver serde claimed lease) := isolation_deliver
  refine ⟨?_, ?_, ?_⟩
  · intro id
    have hwritten := hobeys.post_of_ends hends id
    rw [List.nil_append] at hwritten
    rw [hwritten]
    exact Nat.zero_add _
  · intro front id err fence answer back htrace hmark
    exact hobeys.permits_of_ends hends htrace hmark
  · intro front batch failure back htrace hclass exchange hexchange hupload
    obtain ⟨between, last, rfl⟩ := List.append_of_mem hexchange
    have hsplit : trace = (front ++ ⟨.upload batch, .error failure⟩ :: between) ++
        exchange :: last := by simp [htrace]
    have hpermits := hobeys.permits_of_ends hends hsplit
    rw [List.nil_append] at hpermits
    cases hquery : exchange.query with
    | upload other =>
      rw [hquery] at hpermits
      exact hpermits ⟨batch, failure, by simp, hclass⟩
    | now => exact (hquery ▸ hupload : IsUpload .now)
    | exec statement => exact (hquery ▸ hupload : IsUpload (.exec statement))
    | overflow => exact (hquery ▸ hupload : IsUpload .overflow)
    | trim kind count => exact (hquery ▸ hupload : IsUpload (.trim kind count))

def emptySerde : Serde where
  encode _ := []
  encodeIds _ := []
  decode payload := .error payload
  parseJson _ := none

def claimedRow (id : RowId) : ClaimedObservation where
  id := id
  event := .ruleFired [] none none [] 0
  retryCount := 0
  createdAtMs := 0

def unprocessable : OutboxFailure := .http ⟨422, "Unprocessable Entity", []⟩

/-- A batch of two is rejected; its first row is rejected again, its second one
goes through, and only then the first row is abandoned. -/
def mixedTrace : History := [ ⟨.upload [claimedRow 1, claimedRow 2], .error unprocessable⟩,
    ⟨.upload [claimedRow 1], .error unprocessable⟩,
    ⟨.upload [claimedRow 2], .ok ⟨⟩⟩,
    ⟨.now, (10 : Int)⟩,
    ⟨.exec (.markSent 2 10), ⟨⟩⟩,
    ⟨.now, (10 : Int)⟩,
    ⟨.exec (.abandon 1 "permanent: 422 Unprocessable Entity" 60000), ⟨⟩⟩,
    ⟨.now, (10 : Int)⟩,
    ⟨.exec (.unparkAfterSuccess 10), ⟨⟩⟩,
    ⟨.overflow, (0 : Int)⟩ ]

theorem ends_mixed :
    (deliver emptySerde [claimedRow 1, claimedRow 2] 60000).Ends mixedTrace (2, 1) := by
  unfold mixedTrace deliver
  iterate 10 apply Program.Ends.ask
  exact Program.Ends.done (2, 1)

theorem deliver_isolates_mixed :
    (deliver emptySerde [claimedRow 1, claimedRow 2] 60000).Ends mixedTrace (2, 1) ∧
      (∀ id, outcomeWrites mixedTrace id = [1, 2].count id) ∧
      (∀ front id err fence answer back,
        mixedTrace = front ++ ⟨.exec (.abandon id err fence), answer⟩ :: back →
        permanentMark <+: err →
        Condemned emptySerde [claimedRow 1, claimedRow 2] front id) ∧
      ∀ front batch failure back, mixedTrace = front ++ ⟨.upload batch, .error failure⟩ :: back →
        classify emptySerde.parseJson failure ≠ .permanentInvalid →
        ∀ exchange ∈ back, ¬IsUpload exchange.query :=
  ⟨ends_mixed, deliver_isolates emptySerde _ _ _ _ ends_mixed⟩

end Difflore.Cloud.Observations

import Difflore.Ingest.AgentFileTiers

/-! # Imports with entries that are refused

An import ends at the first entry that validation refuses. The entries behind it are not
remembered, although they would be without it.
-/

namespace Difflore.Ingest.AgentFiles

open Foundation Infra Skills Context

abbrev EntryCall := Option (AgentFileCall × CallClock)

/-- What an import came to: which entries were stored or strengthened, and how it ended. -/
structure ImportRun where
  remembered : List Bool
  error : Option Text
  store : RuleStore

section

variable (library : RememberLibrary) (repo : RepoScope) (options : AgentFileImportOptions)

def rememberEach : List EntryCall → RuleStore → ImportRun
  | [], store => ⟨[], none, store⟩
  | none :: rest, store =>
    let run := rememberEach rest store
    { run with remembered := false :: run.remembered }
  | some (call, clock) :: rest, store =>
    match call.run library repo clock store with
    | .error err => ⟨List.replicate (rest.length + 1) false, some err, store⟩
    | .ok (after, _) =>
      let run := rememberEach rest after
      { run with remembered := true :: run.remembered }

def entryCalls (entries : List AgentFileMemoryEntry) (clock : Nat → CallClock) : List EntryCall :=
  let active := autoActiveReviewRuleIndexes entries options.maxAutoActiveReviewRules
  entries.zipIdx.map fun (entry, idx) =>
    (entryCall options active entry idx).map fun call => (call, clock idx)

def isImported (entry : AgentFileMemoryEntry) : Bool :=
  !(decide (entryKind entry = .reviewRule) && isReferenceOnlyEntry entry)

def isRefused (entry : AgentFileMemoryEntry) : Bool :=
  isImported entry && !((validateRememberInput (entryInput entry)).toOption.isSome &&
    (safeSlug (Text.trim (entryInput entry).title)).isSome)

/-- The import succeeds, and every entry is remembered exactly if it is in an import without the
refused entries. -/
def RefusalsStopNothing (entries : List AgentFileMemoryEntry) (clock other : Nat → CallClock)
    (store : RuleStore) : Prop :=
  let run := rememberEach library repo (entryCalls options entries clock) store
  let accepted := entries.filter (!isRefused ·)
  let without := rememberEach library repo (entryCalls options accepted other) store
  run.error = none ∧
    (entries.zip run.remembered).filter (!isRefused ·.1) = accepted.zip without.remembered ∧
    ∀ pair ∈ entries.zip run.remembered, isRefused pair.1 = true → pair.2 = false

end

def FreshIds (calls : List EntryCall) (store : RuleStore) : Prop :=
  ((calls.filterMap id).map fun call => call.1.newId call.2).Nodup ∧
    ∀ call ∈ calls.filterMap id, call.1.newId call.2 ∉ store.skills.keys

variable {library : RememberLibrary} {repo : RepoScope} {options : AgentFileImportOptions}
  {calls : List EntryCall} {store : RuleStore} {call : AgentFileCall} {clock : CallClock}

theorem accepted_of_not_refused {active : List Nat} {entry : AgentFileMemoryEntry} {idx : Nat}
    (hcall : entryCall options active entry idx = some call) :
    isImported entry = true ∧ isRefused entry = !call.accepted := by
  have himported : isImported entry = true := by
    rw [entryCall] at hcall
    rw [isImported]
    cases hkind : entryKind entry with
    | softPreference => rfl
    | reviewRule =>
      cases hreference : isReferenceOnlyEntry entry with
      | false => rfl
      | true => simp [hkind, hreference] at hcall
  refine ⟨himported, ?_⟩
  rw [isRefused, himported, Bool.true_and, AgentFileCall.accepted, entryCall_input hcall]

theorem isSome_entryCall (active : List Nat) (entry : AgentFileMemoryEntry) (idx : Nat) :
    (entryCall options active entry idx).isSome = isImported entry := by
  rw [entryCall, isImported]
  cases entryKind entry with
  | softPreference => rfl
  | reviewRule =>
    dsimp only
    cases isReferenceOnlyEntry entry with
    | true => rfl
    | false =>
      rw [if_neg Bool.false_ne_true]
      split
      · rfl
      · split <;> rfl

theorem run_keys (hfile : call.FromFile) (haccepted : call.accepted = true)
    (hfresh : call.newId clock ∉ store.skills.keys) :
    ∃ after outcome, call.run library repo clock store = .ok (after, outcome) ∧
      ∀ key ∈ after.skills.keys, key ∈ store.skills.keys ∨ key = call.newId clock := by
  cases hfound : call.found library repo clock store.skills with
  | some rung =>
    obtain ⟨row, reason, windowHit, rfl, hrow, -⟩ := strengthen_of_found hfile hfound
    obtain ⟨after, outcome, hrun, hskills⟩ := run_found hfile haccepted hfound hrow
    refine ⟨after, outcome, hrun, fun key hkey => .inl ?_⟩
    rwa [hskills, strengthenRule, KeyedTable.keys_update] at hkey
  | none =>
    obtain ⟨after, outcome, hrun, -⟩ := run_unfound hfile haccepted hfound hfresh
    refine ⟨after, outcome, hrun, fun key hkey => ?_⟩
    obtain ⟨slug, hslug, hfull⟩ := @run_accepted library repo call hfile haccepted clock store
    rw [hfull, hfound] at hrun
    obtain ⟨hnew, hskills, -⟩ := insertFresh_eq_ok hrun
    obtain ⟨row, hrow, rfl⟩ := KeyedTable.mem_keys.mp hkey
    rw [hskills, rows_rememberRule hnew, List.mem_append, List.mem_singleton] at hrow
    rcases hrow with hold | rfl
    · exact .inl (KeyedTable.mem_keys.mpr ⟨row, hold, rfl⟩)
    · rw [AgentFileCall.newId, hslug, Option.getD_some]
      exact .inr rfl

/-! ## A whole import -/

theorem rememberEach_of_accepted (hfresh : FreshIds calls store)
    (haccepted : ∀ timed ∈ calls.filterMap id, timed.1.FromFile ∧ timed.1.accepted = true) :
    (rememberEach library repo calls store).error = none ∧
      (rememberEach library repo calls store).remembered = calls.map Option.isSome := by
  induction calls generalizing store with
  | nil => exact ⟨rfl, rfl⟩
  | cons entry rest ih =>
    cases entry with
    | none =>
      obtain ⟨herror, hremembered⟩ := ih hfresh haccepted
      exact ⟨herror, congrArg (false :: ·) hremembered⟩
    | some timed =>
      obtain ⟨call, clock⟩ := timed
      have hcons : (some (call, clock) :: rest).filterMap id =
          (call, clock) :: rest.filterMap id := rfl
      obtain ⟨hnodup, hunused⟩ := hfresh
      rw [hcons] at hnodup hunused haccepted
      rw [List.map_cons, List.nodup_cons] at hnodup
      obtain ⟨hfile, hvalid⟩ := haccepted _ (.head _)
      have hnew : call.newId clock ∉ store.skills.keys := hunused (call, clock) (.head _)
      obtain ⟨after, outcome, hrun, hkeys⟩ := run_keys hfile hvalid hnew
      -- A later id is neither among the old ones nor the one just taken.
      have hlater : FreshIds rest after := by
        refine ⟨hnodup.2, fun other hother hkey => ?_⟩
        rcases hkeys _ hkey with hold | hsame
        · exact hunused other (.tail _ hother) hold
        · exact hnodup.1 (hsame ▸ List.mem_map_of_mem hother)
      obtain ⟨herror, hremembered⟩ := ih hlater fun other hother =>
        haccepted other (.tail _ hother)
      rw [rememberEach, hrun]
      exact ⟨herror, congrArg (true :: ·) hremembered⟩

theorem accepted_of_rememberEach (hok : (rememberEach library repo calls store).error = none) :
    ∀ timed ∈ calls.filterMap id, timed.1.accepted = true := by
  induction calls generalizing store with
  | nil => exact fun timed htimed => absurd htimed List.not_mem_nil
  | cons entry rest ih =>
    cases entry with
    | none => exact ih hok
    | some timed =>
      obtain ⟨call, clock⟩ := timed
      rw [rememberEach] at hok
      have hvalid : call.accepted = true := by
        by_contra hrefused
        obtain ⟨err, hrun⟩ := @run_refused library repo call (Bool.not_eq_true _ ▸ hrefused)
          clock store
        rw [hrun] at hok
        contradiction
      cases hrun : call.run library repo clock store with
      | error err =>
        rw [hrun] at hok
        contradiction
      | ok done =>
        rw [hrun] at hok
        exact List.forall_mem_cons.mpr ⟨hvalid, ih hok⟩

theorem mem_entryCalls {entries : List AgentFileMemoryEntry} {clocks : Nat → CallClock}
    {timed : AgentFileCall × CallClock}
    (htimed : timed ∈ (entryCalls options entries clocks).filterMap id) :
    timed.1.FromFile ∧ ∃ entry ∈ entries, isImported entry = true ∧
      isRefused entry = !timed.1.accepted := by
  rw [List.mem_filterMap] at htimed
  obtain ⟨found, hfound, hsome⟩ := htimed
  obtain ⟨⟨entry, idx⟩, hentry, rfl⟩ := List.mem_map.mp hfound
  obtain ⟨call, hcall, rfl⟩ := Option.map_eq_some_iff.mp hsome
  refine ⟨fromFile_of_mem (List.mem_filterMap.mpr ⟨(entry, idx), hentry, hcall⟩), entry, ?_,
    accepted_of_not_refused hcall⟩
  exact (List.mem_zipIdx hentry).2.2 ▸ List.getElem_mem _

theorem map_isSome_entryCalls (entries : List AgentFileMemoryEntry) (clocks : Nat → CallClock) :
    (entryCalls options entries clocks).map Option.isSome = entries.map isImported := by
  have hfst : entries.zipIdx.map (isImported ∘ Prod.fst) = entries.map isImported := by
    rw [← List.map_map, List.zipIdx_map_fst]
  rw [entryCalls, List.map_map, ← hfst]
  apply List.map_congr_left
  intro pair _
  rw [Function.comp_apply, Option.isSome_map, isSome_entryCall, Function.comp_apply]

theorem rememberEach_unrefused {entries : List AgentFileMemoryEntry} {clocks : Nat → CallClock}
    (hfresh : FreshIds (entryCalls options entries clocks) store)
    (hunrefused : ∀ entry ∈ entries, isRefused entry = false) :
    (rememberEach library repo (entryCalls options entries clocks) store).error = none ∧
      (rememberEach library repo (entryCalls options entries clocks) store).remembered =
        entries.map isImported := by
  rw [← map_isSome_entryCalls entries clocks]
  refine rememberEach_of_accepted hfresh fun timed htimed => ?_
  obtain ⟨hfile, entry, hentry, -, hrefused⟩ := mem_entryCalls htimed
  rw [hunrefused entry hentry] at hrefused
  exact ⟨hfile, by simpa using hrefused.symm⟩

/-- Refusals stop nothing exactly when no entry is refused. -/
theorem refusals_stop_nothing_iff {entries : List AgentFileMemoryEntry}
    {clocks other : Nat → CallClock} (hfresh : FreshIds (entryCalls options entries clocks) store)
    (hother : FreshIds (entryCalls options (entries.filter (!isRefused ·)) other) store) :
    RefusalsStopNothing library repo options entries clocks other store ↔
      ∀ entry ∈ entries, isRefused entry = false := by
  constructor
  · rintro ⟨hok, -, -⟩ entry hentry
    by_contra hrefused
    rw [Bool.not_eq_false] at hrefused
    have himported : isImported entry = true := (Bool.and_eq_true_iff.mp hrefused).1
    obtain ⟨idx, hidx⟩ := List.mem_iff_getElem?.mp hentry
    have hpair : (entry, idx) ∈ entries.zipIdx := List.mk_mem_zipIdx_iff_getElem?.mpr hidx
    let active := autoActiveReviewRuleIndexes entries options.maxAutoActiveReviewRules
    rw [← @isSome_entryCall options active entry idx, Option.isSome_iff_exists] at himported
    obtain ⟨call, hcall⟩ := himported
    have hmem : some (call, clocks idx) ∈ entryCalls options entries clocks :=
      List.mem_map.mpr ⟨(entry, idx), hpair, by dsimp only; rw [hcall]; rfl⟩
    have haccepted := accepted_of_rememberEach hok (call, clocks idx)
      (List.mem_filterMap.mpr ⟨_, hmem, rfl⟩)
    rw [(accepted_of_not_refused hcall).2, haccepted] at hrefused
    contradiction
  · intro hunrefused
    have hall : entries.filter (!isRefused ·) = entries :=
      List.filter_eq_self.mpr fun entry hentry => by rw [hunrefused entry hentry]; rfl
    obtain ⟨herror, hremembered⟩ :=
      @rememberEach_unrefused library repo options store _ _ hfresh hunrefused
    rw [hall] at hother
    have hwithout := (@rememberEach_unrefused library repo options store _ _ hother hunrefused).2
    rw [RefusalsStopNothing, hall, hremembered, hwithout]
    have hkept : ∀ pair ∈ entries.zip (entries.map isImported), isRefused pair.1 = false :=
      fun pair hpair => hunrefused _ (List.of_mem_zip hpair).1
    refine ⟨herror, List.filter_eq_self.mpr fun pair hpair => ?_, fun pair hpair hrefused => ?_⟩
    · rw [hkept pair hpair]
      rfl
    · rw [hkept pair hpair] at hrefused
      contradiction

theorem refusals_stop_nothing_mixed :
    RefusalsStopNothing mixedLibrary tabsRepo .default mixedEntries (callClock 'a') (callClock 'b')
      emptyStore := by
  apply (refusals_stop_nothing_iff ?_ ?_).mpr
  · decide
  · exact ⟨by decide, fun call _ => List.not_mem_nil⟩
  · exact ⟨by decide, fun call _ => List.not_mem_nil⟩

def unsluggedEntry : AgentFileMemoryEntry := { tabsEntry with title := "規則" }

/-- The entry behind it is not remembered. -/
theorem refusal_stops_import :
    let entries := [unsluggedEntry, tabsEntry]
    isRefused tabsEntry = false ∧ FreshIds (entryCalls .default entries (callClock 'a')) emptyStore ∧
      ¬ RefusalsStopNothing tabsLibrary tabsRepo .default entries (callClock 'a') (callClock 'b')
        emptyStore := by
  refine ⟨by decide, ⟨by decide, fun call _ => List.not_mem_nil⟩, ?_⟩
  rintro ⟨-, hsame, -⟩
  revert hsame
  decide

end Difflore.Ingest.AgentFiles

import Difflore.Install.HookLaws

/-! # What the merges compute

A merge fails if the hooks or one of the lists it changes are something else, and leaves
under each event the value that is merged from the one it found.
-/

namespace Difflore.Install.Hooks

open Foundation

variable {client : HookClient} {path : Text}

theorem sweepRetired_eq_ok {retired : List Text} {merged after : MergedEvents}
    (hsweep : sweepRetired path retired merged = .ok after) (event : Text) :
    after.events.find event =
      if event ∈ retired then (merged.events.find event).bind (retainedEvent .windsurf)
      else merged.events.find event := by
  induction retired generalizing merged with
  | nil =>
    cases hsweep
    rfl
  | cons first rest ih =>
    unfold sweepRetired at hsweep
    split at hsweep
    next hnone =>
      rw [ih hsweep]
      by_cases hfirst : event = first
      · subst hfirst
        simp [hnone]
      · simp [hfirst]
    next items hitems =>
      rw [ih hsweep]
      by_cases hfirst : event = first
      · -- The event keeps what the first sweep left if the list names it again.
        subst hfirst
        have hassigned : (merged.events.assign event
            (retainedEvent .windsurf (.array items))).find event =
              (merged.events.find event).bind (retainedEvent .windsurf) := by
          rw [OrderedMap.find_assign, if_pos rfl, hitems, Option.bind_some]
        simp only [hassigned, retainedEvent_retainedEvent, List.mem_cons_self, if_true, ite_self]
      · simp only [OrderedMap.find_assign, hfirst, if_false, List.mem_cons, false_or]
    next => contradiction

theorem sweepRetired_isOk {retired : List Text} {merged : MergedEvents} :
    (∃ after, sweepRetired path retired merged = .ok after) ↔
      ∀ event ∈ retired, Listed (merged.events.find event) := by
  induction retired generalizing merged with
  | nil => simp [sweepRetired]
  | cons first rest ih =>
    rw [List.forall_mem_cons]
    unfold sweepRetired
    split
    next hnone =>
      rw [ih, hnone]
      exact ⟨fun hrest => ⟨⟨[], rfl⟩, hrest⟩, And.right⟩
    next items hitems =>
      rw [ih, hitems, and_iff_right (listed_array items)]
      refine forall₂_congr fun event _ => ?_
      rw [OrderedMap.find_assign]
      by_cases hfirst : event = first
      · subst hfirst
        rw [if_pos rfl, hitems, iff_true_right (listed_array items), retainedEvent]
        split
        next => exact ⟨[], rfl⟩
        next => exact listed_array _
      · rw [if_neg hfirst]
    next json hjson hfound =>
      simp only [reduceCtorEq, exists_false, false_iff, not_and]
      rintro ⟨items, hitems⟩
      rw [hfound] at hitems
      exact absurd hitems (hjson items)

def retiredEvents : HookClient → List Text
  | .windsurf => windsurfRetiredHookEvents
  | _ => []

theorem sweepEvents_isOk {events : HookEvents} :
    (∃ swept, sweepEvents path client events = .ok swept) ↔
      ∀ event ∈ retiredEvents client, Listed (events.find event) := by
  cases client with
  | windsurf => exact sweepRetired_isOk
  | _ => simp [sweepEvents, retiredEvents]

theorem sweepEvents_eq_ok {events : HookEvents} {swept : MergedEvents}
    (hsweep : sweepEvents path client events = .ok swept) (event : Text) :
    swept.events.find event = sweptValue client event (events.find event) := by
  cases client with
  | claudeCode =>
    cases hsweep
    exact OrderedMap.find_filterMap ..
  | codex =>
    cases hsweep
    exact OrderedMap.find_filterMap ..
  | cursor =>
    cases hsweep
    rfl
  | geminiCli =>
    cases hsweep
    rfl
  | windsurf => exact sweepRetired_eq_ok hsweep event

/-! ## Registering -/

section

variable {place : Json → List Json → List Json × Bool}

theorem registerEvent_eq_ok {registration : Text × Json} {merged after : MergedEvents}
    (hregister : registerEvent path place registration merged = .ok after) :
    Listed (merged.events.find registration.1) ∧ after.events = merged.events.insert registration.1
        (.array (place registration.2 (itemsOf (merged.events.find registration.1))).1) ∧
      after.changed = merged.changed +
        if (place registration.2 (itemsOf (merged.events.find registration.1))).2 then 1
        else 0 := by
  unfold registerEvent at hregister
  split at hregister
  next items hitems =>
    have hlisted : Listed (merged.events.find registration.1) := ⟨items, hitems⟩
    have hsame : itemsOf (merged.events.find registration.1) = items :=
      Json.array.inj ((getD_of_listed hlisted).symm.trans hitems)
    cases hregister
    rw [hsame]
    exact ⟨hlisted, rfl, rfl⟩
  next => contradiction

theorem registerEvent_isOk {registration : Text × Json} {merged : MergedEvents}
    (hlisted : Listed (merged.events.find registration.1)) :
    ∃ after, registerEvent path place registration merged = .ok after := by
  rw [registerEvent, getD_of_listed hlisted]
  exact ⟨_, rfl⟩

theorem registerEvents_eq_ok {registrations : List (Text × Json)} {merged after : MergedEvents}
    (hnodup : (registrations.map Prod.fst).Nodup)
    (hregister : registerEvents path place registrations merged = .ok after) (event : Text) :
    after.events.find event =
      match registrations.find? fun registration => registration.1 = event with
      | some registration =>
        some (.array (place registration.2 (itemsOf (merged.events.find event))).1)
      | none => merged.events.find event := by
  induction registrations generalizing merged with
  | nil =>
    cases hregister
    rfl
  | cons registration rest ih =>
    rw [List.map_cons, List.nodup_cons] at hnodup
    obtain ⟨hnotin, hrest⟩ := hnodup
    cases hfirst : registerEvent path place registration merged with
    | error err => simp [registerEvents, hfirst, bind, Except.bind] at hregister
    | ok next =>
      simp only [registerEvents, hfirst, bind, Except.bind] at hregister
      obtain ⟨_, hevents, _⟩ := registerEvent_eq_ok hfirst
      rw [ih hrest hregister, hevents, OrderedMap.find_insert]
      by_cases hevent : registration.1 = event
      · subst hevent
        have hnone : rest.find? (fun other => other.1 = registration.1) = none :=
          List.find?_eq_none.mpr fun other hother => by
            simpa using fun heq => hnotin (List.mem_map.mpr ⟨other, hother, heq⟩)
        simp [hnone]
      · simp [hevent, Ne.symm hevent]

theorem registerEvents_isOk {registrations : List (Text × Json)} {merged : MergedEvents}
    (hnodup : (registrations.map Prod.fst).Nodup) :
    (∃ after, registerEvents path place registrations merged = .ok after) ↔
      ∀ registration ∈ registrations, Listed (merged.events.find registration.1) := by
  induction registrations generalizing merged with
  | nil => simp [registerEvents]
  | cons registration rest ih =>
    rw [List.map_cons, List.nodup_cons] at hnodup
    obtain ⟨hnotin, hrest⟩ := hnodup
    rw [List.forall_mem_cons]
    cases hfirst : registerEvent path place registration merged with
    | error err =>
      simp only [registerEvents, hfirst, bind, Except.bind, reduceCtorEq, exists_false,
        false_iff, not_and]
      intro hlisted
      obtain ⟨after, hafter⟩ := @registerEvent_isOk path place _ _ hlisted
      simp [hfirst] at hafter
    | ok next =>
      obtain ⟨hlisted, hevents, _⟩ := registerEvent_eq_ok hfirst
      simp only [registerEvents, hfirst, bind, Except.bind]
      rw [ih hrest, and_iff_right hlisted]
      refine forall₂_congr fun other hother => ?_
      have hne : other.1 ≠ registration.1 := fun heq =>
        hnotin (List.mem_map.mpr ⟨other, hother, heq⟩)
      rw [hevents, OrderedMap.find_insert, if_neg hne]

theorem registerEvents_changed {registrations : List (Text × Json)} {merged after : MergedEvents}
    (hnodup : (registrations.map Prod.fst).Nodup)
    (hregister : registerEvents path place registrations merged = .ok after) :
    merged.changed ≤ after.changed ∧ (after.changed = merged.changed →
      ∀ registration ∈ registrations,
        (place registration.2 (itemsOf (merged.events.find registration.1))).2 = false) := by
  induction registrations generalizing merged with
  | nil =>
    cases hregister
    exact ⟨Nat.le_refl _, by simp⟩
  | cons registration rest ih =>
    rw [List.map_cons, List.nodup_cons] at hnodup
    obtain ⟨hnotin, hrest⟩ := hnodup
    cases hfirst : registerEvent path place registration merged with
    | error err => simp [registerEvents, hfirst, bind, Except.bind] at hregister
    | ok next =>
      simp only [registerEvents, hfirst, bind, Except.bind] at hregister
      obtain ⟨_, hevents, hchanged⟩ := registerEvent_eq_ok hfirst
      obtain ⟨hle, hsame⟩ := ih hrest hregister
      refine ⟨by omega, fun hequal => ?_⟩
      rw [List.forall_mem_cons]
      have hnone : ¬ (place registration.2
          (itemsOf (merged.events.find registration.1))).2 = true := by
        intro htrue
        rw [if_pos htrue] at hchanged
        omega
      rw [if_neg hnone] at hchanged
      refine ⟨Bool.not_eq_true _ ▸ hnone, fun other hother => ?_⟩
      have hne : other.1 ≠ registration.1 := fun heq =>
        hnotin (List.mem_map.mpr ⟨other, hother, heq⟩)
      have hother := hsame (by omega) other hother
      rwa [hevents, OrderedMap.find_insert, if_neg hne] at hother

end

/-! ## Merging -/

def HookConfig.events (cfg : HookConfig) : HookEvents :=
  match cfg.hooks with
  | some (.object events) => events
  | _ => .empty

/-- The hooks are missing or an object, and so is each list a client merges or sweeps. -/
structure Mergeable (client : HookClient) (cfg : HookConfig) : Prop where
  object : ∀ value, cfg.hooks ≠ some (.other value)
  registered : ∀ command, ∀ registration ∈ registrations client command,
    Listed (cfg.events.find registration.1)
  retired : ∀ event ∈ retiredEvents client, Listed (cfg.events.find event)

theorem hooks_withVersion (client : HookClient) (cfg : HookConfig) :
    (withVersion client cfg).hooks = cfg.hooks := by
  unfold withVersion
  split <;> rfl

theorem hooksObject_eq_ok {cfg : HookConfig} {events : HookEvents} :
    hooksObject path cfg = .ok events ↔
      (∀ value, cfg.hooks ≠ some (.other value)) ∧ cfg.events = events := by
  unfold hooksObject HookConfig.events
  rcases cfg.hooks with _ | _ | _
  · simp
  · simp
  · simp

theorem events_registered (client : HookClient) (command other : Text) :
    (registrations client command).map Prod.fst = (registrations client other).map Prod.fst := by
  cases client <;> simp only [registrations, List.map_map, Function.comp_def]

theorem mergeable_iff {cfg : HookConfig} {command : Text} :
    Mergeable client cfg ↔ (∀ value, cfg.hooks ≠ some (.other value)) ∧
      (∀ event ∈ retiredEvents client, Listed (cfg.events.find event)) ∧
      ∀ registration ∈ registrations client command, Listed (cfg.events.find registration.1) := by
  constructor
  · intro hmergeable
    exact ⟨hmergeable.object, hmergeable.retired, hmergeable.registered command⟩
  · rintro ⟨hobject, hretired, hregistered⟩
    refine ⟨hobject, fun other registration hregistration => ?_, hretired⟩
    have hevent := List.mem_map_of_mem (f := Prod.fst) hregistration
    rw [events_registered client other command] at hevent
    obtain ⟨same, hsame, hevent⟩ := List.mem_map.mp hevent
    exact hevent ▸ hregistered same hsame

theorem listed_sweptValue {event : Text} {value : Option Json} :
    Listed (sweptValue client event value) ↔ Listed value := by
  rcases sweptValue_cases client event value with hsame | hswept
  · rw [hsame]
  · rw [hswept]
    rcases value with _ | json
    · rfl
    · cases json with
      | array items =>
        rw [Option.bind_some, retainedEvent, iff_true_right (listed_array items)]
        split
        next => exact ⟨[], rfl⟩
        next => exact listed_array _
      | _ => rfl

variable {windows : Bool} {bin : Text}

theorem mergeEvents_isOk {events : HookEvents} :
    (∃ merged, mergeEvents windows path client bin events = .ok merged) ↔
      (∀ event ∈ retiredEvents client, Listed (events.find event)) ∧
        ∀ registration ∈ registrations client (hookCommandString windows bin client),
          Listed (events.find registration.1) := by
  rw [← @sweepEvents_isOk client path]
  cases hsweep : sweepEvents path client events with
  | error err => simp [mergeEvents, hsweep, bind, Except.bind]
  | ok swept =>
    have hfind : ∀ event, Listed (swept.events.find event) ↔ Listed (events.find event) := by
      intro event
      rw [sweepEvents_eq_ok hsweep, listed_sweptValue]
    simp only [mergeEvents, hsweep, bind, Except.bind, Except.ok.injEq, exists_eq', true_and,
      registerEvents_isOk (registrations_nodup client _), hfind]

theorem mergeEvents_eq_ok {events : HookEvents} {merged : MergedEvents}
    (hmerge : mergeEvents windows path client bin events = .ok merged) (event : Text) :
    merged.events.find event =
      mergedValue client (hookCommandString windows bin client) event (events.find event) := by
  cases hsweep : sweepEvents path client events with
  | error err => simp [mergeEvents, hsweep, bind, Except.bind] at hmerge
  | ok swept =>
    simp only [mergeEvents, hsweep, bind, Except.bind] at hmerge
    rw [registerEvents_eq_ok (registrations_nodup client _) hmerge, sweepEvents_eq_ok hsweep]
    rfl

theorem mergeConfig_isOk {cfg : HookConfig} :
    (∃ merged, mergeConfig windows path client bin cfg = .ok merged) ↔ Mergeable client cfg := by
  rw [@mergeable_iff client cfg (hookCommandString windows bin client)]
  cases hobject : hooksObject path (withVersion client cfg) with
  | error err =>
    have hother : ¬ ∀ value, cfg.hooks ≠ some (.other value) := by
      intro hnone
      rw [← hooks_withVersion client] at hnone
      have hok := (@hooksObject_eq_ok path _ _).mpr ⟨hnone, rfl⟩
      simp [hobject] at hok
    simp [mergeConfig, hobject, bind, Except.bind, hother]
  | ok events =>
    obtain ⟨hnone, rfl⟩ := hooksObject_eq_ok.mp hobject
    rw [hooks_withVersion] at hnone
    have hevents : (withVersion client cfg).events = cfg.events := by
      simp only [HookConfig.events, hooks_withVersion]
    rw [hevents] at hobject
    rw [and_iff_right hnone, ← @mergeEvents_isOk client path]
    simp only [mergeConfig, hobject, bind, Except.bind, pure, Except.pure]
    cases mergeEvents windows path client bin cfg.events <;> simp

theorem mergeConfig_eq_ok {cfg merged : HookConfig} {changed : Nat}
    (hmerge : mergeConfig windows path client bin cfg = .ok (merged, changed)) :
    merged.hooks = some (.object merged.events) ∧ merged.others = (withVersion client cfg).others ∧
      ∀ event, merged.events.find event =
        mergedValue client (hookCommandString windows bin client) event
          (cfg.events.find event) := by
  cases hobject : hooksObject path (withVersion client cfg) with
  | error err => simp [mergeConfig, hobject, bind, Except.bind] at hmerge
  | ok events =>
    have hevents : cfg.events = events := by
      rw [← (hooksObject_eq_ok.mp hobject).2]
      simp only [HookConfig.events, hooks_withVersion]
    cases hevent : mergeEvents windows path client bin events with
    | error err => simp [mergeConfig, hobject, hevent, bind, Except.bind] at hmerge
    | ok result =>
      simp only [mergeConfig, hobject, hevent, bind, Except.bind, pure, Except.pure,
        Except.ok.injEq, Prod.mk.injEq] at hmerge
      obtain ⟨rfl, _⟩ := hmerge
      refine ⟨rfl, rfl, fun event => ?_⟩
      rw [hevents]
      exact mergeEvents_eq_ok hevent event

end Difflore.Install.Hooks

import Difflore.Install.HookRuns

/-! # What users keep of their hooks

A merge keeps the groups that have no hook of DiffLore's, and so does a removal. A group
that has one is replaced as a whole, with the hooks of the user in it.
-/

namespace Difflore.Install.Hooks

open Foundation

variable {client : HookClient} {windows : Bool} {path bin : Text}

variable {context : ContextFile} {value : Option Json} {event : Text}

def writeContext : HookClient → ContextFile → Except Text ContextFile
  | .geminiCli => upsertGeminiMdContext
  | .windsurf => writeWindsurfContextFile
  | _ => .ok

theorem sweepClaudeCode_unchanged {events : HookEvents}
    (hsame : (sweepClaudeCode events).changed = 0) (event : Text) :
    sweptValue .claudeCode event (events.find event) = events.find event := by
  cases hfind : events.find event with
  | none => rfl
  | some json =>
    have hentry := OrderedMap.find_eq_some.mp hfind
    have hnone := List.countP_eq_zero.mp hsame (event, json) hentry
    rw [sweptValue, Option.bind_some, retiredClaudeEvent, if_pos]
    cases hregistered : claudeCodeEventIsRegistered event <;>
      cases hhas : eventHasDifflore .claudeCode json <;> simp_all

theorem some_itemsOf (hne : itemsOf value ≠ []) : value = some (.array (itemsOf value)) := by
  rcases value with _ | json
  · exact absurd rfl hne
  · cases json with
    | array items => rfl
    | _ => exact absurd rfl hne

theorem mergeConfig_claudeCode_unchanged {cfg merged : HookConfig}
    (hmerge : mergeConfig windows path .claudeCode bin cfg = .ok (merged, 0)) :
    merged = cfg ∧ ∃ events, cfg.hooks = some (.object events) := by
  obtain ⟨hhooks, hothers, hfind⟩ := mergeConfig_eq_ok hmerge
  cases hobject : hooksObject path (withVersion .claudeCode cfg) with
  | error err => simp [mergeConfig, hobject, bind, Except.bind] at hmerge
  | ok events =>
    have hevents : cfg.events = events := (hooksObject_eq_ok.mp hobject).2
    cases hevent : mergeEvents windows path .claudeCode bin events with
    | error err => simp [mergeConfig, hobject, hevent, bind, Except.bind] at hmerge
    | ok result =>
      simp only [mergeConfig, hobject, hevent, bind, Except.bind, pure, Except.pure,
        Except.ok.injEq, Prod.mk.injEq] at hmerge
      obtain ⟨_, hchanged⟩ := hmerge
      have hregister : registerEvents path (placeDesired .claudeCode) (registrations .claudeCode
          (hookCommandString windows bin .claudeCode)) (sweepClaudeCode events) =
            .ok result := hevent
      obtain ⟨hle, hflags⟩ := registerEvents_changed (registrations_nodup _ _) hregister
      have hswept := @sweepClaudeCode_unchanged events (by omega)
      have hplaced : ∀ registration ∈ registrations .claudeCode
          (hookCommandString windows bin .claudeCode),
          (placeDesired .claudeCode registration.2
            (itemsOf (events.find registration.1))).1 = itemsOf (events.find registration.1) ∧
            itemsOf (events.find registration.1) ≠ [] := by
        intro registration hregistration
        have hflag := hflags (by omega) registration hregistration
        rw [@sweepEvents_eq_ok .claudeCode path _ _ rfl, hswept] at hflag
        exact placeDesired_claudeCode_unchanged (registered_isDifflore hregistration).1 hflag
      have hsame : merged.events = cfg.events := by
        refine OrderedMap.ext_find fun event => ?_
        rw [hfind, hevents]
        rcases mergedValue_cases .claudeCode windows bin event with
          ⟨registration, hmem, rfl⟩ | hother
        · obtain ⟨hitems, hne⟩ := hplaced registration hmem
          rw [mergedValue_of_registration hmem, hswept, hitems]
          exact (some_itemsOf hne).symm
        · rw [hother, hswept]
      have hpresent : ∃ events, cfg.hooks = some (.object events) := by
        obtain ⟨_, hne⟩ := hplaced _ (.head _)
        rw [← hevents, HookConfig.events] at hne
        split at hne
        next events hobject => exact ⟨events, hobject⟩
        next => exact absurd rfl hne
      obtain ⟨object, hobject⟩ := hpresent
      have hown : cfg.events = object := by rw [HookConfig.events, hobject]
      have hsameHooks : merged.hooks = cfg.hooks := by rw [hhooks, hsame, hown, hobject]
      exact ⟨HookConfig.ext hsameHooks hothers, object, hobject⟩

theorem mergeHooks_eq (client : HookClient) (windows : Bool) (path bin : Text) (disk : HookDisk) :
    mergeHooks windows path client bin disk =
      match (loadJsonObject disk.hooks).bind (mergeConfig windows path client bin) with
      | .error err => (disk, .error err)
      | .ok (cfg, _) =>
        match writeContext client disk.context with
        | .error err => (⟨.config cfg, disk.context⟩, .error err)
        | .ok context => (⟨.config cfg, context⟩, .ok ()) := by
  cases client with
  | claudeCode =>
    simp only [mergeHooks, mergeClaudeCodeHooks]
    cases hmerge : (loadJsonObject disk.hooks).bind
        (mergeConfig windows path .claudeCode bin) with
    | error err => rfl
    | ok result =>
      obtain ⟨cfg, changed⟩ := result
      cases changed with
      | succ changed => rfl
      | zero =>
        -- Nothing is written, and the file has the merged configuration already.
        obtain ⟨hooks, context⟩ := disk
        cases hooks with
        | missing =>
          obtain ⟨_, _, hpresent⟩ := mergeConfig_claudeCode_unchanged hmerge
          contradiction
        | broken err => contradiction
        | config found =>
          obtain ⟨rfl, _⟩ := mergeConfig_claudeCode_unchanged hmerge
          rfl
  | _ =>
    simp only [mergeHooks, mergeCodexHooks, mergeCursorHooks, mergeGeminiCliHooks,
      mergeWindsurfHooks, mergeJsonHooks, Bool.false_eq_true, if_false, writeContext]
    cases (loadJsonObject disk.hooks).bind _ with
    | error err => rfl
    | ok result =>
      simp only
      first
      | rfl
      | cases upsertGeminiMdContext disk.context <;> rfl
      | cases writeWindsurfContextFile disk.context <;> rfl

/-! ## What is the user's -/

def nestsHooks : HookClient → Bool
  | .cursor | .windsurf => false
  | .claudeCode | .codex | .geminiCli => true

def withHooks (hooks : List Json) : Json → Json
  | .object members => .object (members.map fun member =>
    if member.1 = hooksKey then (member.1, .array hooks) else member)
  | value => value

/-- The user's part of an entry: a group without DiffLore's hooks, and nothing of a group
that has no other ones. -/
def userEntry (client : HookClient) (value : Json) : Option Json :=
  if hookValueIsDifflore client value then
    let rest := (groupHooks value).filter fun hook => !isDiffloreHook client hook
    if nestsHooks client && rest ≠ [] then some (withHooks rest value) else none
  else some value

def userEntries (client : HookClient) (items : List Json) : List Json :=
  items.filterMap (userEntry client)

def isMixed (client : HookClient) (value : Json) : Bool :=
  nestsHooks client && hookValueIsDifflore client value &&
    (groupHooks value).any fun hook => !isDiffloreHook client hook

theorem userEntry_of_not_mixed {value : Json} (hmixed : isMixed client value = false) :
    userEntry client value = if hookValueIsDifflore client value then none else some value := by
  unfold userEntry
  split
  next hown =>
    cases hnests : nestsHooks client with
    | false => rfl
    | true =>
      have hnone : ((groupHooks value).filter fun hook => !isDiffloreHook client hook) = [] := by
        rw [List.filter_eq_nil_iff]
        intro hook hhook hother
        simp only [isMixed, hnests, hown, Bool.true_and, List.any_eq_false] at hmixed
        exact hmixed hook hhook hother
      simp [hnone]
  next => rfl

theorem userEntries_eq_retainOthers {items : List Json} :
    userEntries client items = retainOthers client items ↔
      ∀ value ∈ items, isMixed client value = false := by
  constructor
  · intro heq
    have hlength : ∀ items : List Json, (userEntries client items).length =
        (retainOthers client items).length + items.countP (isMixed client) := by
      intro items
      induction items with
      | nil => rfl
      | cons value rest ih =>
        simp only [userEntries, retainOthers, List.filterMap_cons, List.filter_cons,
          List.countP_cons] at ih ⊢
        cases hmixed : isMixed client value with
        | false =>
          rw [userEntry_of_not_mixed hmixed]
          cases hown : hookValueIsDifflore client value <;> simp [ih]
          omega
        | true =>
          simp only [isMixed, Bool.and_eq_true, List.any_eq_true] at hmixed
          obtain ⟨⟨hnests, hown⟩, hook, hhook, hother⟩ := hmixed
          have hsome : ((groupHooks value).filter fun hook =>
              !isDiffloreHook client hook) ≠ [] :=
            List.ne_nil_of_mem (List.mem_filter.mpr ⟨hhook, hother⟩)
          simp [userEntry, hown, hnests, hsome, ih]
          omega
    have hcount := hlength items
    rw [heq] at hcount
    have hzero : items.countP (isMixed client) = 0 := by omega
    intro value hvalue
    simpa using List.countP_eq_zero.mp hzero value hvalue
  · intro hmixed
    rw [userEntries, retainOthers, ← List.filterMap_eq_filter]
    refine List.filterMap_congr fun value hvalue => ?_
    rw [userEntry_of_not_mixed (hmixed value hvalue), Option.guard]
    cases hookValueIsDifflore client value <;> rfl

def hookItems (cfg : HookConfig) (event : Text) : List Json := itemsOf (cfg.events.find event)

/-- The user's entries stay under their events in their order, next to one of DiffLore's
under each event that is registered. -/
structure HooksKept (client : HookClient) (before after : HookConfig) : Prop where
  users : ∀ event, userEntries client (hookItems after event) =
    userEntries client (hookItems before event)
  values : ∀ event json, json.asArray = none →
    (after.events.find event = some json ↔ before.events.find event = some json)
  once : ∀ command, ∀ registration ∈ registrations client command,
    (hookItems after registration.1).countP (hookValueIsDifflore client) = 1

/-- The configuration is as before, up to empty lists, an empty object of hooks and the
version of Cursor's file. -/
structure Restores (client : HookClient) (before cleared : HookConfig) : Prop where
  items : ∀ event, hookItems cleared event = userEntries client (hookItems before event)
  values : ∀ event json, json.asArray = none →
    (cleared.events.find event = some json ↔ before.events.find event = some json)
  object : ∀ value, cleared.hooks ≠ some (.other value)
  others : ∀ key, cleared.others.find key = before.others.find key ∨
    client = .cursor ∧ key = versionKey ∧ before.others.find key = none

/-- A merge fails and leaves the file, or keeps the user's hooks; then a second one changes
nothing, and a removal restores the user's configuration. -/
def KeepsUserHooks (client : HookClient) (windows : Bool) (path bin : Text) (disk : HookDisk) :
    Prop :=
  match mergeHooks windows path client bin disk with
  | (after, .error _) => after.hooks = disk.hooks
  | (after, .ok _) => ∃ before merged, loadJsonObject disk.hooks = .ok before ∧
      after.hooks = .config merged ∧ HooksKept client before merged ∧
      mergeHooks windows path client bin after = (after, .ok ()) ∧
      ∃ cleared removed, removeHooks client after =
        (⟨.config cleared, after.context⟩, .ok removed) ∧ Restores client before cleared

def ContextUsable : HookClient → ContextFile → Prop
  | .geminiCli, .unreadable _ => False
  | .geminiCli, .uncreatable _ => False
  | .geminiCli, .readOnly content _ => geminiContextTag <:+: content
  | .windsurf, .uncreatable _ => False
  | _, _ => True

structure Settled (client : HookClient) (command : Text) (cfg : HookConfig) : Prop where
  object : ∃ events, cfg.hooks = some (.object events)
  registered : ∀ registration ∈ registrations client command, ∃ users,
    (∀ value ∈ users, hookValueIsDifflore client value = false) ∧
    cfg.events.find registration.1 = some (.array (users ++ [registration.2]))
  retired : ∀ event ∈ retiredEvents client, ∀ items, cfg.events.find event = some (.array items) →
    items ≠ [] ∧ ∀ value ∈ items, hookValueIsDifflore client value = false

/-- No group of the file is mixed; and if the file of context cannot be written, the hooks
are settled already. -/
def MergeSafe (client : HookClient) (windows : Bool) (bin : Text) (disk : HookDisk) : Prop :=
  ∀ cfg, loadJsonObject disk.hooks = .ok cfg → Mergeable client cfg →
    (ContextUsable client disk.context → ∀ event, ∀ value ∈ hookItems cfg event,
      isMixed client value = false) ∧
    (¬ ContextUsable client disk.context → disk.hooks = .config cfg ∧
      Settled client (hookCommandString windows bin client) cfg)

theorem writeContext_isOk :
    (∃ written, writeContext client context = .ok written) ↔ ContextUsable client context := by
  cases client with
  | geminiCli =>
    cases context with
    | text content =>
      simp only [writeContext, upsertGeminiMdContext, ContextUsable, iff_true]
      split
      next => exact ⟨_, rfl⟩
      next => exact ⟨_, rfl⟩
    | readOnly content err =>
      simp only [writeContext, upsertGeminiMdContext, ContextUsable]
      split
      next htag => exact iff_of_true ⟨_, rfl⟩ htag
      next htag => exact iff_of_false (fun ⟨_, herror⟩ => by contradiction) htag
    | _ => simp [writeContext, upsertGeminiMdContext, ContextUsable]
  | windsurf => cases context <;> simp [writeContext, writeWindsurfContextFile, ContextUsable]
  | _ => simp [writeContext, ContextUsable]

theorem tag_infix_geminiPlaceholder : geminiContextTag <:+: geminiPlaceholder := by decide

theorem writeContext_writeContext {written : ContextFile}
    (hwrite : writeContext client context = .ok written) :
    writeContext client written = .ok written := by
  cases client with
  | geminiCli =>
    cases context with
    | absent =>
      cases hwrite
      simp [writeContext, upsertGeminiMdContext, tag_infix_geminiPlaceholder]
    | text content =>
      simp only [writeContext, upsertGeminiMdContext] at hwrite
      split at hwrite
      next htag =>
        cases hwrite
        exact if_pos htag
      next =>
        cases hwrite
        have hplaceholder := tag_infix_geminiPlaceholder.trans
          (List.suffix_cons '\n' geminiPlaceholder).isInfix
        exact if_pos (hplaceholder.trans (List.suffix_append_of_suffix
          (List.suffix_append _ _)).isInfix)
    | readOnly content err =>
      simp only [writeContext, upsertGeminiMdContext] at hwrite
      split at hwrite
      next htag =>
        cases hwrite
        exact if_pos htag
      next => contradiction
    | unreadable err => contradiction
    | uncreatable err => contradiction
  | windsurf =>
    cases context with
    | uncreatable err => contradiction
    | _ =>
      cases hwrite
      rfl
  | _ => rfl

/-! ## The events of a merged file -/

section

variable {cfg merged : HookConfig} {changed : Nat}

theorem listed_mergedValue (hlisted : Listed value) :
    Listed (mergedValue client (hookCommandString windows bin client) event value) := by
  rcases mergedValue_cases client windows bin event with ⟨registration, hmem, rfl⟩ | hswept
  · rw [mergedValue_of_registration hmem]
    exact listed_array _
  · rw [hswept]
    exact listed_sweptValue.mpr hlisted

theorem mergedValue_eq_other (hmergeable : Mergeable client cfg) {json : Json}
    (hother : json.asArray = none) :
    mergedValue client (hookCommandString windows bin client) event (cfg.events.find event) =
      some json ↔ cfg.events.find event = some json := by
  rcases mergedValue_cases client windows bin event with ⟨registration, hmem, rfl⟩ | hswept
  · -- A registered event holds a list before and after.
    have hnone : ∀ value, Listed value → value ≠ some json := by
      rintro value ⟨items, hitems⟩ rfl
      rw [Option.getD_some] at hitems
      simp [hitems, Json.asArray] at hother
    have hbefore := hmergeable.registered _ registration hmem
    exact iff_of_false (hnone _ (listed_mergedValue hbefore)) (hnone _ hbefore)
  · rw [hswept]
    exact sweptValue_eq_other hother

theorem isMixed_mergedValue (hmixed : ∀ item ∈ itemsOf value, isMixed client item = false) :
    ∀ item ∈ itemsOf (mergedValue client (hookCommandString windows bin client) event value),
      isMixed client item = false := by
  intro item hitem
  cases hown : hookValueIsDifflore client item with
  | false => simp [isMixed, hown]
  | true =>
    rcases mergedValue_cases client windows bin event with ⟨registration, hmem, rfl⟩ | hswept
    · obtain ⟨hdesired, hhooks⟩ := registered_isDifflore hmem
      rw [mergedValue_of_registration hmem] at hitem
      rw [(placedIn_sweptValue hdesired _ value).own item hitem hown]
      simp only [isMixed, Bool.and_eq_false_iff, List.any_eq_false]
      exact .inr fun hook hhook => by simp [hhooks hook hhook]
    · rw [hswept] at hitem
      rcases sweptValue_cases client event value with hsame | hretained
      · exact hmixed item (hsame ▸ hitem)
      · rw [hretained, itemsOf_retainedEvent] at hitem
        exact hmixed item (mem_retainOthers.mp hitem).1

theorem hooksKept_of_merge (hmergeable : Mergeable client cfg)
    (hmerge : mergeConfig windows path client bin cfg = .ok (merged, changed))
    (hmixed : ∀ event, ∀ value ∈ hookItems cfg event, isMixed client value = false) :
    HooksKept client cfg merged := by
  obtain ⟨_, _, hfind⟩ := mergeConfig_eq_ok hmerge
  constructor
  · intro event
    have hafter : ∀ value ∈ hookItems merged event, isMixed client value = false := by
      rw [hookItems, hfind]
      exact isMixed_mergedValue (hmixed event)
    rw [userEntries_eq_retainOthers.mpr hafter, userEntries_eq_retainOthers.mpr (hmixed event),
      hookItems, hfind, retainOthers_mergedValue, hookItems]
  · intro event json hother
    rw [hfind, mergedValue_eq_other hmergeable hother]
  · intro command registration hregistration
    have hevent := List.mem_map_of_mem (f := Prod.fst) hregistration
    rw [events_registered client command (hookCommandString windows bin client)] at hevent
    obtain ⟨same, hsame, hevent⟩ := List.mem_map.mp hevent
    rw [← hevent, hookItems, hfind, mergedValue_of_registration hsame]
    exact (placedIn_sweptValue (registered_isDifflore hsame).1 same.1 _).once

theorem others_withVersion (client : HookClient) (cfg : HookConfig) (key : Text) :
    (withVersion client cfg).others.find key = cfg.others.find key ∨
      client = .cursor ∧ key = versionKey ∧ cfg.others.find key = none := by
  unfold withVersion
  split
  next hversion =>
    simp only [Bool.and_eq_true, decide_eq_true_eq] at hversion
    simp only [OrderedMap.find_insert]
    split
    next hkey => exact .inr ⟨hversion.1, hkey, hkey ▸ hversion.2⟩
    next => exact .inl rfl
  next => exact .inl rfl

theorem withVersion_of_others (hothers : merged.others = (withVersion client cfg).others) :
    (withVersion client merged).others = merged.others := by
  by_cases hclient : client = .cursor
  · have hversion : merged.others.find versionKey ≠ none := by
      rw [hothers, withVersion]
      by_cases hnone : cfg.others.find versionKey = none
      · simp [hclient, hnone, OrderedMap.find_insert]
      · simp [hnone]
    simp [withVersion, hversion]
  · simp [withVersion, hclient]

theorem mergeable_of_merge (hmergeable : Mergeable client cfg)
    (hmerge : mergeConfig windows path client bin cfg = .ok (merged, changed)) :
    Mergeable client merged := by
  obtain ⟨hhooks, _, hfind⟩ := mergeConfig_eq_ok hmerge
  refine ⟨fun value hother => ?_, fun command registration hregistration => ?_,
    fun event hevent => ?_⟩
  · rw [hhooks] at hother
    cases hother
  · rw [hfind]
    exact listed_mergedValue (hmergeable.registered command registration hregistration)
  · rw [hfind]
    exact listed_mergedValue (hmergeable.retired event hevent)

theorem mergeConfig_mergeConfig (hmergeable : Mergeable client cfg)
    (hmerge : mergeConfig windows path client bin cfg = .ok (merged, changed)) :
    ∃ again, mergeConfig windows path client bin merged = .ok (merged, again) := by
  obtain ⟨hhooks, hothers, hfind⟩ := mergeConfig_eq_ok hmerge
  obtain ⟨⟨twice, again⟩, htwice⟩ :=
    (@mergeConfig_isOk client path windows bin merged).mpr (mergeable_of_merge hmergeable hmerge)
  obtain ⟨hhooksTwice, hothersTwice, hfindTwice⟩ := mergeConfig_eq_ok htwice
  have hevents : twice.events = merged.events := OrderedMap.ext_find fun event => by
    rw [hfindTwice, hfind, mergedValue_mergedValue]
  have hsame : twice = merged := by
    refine HookConfig.ext ?_ ?_
    · rw [hhooksTwice, hevents, hhooks]
    · rw [hothersTwice, withVersion_of_others hothers]
  exact ⟨again, hsame ▸ htwice⟩

end

/-! ## Removing -/

theorem removeDiffloreHookEntries_eq {cfg : HookConfig} {drop : Bool}
    (hobject : cfg.hooks = some (.object cfg.events))
    (hchanged : 0 < (sweepAll client cfg.events).changed) :
    ∃ cleared removed, removeDiffloreHookEntries client drop false ⟨.config cfg, context⟩ =
        (⟨.config cleared, context⟩, .ok removed) ∧
      (∀ event, cleared.events.find event = (cfg.events.find event).bind (retainedEvent client)) ∧
      (∀ value, cleared.hooks ≠ some (.other value)) ∧ cleared.others = cfg.others := by
  have hfind : ∀ event, (sweepAll client cfg.events).events.find event =
      (cfg.events.find event).bind (retainedEvent client) := fun event =>
    OrderedMap.find_filterMap ..
  simp only [removeDiffloreHookEntries, hobject, hchanged, decide_true, Bool.not_false,
    Bool.and_self, if_true]
  refine ⟨_, _, rfl, ?_, ?_, rfl⟩
  · intro event
    rw [← hfind, HookConfig.events]
    split
    next events hevents =>
      split at hevents
      next => contradiction
      next =>
        cases hevents
        rfl
    next hnone =>
      split at hnone
      next hempty =>
        simp only [Bool.and_eq_true, List.isEmpty_iff] at hempty
        simp [OrderedMap.find, OrderedMap.empty, hempty.2]
      next => exact absurd rfl (hnone _)
  · intro value hother
    split at hother <;> cases hother

theorem removeHooks_eq (client : HookClient) (disk : HookDisk) :
    ∃ drop, removeHooks client disk = removeDiffloreHookEntries client drop false disk := by
  cases client with
  | claudeCode => exact ⟨true, rfl⟩
  | codex => exact ⟨true, rfl⟩
  | cursor => exact ⟨false, rfl⟩
  | geminiCli => exact ⟨false, rfl⟩
  | windsurf => exact ⟨false, rfl⟩

theorem registrations_ne_nil (client : HookClient) (command : Text) :
    registrations client command ≠ [] := by
  cases client <;> exact List.cons_ne_nil _ _

section

variable {cfg merged : HookConfig} {changed : Nat}

theorem removeHooks_of_merge (context : ContextFile)
    (hmerge : mergeConfig windows path client bin cfg = .ok (merged, changed)) :
    ∃ cleared removed, removeHooks client ⟨.config merged, context⟩ =
        (⟨.config cleared, context⟩, .ok removed) ∧
      (∀ event, cleared.events.find event =
        (merged.events.find event).bind (retainedEvent client)) ∧
      (∀ value, cleared.hooks ≠ some (.other value)) ∧ cleared.others = merged.others := by
  obtain ⟨hhooks, _, hfind⟩ := mergeConfig_eq_ok hmerge
  obtain ⟨drop, hremove⟩ := removeHooks_eq client ⟨.config merged, context⟩
  obtain ⟨registration, hmem⟩ := List.exists_mem_of_ne_nil _
    (registrations_ne_nil client (hookCommandString windows bin client))
  have hplaced := placedIn_sweptValue (registered_isDifflore hmem).1 registration.1
    (cfg.events.find registration.1)
  have hentry := hfind registration.1
  rw [mergedValue_of_registration hmem] at hentry
  have hchanged : 0 < (sweepAll client merged.events).changed := by
    refine List.countP_pos_iff.mpr ⟨_, OrderedMap.find_eq_some.mp hentry, ?_⟩
    have hone : 0 < (placeDesired client registration.2 (itemsOf (sweptValue client
        registration.1 (cfg.events.find registration.1)))).1.countP
          (hookValueIsDifflore client) := by
      rw [hplaced.once]
      exact Nat.one_pos
    exact List.any_eq_true.mpr (List.countP_pos_iff.mp hone)
  rw [hremove]
  exact removeDiffloreHookEntries_eq hhooks hchanged

theorem hookItems_of_remove {cleared : HookConfig}
    (hmerge : mergeConfig windows path client bin cfg = .ok (merged, changed))
    (hcleared : ∀ event, cleared.events.find event =
      (merged.events.find event).bind (retainedEvent client)) (event : Text) :
    hookItems cleared event = retainOthers client (hookItems cfg event) := by
  obtain ⟨_, _, hfind⟩ := mergeConfig_eq_ok hmerge
  rw [hookItems, hcleared, itemsOf_retainedEvent, hfind, retainOthers_mergedValue, hookItems]

theorem restores_of_merge (hmergeable : Mergeable client cfg) (context : ContextFile)
    (hmerge : mergeConfig windows path client bin cfg = .ok (merged, changed))
    (hmixed : ∀ event, ∀ value ∈ hookItems cfg event, isMixed client value = false) :
    ∃ cleared removed, removeHooks client ⟨.config merged, context⟩ =
      (⟨.config cleared, context⟩, .ok removed) ∧ Restores client cfg cleared := by
  obtain ⟨cleared, removed, hremove, hcleared, hobject, hothers⟩ :=
    removeHooks_of_merge context hmerge
  obtain ⟨_, hmergedOthers, hfind⟩ := mergeConfig_eq_ok hmerge
  refine ⟨cleared, removed, hremove, ?_, ?_, hobject, ?_⟩
  · intro event
    rw [hookItems_of_remove hmerge hcleared, userEntries_eq_retainOthers.mpr (hmixed event)]
  · intro event json hother
    rw [hcleared, retainedEvent_eq_other hother, hfind, mergedValue_eq_other hmergeable hother]
  · intro key
    rw [hothers, hmergedOthers]
    exact others_withVersion client cfg key

theorem retired_not_registered (hretired : event ∈ retiredEvents client) {command : Text} :
    ∀ registration ∈ registrations client command, registration.1 ≠ event := by
  cases client with
  | windsurf =>
    intro registration hregistration
    obtain ⟨registered, hmem, rfl⟩ := List.mem_map.mp hregistration
    have hdisjoint : ∀ registered ∈ windsurfHookEvents,
        ∀ event ∈ windsurfRetiredHookEvents, registered ≠ event := by decide
    exact hdisjoint registered hmem event hretired
  | _ => exact absurd hretired List.not_mem_nil

theorem sweptValue_of_not_retired (hclient : client = .geminiCli ∨ client = .windsurf)
    (hretired : event ∉ retiredEvents client) (value : Option Json) :
    sweptValue client event value = value := by
  rcases hclient with rfl | rfl
  · rfl
  · exact if_neg hretired

theorem sweptValue_of_retired (hretired : event ∈ retiredEvents client) (value : Option Json) :
    sweptValue client event value = value.bind (retainedEvent client) := by
  cases client with
  | windsurf => exact if_pos hretired
  | _ => exact absurd hretired List.not_mem_nil

theorem retainedEvent_eq_self :
    value.bind (retainedEvent client) = value ↔ ∀ items, value = some (.array items) →
      items ≠ [] ∧ ∀ item ∈ items, hookValueIsDifflore client item = false := by
  rcases value with _ | json
  · simp
  · cases json with
    | array items =>
      simp only [Option.bind_some, retainedEvent, Option.some.injEq, Json.array.injEq, forall_eq']
      constructor
      · intro hsame
        split at hsame
        next => contradiction
        next hne =>
          have hkept : retainOthers client items = items := by simpa using hsame
          rw [hkept] at hne
          exact ⟨hne, fun item hitem => (mem_retainOthers.mp (hkept.symm ▸ hitem)).2⟩
      · rintro ⟨hne, hnone⟩
        rw [retainOthers_of_all hnone, if_neg hne]
    | _ => simp [retainedEvent]

theorem settled_iff (hclient : client = .geminiCli ∨ client = .windsurf)
    (hmerge : mergeConfig windows path client bin cfg = .ok (merged, changed)) :
    merged = cfg ↔ Settled client (hookCommandString windows bin client) cfg := by
  obtain ⟨hhooks, hothers, hfind⟩ := mergeConfig_eq_ok hmerge
  have hnotClaude : client ≠ .claudeCode := by
    rcases hclient with rfl | rfl <;> decide
  constructor
  · rintro rfl
    refine ⟨⟨_, hhooks⟩, ?_, ?_⟩
    · intro registration hmem
      have hentry := hfind registration.1
      rw [mergedValue_of_registration hmem, placeDesired_sweptValue hnotClaude] at hentry
      exact ⟨_, fun value hvalue => (mem_retainOthers.mp hvalue).2, hentry⟩
    · intro event hretired
      have hentry := hfind event
      rcases mergedValue_cases client windows bin event with ⟨registration, hmem, hevent⟩ | hswept
      · exact absurd hevent (retired_not_registered hretired registration hmem)
      · rw [hswept, sweptValue_of_retired hretired] at hentry
        exact retainedEvent_eq_self.mp hentry.symm
  · rintro ⟨⟨events, hobject⟩, hregistered, hretired⟩
    have hown : cfg.events = events := by rw [HookConfig.events, hobject]
    have hevents : merged.events = cfg.events := OrderedMap.ext_find fun event => by
      rw [hfind]
      rcases mergedValue_cases client windows bin event with ⟨registration, hmem, rfl⟩ | hswept
      · obtain ⟨users, husers, hentry⟩ := hregistered registration hmem
        rw [mergedValue_of_registration hmem, placeDesired_sweptValue hnotClaude, hentry, itemsOf,
          retainOthers_concat (registered_isDifflore hmem).1, retainOthers_of_all husers]
      · rw [hswept]
        by_cases hevent : event ∈ retiredEvents client
        · rw [sweptValue_of_retired hevent]
          exact retainedEvent_eq_self.mpr (hretired event hevent)
        · exact sweptValue_of_not_retired hclient hevent _
    refine HookConfig.ext ?_ ?_
    · rw [hhooks, hevents, hown, hobject]
    · rw [hothers, withVersion, if_neg]
      rcases hclient with rfl | rfl <;> simp

end

theorem clientOf_not_contextUsable (hunusable : ¬ ContextUsable client context) :
    client = .geminiCli ∨ client = .windsurf := by
  cases client with
  | geminiCli => exact .inl rfl
  | windsurf => exact .inr rfl
  | _ => exact absurd trivial hunusable

/-- The user keeps the hooks exactly if no group mixes them with DiffLore's, and the file of
context can be written unless the hooks are settled. -/
theorem keepsUserHooks_iff (client : HookClient) (windows : Bool) (path bin : Text)
    (disk : HookDisk) :
    KeepsUserHooks client windows path bin disk ↔ MergeSafe client windows bin disk := by
  unfold KeepsUserHooks MergeSafe
  rw [mergeHooks_eq]
  cases hload : loadJsonObject disk.hooks with
  | error err => simp [Except.bind]
  | ok cfg =>
    simp only [Except.bind, Except.ok.injEq, forall_eq']
    cases hmerge : mergeConfig windows path client bin cfg with
    | error err =>
      have hnot : ¬ Mergeable client cfg := by
        intro hmergeable
        obtain ⟨merged, hok⟩ := (@mergeConfig_isOk client path windows bin cfg).mpr hmergeable
        simp [hmerge] at hok
      simp [hnot]
    | ok result =>
      obtain ⟨merged, changed⟩ := result
      have hmergeable : Mergeable client cfg := mergeConfig_isOk.mp ⟨_, hmerge⟩
      simp only [hmergeable, forall_const]
      cases hwrite : writeContext client disk.context with
      | error err =>
        have hunusable : ¬ ContextUsable client disk.context := by
          rw [← writeContext_isOk]
          simp [hwrite]
        have hclient := clientOf_not_contextUsable hunusable
        simp only [hunusable, not_false_eq_true, forall_const, IsEmpty.forall_iff, true_and]
        rw [← settled_iff hclient hmerge]
        constructor
        · intro hsame
          rw [← hsame] at hload
          obtain rfl : merged = cfg := Except.ok.inj hload
          exact ⟨hsame.symm, rfl⟩
        · rintro ⟨hfile, rfl⟩
          exact hfile.symm
      | ok written =>
        have husable : ContextUsable client disk.context := writeContext_isOk.mp ⟨written, hwrite⟩
        simp only [husable, not_true_eq_false, forall_const, IsEmpty.forall_iff, and_true]
        constructor
        · rintro ⟨before, after, rfl, hfile, _, _, cleared, removed, hremove, hrestores⟩
          obtain ⟨found, _, hfound, hcleared, _⟩ := removeHooks_of_merge written hmerge
          rw [hfound] at hremove
          obtain rfl : found = cleared := by
            simpa using congrArg Prod.fst hremove
          intro event
          rw [← userEntries_eq_retainOthers, ← hrestores.items, hookItems_of_remove hmerge hcleared]
        · intro hmixed
          obtain ⟨again, htwice⟩ := mergeConfig_mergeConfig hmergeable hmerge
          refine ⟨cfg, merged, rfl, rfl, hooksKept_of_merge hmergeable hmerge hmixed, ?_,
            restores_of_merge hmergeable written hmerge hmixed⟩
          rw [mergeHooks_eq]
          simp only [loadJsonObject, Except.bind, htwice, writeContext_writeContext hwrite]

def lintHook : Json :=
  .object [(commandKey, .string "/usr/bin/lint"), (typeKey, .string commandKey)]

def mixedGroup : Json := .object [(hooksKey, .array [lintHook,
      commandHook "\"/opt/difflore-hook\" --client claude-code" hookFastTimeoutSecs]),
    (matcherKey, .string "Bash")]

def mixedDisk : HookDisk where
  hooks := .config
    { hooks := some (.object (OrderedMap.empty.insert postToolUse (.array [mixedGroup])))
      others := .empty }
  context := .absent

/-- The merge drops a user's hook with the group that it is in. -/
theorem lintHook_dropped :
    ¬ KeepsUserHooks .claudeCode false "settings.json" "/opt/difflore" mixedDisk := by
  have hok : (((loadJsonObject mixedDisk.hooks).bind (mergeConfig false "settings.json"
      .claudeCode "/opt/difflore")).map fun _ => ()) = .ok () := by decide
  have hdropped : userEntries .claudeCode (itemsOf (mergedValue .claudeCode
      (hookCommandString false "/opt/difflore" .claudeCode) postToolUse
      (some (.array [mixedGroup])))) ≠ userEntries .claudeCode [mixedGroup] := by decide
  intro hkeeps
  rw [KeepsUserHooks, mergeHooks_eq] at hkeeps
  cases hmerge : (loadJsonObject mixedDisk.hooks).bind (mergeConfig false "settings.json"
      .claudeCode "/opt/difflore") with
  | error err =>
    rw [hmerge] at hok
    cases hok
  | ok result =>
    obtain ⟨merged, changed⟩ := result
    rw [hmerge] at hkeeps
    obtain ⟨before, after, hload, hfile, hkept, _⟩ := hkeeps
    obtain rfl := Except.ok.inj hload
    obtain rfl := JsonFile.config.inj hfile
    have husers := hkept.users postToolUse
    obtain ⟨_, _, hfind⟩ := mergeConfig_eq_ok hmerge
    rw [hookItems, hfind] at husers
    exact hdropped husers

end Difflore.Install.Hooks

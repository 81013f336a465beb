import Difflore.Install.HookConfig

/-! # What a merge makes of an event

The value that a merge leaves under an event is a function of the value it found there. A
second merge leaves it as it is, and a removal takes out what the merge put in.
-/

namespace Difflore.Install.Hooks

open Foundation

variable {client : HookClient}

variable {desired json : Json} {items : List Json} {value : Option Json}

theorem stem_infix_hookCommandString (windows : Bool) (bin : Text) (client : HookClient) :
    hookEntrypointStem <:+: hookCommandString windows bin client := by
  have hstem : (hookEntrypointStem.map fun c => if c = '\\' then '/' else c) =
      hookEntrypointStem := by decide
  unfold hookCommandString hookEntrypointToken hookEntrypointPath hookAdjacentBinaryPath
  simp only [List.map_append, hstem]
  split
  next => exact ⟨_, _, by simp only [List.append_assoc]; rfl⟩
  next => exact ⟨'"' :: _, _, by simp only [List.append_assoc, List.cons_append]; rfl⟩

theorem hookCommandMatchesClient_hookCommandString (windows : Bool) (bin : Text)
    (client : HookClient) :
    hookCommandMatchesClient (hookCommandString windows bin client) client = true := by
  have hstem := stem_infix_hookCommandString windows bin client
  have hmarker : clientMarker client <:+: hookCommandString windows bin client :=
    (List.suffix_append_of_suffix (List.suffix_cons _ _)).isInfix
  unfold hookCommandMatchesClient
  simp only [hstem, hmarker, decide_true, Bool.and_true]
  cases decide (hookLauncher <:+: hookCommandString windows bin client) &&
    decide (hookLauncherSentinel <:+: hookCommandString windows bin client) <;> rfl

theorem hookHasCommand_of_get {client : HookClient} {hook : Json} {windows : Bool} {bin : Text}
    (hget : hook.get commandKey = some (.string (hookCommandString windows bin client))) :
    hookHasCommand client hook = true := by
  simp [hookHasCommand, hget, Json.asStr, hookCommandMatchesClient_hookCommandString]

theorem groupHooks_hookGroup (event : Text) (matcher : Option Text) (command : Text) :
    groupHooks (hookGroup event matcher command) =
      [commandHook command (timeoutSecsForEvent event)] := rfl

theorem hookHasCommand_commandHook (client : HookClient) (windows : Bool) (bin : Text)
    (timeoutSecs : Int) :
    hookHasCommand client (commandHook (hookCommandString windows bin client) timeoutSecs) = true :=
  hookHasCommand_of_get (show (commandHook _ timeoutSecs).get commandKey = _ from rfl)

theorem registered_isDifflore {windows : Bool} {bin : Text} {registration : Text × Json}
    (hregistration : registration ∈ registrations client (hookCommandString windows bin client)) :
    hookValueIsDifflore client registration.2 = true ∧
      ∀ hook ∈ groupHooks registration.2, isDiffloreHook client hook = true := by
  cases client with
  | claudeCode =>
    obtain ⟨⟨event, matcher⟩, _, rfl⟩ := List.mem_map.mp hregistration
    simp only [hookValueIsDifflore, isDiffloreHook, groupHooks_hookGroup, List.any_cons,
      List.any_nil, Bool.or_false, List.mem_singleton, forall_eq, hookHasCommand_commandHook,
      and_self]
  | codex =>
    obtain ⟨⟨event, matcher⟩, _, rfl⟩ := List.mem_map.mp hregistration
    simp only [hookValueIsDifflore, isDiffloreHook, groupHooks_hookGroup, List.any_cons,
      List.any_nil, Bool.or_false, List.mem_singleton, forall_eq, hookHasCommand_commandHook,
      and_self]
  | cursor =>
    obtain ⟨event, _, rfl⟩ := List.mem_map.mp hregistration
    exact ⟨rfl, fun hook hhook => absurd hhook List.not_mem_nil⟩
  | geminiCli =>
    obtain ⟨event, _, rfl⟩ := List.mem_map.mp hregistration
    have hgroup : groupHooks (geminiGroup (hookCommandString windows bin .geminiCli)) =
        [geminiHookEntry (hookCommandString windows bin .geminiCli)] := rfl
    simp only [hgroup, List.mem_singleton, forall_eq]
    exact ⟨rfl, rfl⟩
  | windsurf =>
    obtain ⟨event, _, rfl⟩ := List.mem_map.mp hregistration
    have hget : (windsurfEntry (hookCommandString windows bin .windsurf)).get commandKey =
        some (.string (hookCommandString windows bin .windsurf)) := rfl
    exact ⟨hookHasCommand_of_get hget, fun hook hhook => absurd hhook List.not_mem_nil⟩

theorem registrations_nodup (client : HookClient) (command : Text) :
    ((registrations client command).map Prod.fst).Nodup := by
  cases client <;> simp only [registrations, List.map_map, Function.comp_def] <;> decide

/-! ## Lists of groups -/

theorem mem_retainOthers {value : Json} : value ∈ retainOthers client items ↔
      value ∈ items ∧ hookValueIsDifflore client value = false := by
  simp [retainOthers, List.mem_filter]

theorem retainOthers_of_all (hnone : ∀ value ∈ items, hookValueIsDifflore client value = false) :
    retainOthers client items = items :=
  List.filter_eq_self.mpr fun value hvalue => by simp [hnone value hvalue]

theorem retainOthers_retainOthers (items : List Json) :
    retainOthers client (retainOthers client items) = retainOthers client items :=
  retainOthers_of_all fun _ hvalue => (mem_retainOthers.mp hvalue).2

theorem retainOthers_concat (hdesired : hookValueIsDifflore client desired = true) :
    retainOthers client (items ++ [desired]) = retainOthers client items := by
  simp [retainOthers, List.filter_append, hdesired]

theorem countP_retainOthers (items : List Json) :
    (retainOthers client items).countP (hookValueIsDifflore client) = 0 :=
  List.countP_eq_zero.mpr fun _ hvalue => by simp [(mem_retainOthers.mp hvalue).2]

/-- The scan keeps what is not DiffLore's, and the desired group at most once. -/
structure ScanOf (client : HookClient) (desired : Json) (found : Bool) (items : List Json)
    (scan : DesiredScan) : Prop where
  others : retainOthers client scan.kept = retainOthers client items
  once : scan.kept.countP (hookValueIsDifflore client) =
    if !found && scan.foundDesired then 1 else 0
  stays : found = true → scan.foundDesired = true
  own : ∀ value ∈ scan.kept, value ∈ items ∧
    (hookValueIsDifflore client value = true → value = desired)
  whole : scan.removedDifflore = false → scan.kept = items

theorem scanOf_retainDesired (hdesired : hookValueIsDifflore client desired = true) (found : Bool)
    (items : List Json) :
    ScanOf client desired found items (retainDesired client desired found items) := by
  induction items generalizing found with
  | nil => exact ⟨rfl, by cases found <;> rfl, id, by simp [retainDesired], fun _ => rfl⟩
  | cons group rest ih =>
    unfold retainDesired
    split
    next hother =>
      have hother : hookValueIsDifflore client group = false := by simpa using hother
      obtain ⟨hothers, honce, hstays, hown, hwhole⟩ := ih found
      refine ⟨?_, ?_, hstays, ?_, fun hremoved => congrArg (group :: ·) (hwhole hremoved)⟩
      · simp [retainOthers, hother] at hothers ⊢
        exact hothers
      · simpa [hother] using honce
      · intro value hvalue
        rcases List.mem_cons.mp hvalue with rfl | hrest
        · exact ⟨.head _, fun htrue => absurd (hother.symm.trans htrue) (by decide)⟩
        · exact ⟨.tail _ (hown value hrest).1, (hown value hrest).2⟩
    next hgroup =>
      have hgroup : hookValueIsDifflore client group = true := by simpa using hgroup
      split
      next hfirst =>
        simp only [Bool.and_eq_true, Bool.not_eq_true', decide_eq_true_eq] at hfirst
        obtain ⟨rfl, rfl⟩ := hfirst
        obtain ⟨hothers, honce, hstays, hown, hwhole⟩ := ih true
        refine ⟨?_, ?_, nofun, ?_, fun hremoved => congrArg (group :: ·) (hwhole hremoved)⟩
        · simp [retainOthers, hgroup] at hothers ⊢
          exact hothers
        · simpa [hgroup, hstays rfl] using honce
        · intro value hvalue
          rcases List.mem_cons.mp hvalue with rfl | hrest
          · exact ⟨.head _, fun _ => rfl⟩
          · exact ⟨.tail _ (hown value hrest).1, (hown value hrest).2⟩
      next =>
        obtain ⟨hothers, honce, hstays, hown, _⟩ := ih found
        refine ⟨?_, honce, hstays, ?_, nofun⟩
        · simp [retainOthers, hgroup] at hothers ⊢
          exact hothers
        · intro value hvalue
          exact ⟨.tail _ (hown value hvalue).1, (hown value hvalue).2⟩

theorem retainDesired_of_none {found : Bool}
    (hnone : items.countP (hookValueIsDifflore client) = 0) :
    retainDesired client desired found items = ⟨items, found, false⟩ := by
  induction items with
  | nil => rfl
  | cons group rest ih =>
    rw [List.countP_cons] at hnone
    have hgroup : hookValueIsDifflore client group = false := by
      cases hvalue : hookValueIsDifflore client group with
      | false => rfl
      | true => simp [hvalue] at hnone
    simp only [retainDesired, hgroup, Bool.not_false, if_true, ih (by omega)]

theorem retainDesired_of_once (honce : items.countP (hookValueIsDifflore client) = 1)
    (hown : ∀ value ∈ items, hookValueIsDifflore client value = true → value = desired) :
    retainDesired client desired false items = ⟨items, true, false⟩ := by
  induction items with
  | nil => simp at honce
  | cons group rest ih =>
    rw [List.countP_cons] at honce
    cases hgroup : hookValueIsDifflore client group with
    | false =>
      have hrest := ih (by simpa [hgroup] using honce)
        fun value hvalue => hown value (.tail _ hvalue)
      simp [retainDesired, hgroup, hrest]
    | true =>
      obtain rfl := hown group (.head _) hgroup
      have hrest : rest.countP (hookValueIsDifflore client) = 0 := by
        simpa [hgroup] using honce
      simp [retainDesired, hgroup, retainDesired_of_none hrest]

/-- What a client's merge leaves in the list of a registered event. -/
structure PlacedIn (client : HookClient) (desired : Json) (items placed : List Json) : Prop where
  others : retainOthers client placed = retainOthers client items
  once : placed.countP (hookValueIsDifflore client) = 1
  own : ∀ value ∈ placed, hookValueIsDifflore client value = true → value = desired

theorem placedIn_concat (hdesired : hookValueIsDifflore client desired = true) (items : List Json) :
    PlacedIn client desired items (retainOthers client items ++ [desired]) where
  others := (retainOthers_concat hdesired).trans (retainOthers_retainOthers items)
  once := by simp [List.countP_append, countP_retainOthers, hdesired]
  own := by
    intro value hvalue htrue
    rcases List.mem_append.mp hvalue with hother | hsame
    · exact absurd ((mem_retainOthers.mp hother).2.symm.trans htrue) (by decide)
    · exact List.mem_singleton.mp hsame

theorem placedIn_claudeCode (hdesired : hookValueIsDifflore .claudeCode desired = true)
    (items : List Json) :
    PlacedIn .claudeCode desired items (placeDesired .claudeCode desired items).1 := by
  obtain ⟨hothers, honce, _, hown, _⟩ := scanOf_retainDesired hdesired false items
  unfold placeDesired
  simp only
  cases hfound : (retainDesired .claudeCode desired false items).foundDesired with
  | true =>
    rw [hfound] at honce
    exact ⟨hothers, honce, fun value hvalue => (hown value hvalue).2⟩
  | false =>
    rw [hfound] at honce
    refine ⟨(retainOthers_concat hdesired).trans hothers, ?_, ?_⟩
    · simp [List.countP_append, honce, hdesired]
    · intro value hvalue htrue
      rcases List.mem_append.mp hvalue with hkept | hsame
      · exact (hown value hkept).2 htrue
      · exact List.mem_singleton.mp hsame

theorem placeDesired_claudeCode_of_placed {placed : List Json}
    (hplaced : PlacedIn .claudeCode desired items placed) :
    placeDesired .claudeCode desired placed = (placed, false) := by
  simp [placeDesired, retainDesired_of_once hplaced.once hplaced.own]

theorem placeDesired_claudeCode_unchanged
    (hdesired : hookValueIsDifflore .claudeCode desired = true)
    (hsame : (placeDesired .claudeCode desired items).2 = false) :
    (placeDesired .claudeCode desired items).1 = items ∧ items ≠ [] := by
  have hscan := scanOf_retainDesired hdesired false items
  unfold placeDesired at hsame ⊢
  simp only at hsame ⊢
  split at hsame
  next hfound =>
    rw [if_pos hfound]
    refine ⟨hscan.whole hsame, ?_⟩
    rintro rfl
    simp [retainDesired] at hfound
  next => contradiction

/-! ## The value of an event -/

def itemsOf : Option Json → List Json
  | some (.array items) => items
  | _ => []

def Listed (value : Option Json) : Prop := ∃ items, value.getD (.array []) = .array items

theorem getD_of_listed (hlisted : Listed value) :
    value.getD (.array []) = .array (itemsOf value) := by
  obtain ⟨items, hitems⟩ := hlisted
  cases value with
  | none => rfl
  | some json =>
    rw [Option.getD_some] at hitems
    subst hitems
    rfl

theorem listed_array (items : List Json) : Listed (some (.array items)) := ⟨items, rfl⟩

theorem itemsOf_retainedEvent (client : HookClient) (value : Option Json) :
    itemsOf (value.bind (retainedEvent client)) = retainOthers client (itemsOf value) := by
  rcases value with _ | json
  · rfl
  · cases json with
    | array items =>
      rw [Option.bind_some, retainedEvent]
      split
      next hempty => exact hempty.symm
      next => rfl
    | _ => rfl

theorem retainedEvent_retainedEvent (client : HookClient) (value : Option Json) :
    (value.bind (retainedEvent client)).bind (retainedEvent client) =
      value.bind (retainedEvent client) := by
  rcases value with _ | json
  · rfl
  · cases json with
    | array items =>
      rw [Option.bind_some, retainedEvent]
      split
      next => rfl
      next hne => simp [retainedEvent, retainOthers_retainOthers, hne]
    | _ => rfl

theorem retainedEvent_eq_other {client : HookClient} (hother : json.asArray = none) :
    value.bind (retainedEvent client) = some json ↔ value = some json := by
  rcases value with _ | found
  · rfl
  · cases found with
    | array items =>
      constructor
      · intro hvalue
        rw [Option.bind_some, retainedEvent] at hvalue
        split at hvalue
        next => contradiction
        next => simp [← Option.some.inj hvalue, Json.asArray] at hother
      · intro hvalue
        simp [← Option.some.inj hvalue, Json.asArray] at hother
    | _ => rfl

def sweptValue (client : HookClient) (event : Text) (value : Option Json) : Option Json :=
  match client with
  | .claudeCode => value.bind (retiredClaudeEvent event)
  | .codex => value.bind (retainedEvent .codex)
  | .cursor | .geminiCli => value
  | .windsurf =>
    if event ∈ windsurfRetiredHookEvents then value.bind (retainedEvent .windsurf) else value

theorem sweptValue_cases (client : HookClient) (event : Text) (value : Option Json) :
    sweptValue client event value = value ∨
      sweptValue client event value = value.bind (retainedEvent client) := by
  cases client with
  | claudeCode =>
    rcases value with _ | json
    · exact .inl rfl
    · simp only [sweptValue, Option.bind_some, retiredClaudeEvent]
      split
      next => exact .inl rfl
      next => exact .inr rfl
  | codex => exact .inr rfl
  | cursor => exact .inl rfl
  | geminiCli => exact .inl rfl
  | windsurf =>
    simp only [sweptValue]
    split
    next => exact .inr rfl
    next => exact .inl rfl

theorem retainOthers_sweptValue (client : HookClient) (event : Text) (value : Option Json) :
    retainOthers client (itemsOf (sweptValue client event value)) =
      retainOthers client (itemsOf value) := by
  rcases sweptValue_cases client event value with hsame | hswept
  · rw [hsame]
  · rw [hswept, itemsOf_retainedEvent, retainOthers_retainOthers]

theorem sweptValue_eq_other {client : HookClient} {event : Text} (hother : json.asArray = none) :
    sweptValue client event value = some json ↔ value = some json := by
  rcases sweptValue_cases client event value with hsame | hswept
  · rw [hsame]
  · rw [hswept, retainedEvent_eq_other hother]

theorem eventHasDifflore_retainedEvent {client : HookClient} {value : Json}
    (hretained : retainedEvent client value = some json) :
    eventHasDifflore client json = false := by
  cases value with
  | array items =>
    rw [retainedEvent] at hretained
    split at hretained
    next => contradiction
    next =>
      rw [← Option.some.inj hretained]
      simp only [eventHasDifflore, List.any_eq_false, Bool.not_eq_true]
      exact fun value hvalue => (mem_retainOthers.mp hvalue).2
  | _ =>
    rw [← Option.some.inj hretained]
    rfl

theorem sweptValue_sweptValue (client : HookClient) (event : Text) (value : Option Json) :
    sweptValue client event (sweptValue client event value) = sweptValue client event value := by
  cases client with
  | claudeCode =>
    rcases value with _ | json
    · rfl
    · simp only [sweptValue, Option.bind_some]
      cases hretired : retiredClaudeEvent event json with
      | none => rfl
      | some kept =>
        rw [Option.bind_some, retiredClaudeEvent]
        unfold retiredClaudeEvent at hretired
        split at hretired
        next hkeep =>
          cases hretired
          rw [if_pos hkeep]
        next => simp [eventHasDifflore_retainedEvent hretired]
  | codex => exact retainedEvent_retainedEvent .codex value
  | cursor => rfl
  | geminiCli => rfl
  | windsurf =>
    by_cases hretired : event ∈ windsurfRetiredHookEvents
    · simp only [sweptValue, if_pos hretired]
      exact retainedEvent_retainedEvent .windsurf value
    · simp only [sweptValue, if_neg hretired]

def mergedValue (client : HookClient) (command event : Text) (value : Option Json) : Option Json :=
  match (registrations client command).find? fun registration => registration.1 = event with
  | some registration =>
    some (.array (placeDesired client registration.2 (itemsOf (sweptValue client event value))).1)
  | none => sweptValue client event value

theorem placeDesired_sweptValue (hclient : client ≠ .claudeCode) (desired : Json) (event : Text)
    (value : Option Json) :
    (placeDesired client desired (itemsOf (sweptValue client event value))).1 =
      retainOthers client (itemsOf value) ++ [desired] := by
  cases client with
  | claudeCode => contradiction
  | codex => exact congrArg (· ++ [desired]) (itemsOf_retainedEvent .codex value)
  | cursor => rfl
  | geminiCli => rfl
  | windsurf => exact congrArg (· ++ [desired]) (retainOthers_sweptValue .windsurf event value)

theorem placedIn_sweptValue (hdesired : hookValueIsDifflore client desired = true) (event : Text)
    (value : Option Json) :
    PlacedIn client desired (itemsOf value)
      (placeDesired client desired (itemsOf (sweptValue client event value))).1 := by
  by_cases hclient : client = .claudeCode
  · subst hclient
    obtain ⟨hothers, honce, hown⟩ :=
      placedIn_claudeCode hdesired (itemsOf (sweptValue .claudeCode event value))
    exact ⟨hothers.trans (retainOthers_sweptValue .claudeCode event value), honce, hown⟩
  · rw [placeDesired_sweptValue hclient]
    exact placedIn_concat hdesired (itemsOf value)

section

variable {windows : Bool} {bin event : Text} {registration : Text × Json}

theorem find_registration
    (hregistration : registration ∈ registrations client (hookCommandString windows bin client)) :
    (registrations client (hookCommandString windows bin client)).find?
      (fun other => other.1 = registration.1) = some registration := by
  cases hfind : (registrations client (hookCommandString windows bin client)).find?
      fun other => other.1 = registration.1 with
  | none => exact absurd (List.find?_eq_none.mp hfind registration hregistration) (by simp)
  | some found =>
    have hevent : found.1 = registration.1 := by simpa using List.find?_some hfind
    rw [List.inj_on_of_nodup_map (registrations_nodup client _)
      (List.mem_of_find?_eq_some hfind) hregistration hevent]

theorem mergedValue_of_registration
    (hregistration : registration ∈ registrations client (hookCommandString windows bin client))
    (value : Option Json) :
    mergedValue client (hookCommandString windows bin client) registration.1 value =
      some (.array (placeDesired client registration.2
        (itemsOf (sweptValue client registration.1 value))).1) := by
  rw [mergedValue, find_registration hregistration]

theorem mergedValue_cases (client : HookClient) (windows : Bool) (bin event : Text) :
    (∃ registration ∈ registrations client (hookCommandString windows bin client),
      registration.1 = event) ∨
    ∀ value, mergedValue client (hookCommandString windows bin client) event value =
      sweptValue client event value := by
  cases hfind : (registrations client (hookCommandString windows bin client)).find?
      fun registration => registration.1 = event with
  | none => exact .inr fun value => by rw [mergedValue, hfind]
  | some registration =>
    exact .inl ⟨registration, List.mem_of_find?_eq_some hfind, by simpa using List.find?_some hfind⟩

theorem claudeCodeEventIsRegistered_of_mem {command : Text}
    (hregistration : registration ∈ registrations .claudeCode command) :
    claudeCodeEventIsRegistered registration.1 = true := by
  obtain ⟨⟨event, matcher⟩, hmem, rfl⟩ := List.mem_map.mp hregistration
  exact List.any_eq_true.mpr ⟨_, hmem, decide_eq_true rfl⟩

theorem mergedValue_mergedValue (client : HookClient) (windows : Bool) (bin event : Text)
    (value : Option Json) :
    mergedValue client (hookCommandString windows bin client) event
        (mergedValue client (hookCommandString windows bin client) event value) =
      mergedValue client (hookCommandString windows bin client) event value := by
  rcases mergedValue_cases client windows bin event with ⟨registration, hmem, rfl⟩ | hswept
  · have hplaced := placedIn_sweptValue (registered_isDifflore hmem).1 registration.1 value
    simp only [mergedValue_of_registration hmem]
    by_cases hclient : client = .claudeCode
    · subst hclient
      have hregistered := claudeCodeEventIsRegistered_of_mem hmem
      simp only [sweptValue, Option.bind_some, retiredClaudeEvent, hregistered, Bool.true_or,
        if_true, itemsOf]
      exact congrArg (fun placed => some (Json.array placed.1))
        (placeDesired_claudeCode_of_placed hplaced)
    · rw [placeDesired_sweptValue hclient, placeDesired_sweptValue hclient, itemsOf,
        retainOthers_concat (registered_isDifflore hmem).1, retainOthers_retainOthers]
  · rw [hswept, hswept, sweptValue_sweptValue]

theorem retainOthers_mergedValue (client : HookClient) (windows : Bool) (bin event : Text)
    (value : Option Json) :
    retainOthers client (itemsOf (mergedValue client (hookCommandString windows bin client) event
      value)) = retainOthers client (itemsOf value) := by
  rcases mergedValue_cases client windows bin event with ⟨registration, hmem, rfl⟩ | hswept
  · rw [mergedValue_of_registration hmem]
    exact (placedIn_sweptValue (registered_isDifflore hmem).1 registration.1 value).others
  · rw [hswept, retainOthers_sweptValue]

end

end Difflore.Install.Hooks

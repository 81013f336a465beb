import Difflore.Foundation.Json
import Difflore.Foundation.OrderedMap
import Difflore.Install.GooseYaml

/-! # Servers in JSON configurations

Clients list their servers as the members of one object of a JSON file. An install puts DiffLore's
entry among them, and an uninstall takes it out. Where another value stands in the place of that
object, an install writes the file as it was and reports success.
-/

namespace Difflore.Install.Servers

open Foundation

variable {members : List (Text × Json)} {key : Text}

abbrev Config := OrderedMap Text Json

instance : EmptyCollection Config := ⟨.empty⟩

abbrev ConfigFile := JsonFile Config

/-- `writeError` is what keeps the file from being replaced. -/
def writeJsonObject (writeError : Option Text) (config : Config) : Except Text ConfigFile :=
  match writeError with
  | some err => .error err
  | none => .ok (.config config)

inductive McpEntryShape
  | standard
  | stdioTyped
  | opencode

def renderMcpJsonBlock (bin : Text) : McpEntryShape → Json
  | .standard => .object
      [("args", .array [.string mcpServerArg]), ("command", .string bin)]
  | .stdioTyped => .object
      [("args", .array [.string mcpServerArg]), ("command", .string bin), ("type", .string "stdio")]
  | .opencode => .object
      [("command", .array [.string bin, .string mcpServerArg]),
        ("enabled", .bool true), ("type", .string "local")]

def hasMember (key : Text) (members : List (Text × Json)) : Bool := members.any (·.1 = key)

def removeMember (key : Text) (members : List (Text × Json)) : List (Text × Json) :=
  members.filter (·.1 ≠ key)

def mergeDiffloreEntryWithKey (config : Config) (bin serversKey : Text) (shape : McpEntryShape) :
    Config × Bool :=
  match (config.find serversKey).getD (.object []) with
  | .object members =>
    (config.insert serversKey
      (.object (OrderedMap.insertEntry diffloreKey (renderMcpJsonBlock bin shape) members)),
      hasMember diffloreKey members)
  | _ => (config, false)

def removeDiffloreEntryWithKey (config : Config) (serversKey : Text) : Config × Bool :=
  match config.find serversKey with
  | some (.object members) =>
    let rest := removeMember diffloreKey members
    (if rest = [] then config.erase serversKey else config.insert serversKey (.object rest),
      hasMember diffloreKey members)
  | _ => (config, false)

def installJsonConfigAt (writeError : Option Text) (file : ConfigFile) (bin serversKey : Text)
    (shape : McpEntryShape) (dryRun : Bool) : ConfigFile × Except Text Bool :=
  match loadJsonObject file with
  | .error err => (file, .error err)
  | .ok config =>
    let merged := mergeDiffloreEntryWithKey config bin serversKey shape
    if dryRun then (file, .ok merged.2)
    else
      match writeJsonObject writeError merged.1 with
      | .error err => (file, .error err)
      | .ok written => (written, .ok merged.2)

def uninstallJsonConfigAt (writeError : Option Text) (file : ConfigFile) (serversKey : Text)
    (dryRun : Bool) : ConfigFile × Except Text Bool :=
  match file with
  | .missing => (file, .ok false)
  | file =>
    match loadJsonObject file with
    | .error err => (file, .error err)
    | .ok config =>
      let removed := removeDiffloreEntryWithKey config serversKey
      if removed.2 && !dryRun then
        match writeJsonObject writeError removed.1 with
        | .error err => (file, .error err)
        | .ok written => (written, .ok true)
      else (file, .ok removed.2)

def serverEntry (config : Config) (serversKey server : Text) : Option Json :=
  (config.find serversKey).bind fun servers => servers.get server

def extractMcpJsonBlock (file : ConfigFile) (serversKey : Text) : Option Json :=
  match file with
  | .missing => none
  | file =>
    match loadJsonObject file with
    | .error _ => none
    | .ok config => serverEntry config serversKey diffloreKey

/-- All keys but the one of the servers, and all servers but DiffLore's, are as they were. -/
structure OthersKept (serversKey : Text) (before after : Config) : Prop where
  keys : ∀ key, key ≠ serversKey → after.find key = before.find key
  servers : ∀ server, server ≠ diffloreKey →
    serverEntry after serversKey server = serverEntry before serversKey server

/-- A successful install writes the rendered block and nothing else. -/
def InstallsBlock (writeError : Option Text) (file : ConfigFile) (bin serversKey : Text)
    (shape : McpEntryShape) : Prop :=
  ∀ after existed,
    installJsonConfigAt writeError file bin serversKey shape false = (after, .ok existed) →
    extractMcpJsonBlock after serversKey = some (renderMcpJsonBlock bin shape) ∧
      ∃ old new, loadJsonObject file = .ok old ∧ loadJsonObject after = .ok new ∧
        OthersKept serversKey old new

def ServersFit (config : Config) (serversKey : Text) : Prop :=
  ∀ servers, config.find serversKey = some servers → ∃ members, servers = .object members

/-- A successful uninstall leaves no entry of DiffLore's, and takes the object of the servers away
only if it had no other. -/
def RemovesEntry (writeError : Option Text) (file : ConfigFile) (serversKey : Text) : Prop :=
  ∀ after removed, uninstallJsonConfigAt writeError file serversKey false = (after, .ok removed) →
    ∃ old new, loadJsonObject file = .ok old ∧ loadJsonObject after = .ok new ∧
      OthersKept serversKey old new ∧ serverEntry new serversKey diffloreKey = none ∧
        (new.find serversKey ≠ old.find serversKey → new.find serversKey = none →
          ∃ members, old.find serversKey = some (.object members) ∧
            ∀ member ∈ members, member.1 = diffloreKey)

/-- Without DiffLore's entry a configuration is restored, but for an empty object of servers. -/
def Restores (file : ConfigFile) (bin serversKey : Text) (shape : McpEntryShape) : Prop :=
  ∀ config, loadJsonObject file = .ok config → serverEntry config serversKey diffloreKey = none →
    ∃ restored, loadJsonObject (uninstallJsonConfigAt none
        (installJsonConfigAt none file bin serversKey shape false).1 serversKey false).1 =
          .ok restored ∧
      (restored = config ∨
        config.find serversKey = some (.object []) ∧ restored = config.erase serversKey)

theorem get_insertEntry (members : List (Text × Json)) (key other : Text) (value : Json) :
    (Json.object (OrderedMap.insertEntry key value members)).get other =
      if other = key then some value else (Json.object members).get other := by
  unfold Json.get
  convert OrderedMap.find?_insertEntry key other value members

theorem get_removeMember (members : List (Text × Json)) (key other : Text) :
    (Json.object (removeMember key members)).get other =
      if other = key then none else (Json.object members).get other := by
  simp only [Json.get, removeMember, List.find?_filter]
  by_cases hkey : other = key
  · rw [if_pos hkey, Option.map_eq_none_iff, List.find?_eq_none]
    intro member _
    simp only [hkey]
    by_cases hmember : member.1 = key <;> simp [hmember]
  · rw [if_neg hkey]
    congr 2
    funext member
    by_cases hmember : member.1 = other
    · simp [hmember, hkey]
    · simp [hmember]

theorem get_of_not_hasMember (hmember : hasMember key members = false) :
    (Json.object members).get key = none := by
  simp only [hasMember, List.any_eq_false, decide_eq_true_eq] at hmember
  rw [Json.get, Option.map_eq_none_iff, List.find?_eq_none]
  simpa using hmember

theorem not_hasMember_of_get (hget : (Json.object members).get key = none) :
    hasMember key members = false := by
  rw [Json.get, Option.map_eq_none_iff, List.find?_eq_none] at hget
  simpa [hasMember] using hget

theorem removeMember_insertEntry {value : Json} (hmember : hasMember key members = false) :
    removeMember key (OrderedMap.insertEntry key value members) = members := by
  simp only [hasMember, List.any_eq_false, decide_eq_true_eq] at hmember
  have hothers : removeMember key members = members :=
    List.filter_eq_self.mpr fun member hmem => by simpa using hmember member hmem
  induction members with
  | nil => simp [OrderedMap.insertEntry, removeMember]
  | cons member rest ih =>
    unfold OrderedMap.insertEntry
    split
    next =>
      unfold removeMember at hothers ⊢
      rw [List.filter_cons_of_neg (by simp), hothers]
    next =>
      have hhead := hmember member (.head _)
      rw [if_neg (Ne.symm hhead)]
      have htail := fun other hother => hmember other (.tail _ hother)
      have hrest : removeMember key rest = rest :=
        List.filter_eq_self.mpr fun other hother => by simpa using htail other hother
      have hrecur := ih htail hrest
      unfold removeMember at hrecur ⊢
      rw [List.filter_cons_of_pos (by simpa using hhead), hrecur]

/-! ## Merging and removing -/

section Merge

variable {config : Config} {bin serversKey : Text} {shape : McpEntryShape}

theorem exists_members (hfit : ServersFit config serversKey) :
    ∃ members, (config.find serversKey).getD (.object []) = .object members ∧
      ∀ server, serverEntry config serversKey server = (Json.object members).get server := by
  unfold serverEntry
  cases hfind : config.find serversKey with
  | none => exact ⟨[], rfl, fun server => rfl⟩
  | some servers =>
    obtain ⟨members, rfl⟩ := hfit servers hfind
    exact ⟨members, rfl, fun server => rfl⟩

theorem merge_fit (bin : Text) (shape : McpEntryShape) (hfit : ServersFit config serversKey) :
    serverEntry (mergeDiffloreEntryWithKey config bin serversKey shape).1 serversKey diffloreKey =
        some (renderMcpJsonBlock bin shape) ∧
      OthersKept serversKey config (mergeDiffloreEntryWithKey config bin serversKey shape).1 := by
  obtain ⟨members, hmembers, hentry⟩ := exists_members hfit
  have hmerged : (mergeDiffloreEntryWithKey config bin serversKey shape).1 =
      config.insert serversKey
        (.object (OrderedMap.insertEntry diffloreKey (renderMcpJsonBlock bin shape) members)) := by
    rw [mergeDiffloreEntryWithKey, hmembers]
  have hget : ∀ server, serverEntry (mergeDiffloreEntryWithKey config bin serversKey shape).1
      serversKey server = if server = diffloreKey then some (renderMcpJsonBlock bin shape)
        else serverEntry config serversKey server := by
    intro server
    rw [hmerged, serverEntry, OrderedMap.find_insert, if_pos rfl, Option.bind_some,
      get_insertEntry, hentry]
  refine ⟨by rw [hget, if_pos rfl], fun key hkey => ?_, fun server hserver => ?_⟩
  · rw [hmerged, OrderedMap.find_insert, if_neg hkey]
  · rw [hget, if_neg hserver]

theorem merge_unfit (bin : Text) (shape : McpEntryShape) (hfit : ¬ ServersFit config serversKey) :
    mergeDiffloreEntryWithKey config bin serversKey shape = (config, false) ∧
      ∀ server, serverEntry config serversKey server = none := by
  simp only [ServersFit, not_forall, not_exists] at hfit
  obtain ⟨servers, hfind, hother⟩ := hfit
  unfold mergeDiffloreEntryWithKey serverEntry
  rw [hfind, Option.getD_some]
  cases servers with
  | object members => exact absurd rfl (hother members)
  | null | bool | number | string | array => exact ⟨rfl, fun server => rfl⟩

theorem othersKept_refl (config : Config) : OthersKept serversKey config config :=
  ⟨fun _ _ => rfl, fun _ _ => rfl⟩

theorem remove_members (hfind : config.find serversKey = some (.object members)) :
    let after := (removeDiffloreEntryWithKey config serversKey).1
    (∀ key, key ≠ serversKey → after.find key = config.find key) ∧
      after.find serversKey = if removeMember diffloreKey members = [] then none
        else some (.object (removeMember diffloreKey members)) := by
  intro after
  have hafter : after = if removeMember diffloreKey members = [] then config.erase serversKey
      else config.insert serversKey (.object (removeMember diffloreKey members)) := by
    simp only [after, removeDiffloreEntryWithKey, hfind]
  rw [hafter]
  split
  · exact ⟨fun key hkey => by rw [OrderedMap.find_erase, if_neg hkey],
      by rw [OrderedMap.find_erase, if_pos rfl]⟩
  · exact ⟨fun key hkey => by rw [OrderedMap.find_insert, if_neg hkey],
      by rw [OrderedMap.find_insert, if_pos rfl]⟩

theorem remove_spec : OthersKept serversKey config
      (removeDiffloreEntryWithKey config serversKey).1 ∧
    serverEntry (removeDiffloreEntryWithKey config serversKey).1 serversKey diffloreKey = none ∧
    ((removeDiffloreEntryWithKey config serversKey).1.find serversKey ≠ config.find serversKey →
      (removeDiffloreEntryWithKey config serversKey).1.find serversKey = none →
      ∃ members, config.find serversKey = some (.object members) ∧
        ∀ member ∈ members, member.1 = diffloreKey) := by
  by_cases hmembers : ∃ members, config.find serversKey = some (.object members)
  · obtain ⟨members, hfind⟩ := hmembers
    obtain ⟨hkeys, hservers⟩ := remove_members hfind
    have hentry : ∀ server, serverEntry (removeDiffloreEntryWithKey config serversKey).1 serversKey
        server = if server = diffloreKey then none else serverEntry config serversKey server := by
      intro server
      have hremove := get_removeMember members diffloreKey server
      rw [serverEntry, serverEntry, hservers, hfind, Option.bind_some]
      by_cases hnil : removeMember diffloreKey members = []
      · rw [hnil] at hremove
        rw [if_pos hnil, Option.bind_none, ← hremove]
        rfl
      · rw [if_neg hnil, Option.bind_some, hremove]
    refine ⟨⟨hkeys, fun server hserver => by rw [hentry, if_neg hserver]⟩,
      by rw [hentry, if_pos rfl], fun _ hgone => ⟨members, hfind, ?_⟩⟩
    have hnil : removeMember diffloreKey members = [] := by
      by_contra hnil
      rw [hservers, if_neg hnil] at hgone
      contradiction
    intro member hmem
    by_contra hother
    have hkept : member ∈ removeMember diffloreKey members :=
      List.mem_filter.mpr ⟨hmem, by simpa using hother⟩
    rw [hnil] at hkept
    simp at hkept
  · -- without an object of servers there is nothing to take out
    have hsame : removeDiffloreEntryWithKey config serversKey = (config, false) := by
      unfold removeDiffloreEntryWithKey
      split
      next members hfind => exact absurd ⟨members, hfind⟩ hmembers
      next => rfl
    have hnone : serverEntry config serversKey diffloreKey = none := by
      unfold serverEntry
      cases hfind : config.find serversKey with
      | none => rfl
      | some servers =>
        cases servers with
        | object members => exact absurd ⟨members, hfind⟩ hmembers
        | null | bool | number | string | array => rfl
    rw [hsame]
    exact ⟨othersKept_refl config, hnone, fun hchanged => absurd rfl hchanged⟩

theorem serverEntry_of_not_removed
    (hremoved : (removeDiffloreEntryWithKey config serversKey).2 = false) :
    serverEntry config serversKey diffloreKey = none := by
  unfold serverEntry
  unfold removeDiffloreEntryWithKey at hremoved
  cases hfind : config.find serversKey with
  | none => rfl
  | some servers =>
    rw [hfind] at hremoved
    cases servers with
    | object members => exact get_of_not_hasMember hremoved
    | null | bool | number | string | array => rfl

theorem remove_merge (bin : Text) (shape : McpEntryShape)
    (hnone : serverEntry config serversKey diffloreKey = none) :
    let removed := removeDiffloreEntryWithKey
      (mergeDiffloreEntryWithKey config bin serversKey shape).1 serversKey
    removed.1 = config ∨ config.find serversKey = some (.object []) ∧
      removed.1 = config.erase serversKey := by
  intro removed
  by_cases hfit : ServersFit config serversKey
  swap
  · left
    obtain ⟨hmerge, _⟩ := merge_unfit bin shape hfit
    simp only [removed, hmerge]
    unfold removeDiffloreEntryWithKey
    split
    next members hfind => exact absurd (fun servers hservers => by
      rw [hfind, Option.some.injEq] at hservers
      exact ⟨members, hservers.symm⟩) hfit
    next => rfl
  obtain ⟨members, hmembers, hentry⟩ := exists_members hfit
  have hmember : hasMember diffloreKey members = false :=
    not_hasMember_of_get (by rw [← hentry, hnone])
  have hfind : (mergeDiffloreEntryWithKey config bin serversKey shape).1.find serversKey =
      some (.object
        (OrderedMap.insertEntry diffloreKey (renderMcpJsonBlock bin shape) members)) := by
    rw [mergeDiffloreEntryWithKey, hmembers, OrderedMap.find_insert, if_pos rfl]
  obtain ⟨hkeys, hservers⟩ := remove_members hfind
  rw [removeMember_insertEntry hmember] at hservers
  have hother : ∀ key, key ≠ serversKey → removed.1.find key = config.find key := by
    intro key hkey
    rw [hkeys key hkey]
    exact (merge_fit bin shape hfit).2.keys key hkey
  by_cases hnil : members = []
  · -- an empty object of servers is not left behind
    rw [if_pos hnil] at hservers
    have herase : removed.1 = config.erase serversKey := by
      apply OrderedMap.ext_find
      intro key
      rw [OrderedMap.find_erase]
      split
      next hkey => rw [hkey, hservers]
      next hkey => exact hother key hkey
    cases hold : config.find serversKey with
    | none =>
      refine .inl (OrderedMap.ext_find fun key => ?_)
      by_cases hkey : key = serversKey
      · rw [hkey, hservers, hold]
      · exact hother key hkey
    | some servers =>
      rw [hold, Option.getD_some, hnil] at hmembers
      exact .inr ⟨congrArg some hmembers, herase⟩
  · rw [if_neg hnil] at hservers
    refine .inl (OrderedMap.ext_find fun key => ?_)
    by_cases hkey : key = serversKey
    · rw [hkey, hservers]
      cases hold : config.find serversKey with
      | none =>
        rw [hold, Option.getD_none, Json.object.injEq] at hmembers
        exact absurd hmembers.symm hnil
      | some servers => rw [← hmembers, hold, Option.getD_some]
    · exact hother key hkey

end Merge

section Files

variable {writeError : Option Text} {file : ConfigFile} {bin serversKey : Text}
  {shape : McpEntryShape}

theorem removesEntry (writeError : Option Text) (file : ConfigFile) (serversKey : Text) :
    RemovesEntry writeError file serversKey := by
  intro after removed huninstall
  cases file with
  | missing =>
    obtain ⟨rfl, -⟩ := Prod.mk.inj huninstall
    exact ⟨.empty, .empty, rfl, rfl, othersKept_refl _, rfl, fun hchanged => absurd rfl hchanged⟩
  | broken err => simp [uninstallJsonConfigAt, loadJsonObject] at huninstall
  | config config =>
    simp only [uninstallJsonConfigAt, loadJsonObject, Bool.not_false, Bool.and_true] at huninstall
    cases hremoved : (removeDiffloreEntryWithKey config serversKey).2 with
    | true =>
      rw [hremoved, if_pos rfl] at huninstall
      cases writeError with
      | some err => simp [writeJsonObject] at huninstall
      | none =>
        obtain ⟨rfl, -⟩ := Prod.mk.inj huninstall
        exact ⟨config, _, rfl, rfl, remove_spec⟩
    | false =>
      rw [hremoved, if_neg (by decide)] at huninstall
      obtain ⟨rfl, -⟩ := Prod.mk.inj huninstall
      exact ⟨config, config, rfl, rfl, othersKept_refl config,
        serverEntry_of_not_removed hremoved, fun hchanged => absurd rfl hchanged⟩

theorem install_of_load (bin serversKey : Text) (shape : McpEntryShape) {config : Config}
    (hload : loadJsonObject file = .ok config) :
    installJsonConfigAt none file bin serversKey shape false =
      (.config (mergeDiffloreEntryWithKey config bin serversKey shape).1,
        .ok (mergeDiffloreEntryWithKey config bin serversKey shape).2) := by
  simp [installJsonConfigAt, hload, writeJsonObject]

theorem restores (file : ConfigFile) (bin serversKey : Text) (shape : McpEntryShape) :
    Restores file bin serversKey shape := by
  intro config hload hnone
  rw [install_of_load _ _ _ hload]
  have hmerge := remove_merge bin shape hnone
  simp only [uninstallJsonConfigAt, loadJsonObject, Bool.not_false, Bool.and_true]
  cases hremoved : (removeDiffloreEntryWithKey
      (mergeDiffloreEntryWithKey config bin serversKey shape).1 serversKey).2 with
  | true => exact ⟨_, rfl, hmerge⟩
  | false =>
    refine ⟨(mergeDiffloreEntryWithKey config bin serversKey shape).1, rfl, .inl ?_⟩
    by_cases hfit : ServersFit config serversKey
    · have hentry := serverEntry_of_not_removed hremoved
      rw [(merge_fit bin shape hfit).1] at hentry
      contradiction
    · rw [(merge_unfit bin shape hfit).1]

end Files

/-- An uninstall takes out DiffLore's entry alone and undoes an install. A successful install has
written the rendered block and nothing else exactly if, with the file read and written, the
servers are an object or absent. -/
theorem installsBlock_iff (writeError : Option Text) (file : ConfigFile) (bin serversKey : Text)
    (shape : McpEntryShape) :
    (InstallsBlock writeError file bin serversKey shape ↔
      ∀ config, loadJsonObject file = .ok config → writeError = none →
        ServersFit config serversKey) ∧
      RemovesEntry writeError file serversKey ∧ Restores file bin serversKey shape := by
  refine ⟨⟨fun hinstalls config hload hwrites => ?_, fun hfits after existed hinstall => ?_⟩,
    removesEntry writeError file serversKey, restores file bin serversKey shape⟩
  · subst hwrites
    by_contra hfit
    have hinstall := install_of_load bin serversKey shape hload
    obtain ⟨hmerge, hentry⟩ := merge_unfit bin shape hfit
    rw [hmerge] at hinstall
    have hblock := (hinstalls _ _ hinstall).1
    simp only [extractMcpJsonBlock, loadJsonObject, hentry] at hblock
    contradiction
  · cases hload : loadJsonObject file with
    | error err => simp [installJsonConfigAt, hload] at hinstall
    | ok config =>
      cases hwrites : writeError with
      | some err => simp [installJsonConfigAt, hload, hwrites, writeJsonObject] at hinstall
      | none =>
        obtain ⟨hentry, hothers⟩ := merge_fit bin shape
          (hfits config hload hwrites)
        rw [hwrites, install_of_load _ _ _ hload] at hinstall
        obtain ⟨rfl, -⟩ := Prod.mk.inj hinstall
        exact ⟨hentry, config, _, rfl, rfl, hothers⟩

/-- Over `null` an install reports success and writes no entry. -/
theorem not_installsBlock : ¬ InstallsBlock none
    (.config ⟨[("mcpServers", .null)], List.pairwise_singleton _ _⟩) "difflore"
    "mcpServers" .standard := by
  intro hinstalls
  have hblock := (hinstalls (.config ⟨[("mcpServers", .null)], List.pairwise_singleton _ _⟩)
    false rfl).1
  exact absurd hblock (by decide)

end Difflore.Install.Servers

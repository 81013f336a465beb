import Difflore.Infra.MasterKey

/-! # Secrets stay readable

A lookup makes a new key whenever it reads none, and turns to the seed file whenever the store
fails. The runs below are those in which a stored key is neither written over nor passed by.
-/

namespace Difflore.Infra

open Foundation Text Foundation.Service

variable (env : KeyEnv)

abbrev KeyWorld (Process : Type) :=
  World KeyQuery KeyQuery.Answer PUnit KeyCall KeyState KeyPhase Process

variable {Process : Type}

def KeyEnv.Plain : Prop := env.masterKeyHex = none ∧ env.debugKey = none ∧ env.isCi = false

/-- After a secret was encrypted, every call returned its key or an error, and no step did away
with the stored copy of the key. -/
def KeyState.KeysReadable (state : KeyState) : Prop := state.strayed = [] ∧ state.replaced = []

/-- A key is stored only while the store holds none and nobody has turned to the seed file, and
nobody turns to the seed file while the store holds a key. -/
def KeyState.KeepsSource (state : KeyState) (choice : KeyChoice) : KeyQuery → Prop
  | .setPassword _ => choice.failure = none → state.stored = none ∧ state.fellBack = false
  | .readKeyseed => state.stored = none
  | _ => True

def OneSource (world : KeyWorld Process) : Move Process KeyCall KeyChoice → Prop
  | .serve process choice => ∀ call phase query resume,
      world.tasks process = some ⟨call, phase, .ask query resume⟩ →
      world.shared.KeepsSource choice query
  | _ => True

/-- The key in the store, or the one behind the seed file if somebody uses it. -/
def KeyState.InForce (state : KeyState) (key : Key) : Prop :=
  state.stored = some key ∨ (state.fellBack = true ∧ state.localKey env = some key)

inductive KeyPermits : KeyPhase → KeyQuery → Prop
  | openKeyring (phase : KeyPhase) : KeyPermits phase .openKeyring
  | getPassword (phase : KeyPhase) : KeyPermits phase .getPassword
  | randomBytes (phase : KeyPhase) : KeyPermits phase .randomBytes
  | setPassword (phase : KeyPhase) (key : Key) : KeyPermits phase (.setPassword (toHex key.bytes))
  | readKeyseed (phase : KeyPhase) : KeyPermits phase .readKeyseed
  | createDirAll (phase : KeyPhase) : KeyPermits phase .createDirAll
  | createKeyseed : KeyPermits .fallback .createKeyseed
  | writeKeyseed (seed : Bytes32) : KeyPermits .seeding (.writeKeyseed (toHex seed.bytes))
  | returns (key : Key) : KeyPermits (.holds key) (.returns key)
  | encrypt (key : Key) : KeyPermits (.holds key) (.encrypt key)

def keyOutline : Outline KeyQuery PUnit KeyCall KeyState KeyPhase where
  good := fun state => (state.stored ≠ none → state.fellBack = false) ∧
    (∀ key ∈ state.encrypted, state.InForce env key) ∧ state.KeysReadable
  stable := fun state phase =>
    match phase with
    | .idle => True
    | .fallback => state.fellBack = true
    | .seeding => state.fellBack = true ∧ state.keyseed = some []
    | .holds key => state.InForce env key
  permits := fun _ => KeyPermits
  returns := fun _ _ _ => True

/-! ## The programs follow the outline -/

abbrev Looks {α : Type} (post : KeyPhase → α → Prop) : KeyPhase → KeySteps α → Prop :=
  Follows (keyService env) KeyPermits post

theorem not_isWhitespace_of_mem_toHex {bytes : List UInt8} {c : Char} (hc : c ∈ toHex bytes) :
    isWhitespace c = false ∧ (hexValue c).isSome = true ∧ c.isUpper = false := by
  obtain ⟨byte, -, hbyte⟩ := List.mem_flatMap.mp hc
  have hlt := byte.toNat_lt
  have hdigit : ∀ n, n < 16 → isWhitespace (hexDigit n) = false ∧
      (hexValue (hexDigit n)).isSome = true ∧
      (hexDigit n).isUpper = false := by
    intro n hn
    obtain ⟨hvalue, -, -, hupper⟩ := hexDigit_spec hn
    exact ⟨hexDigit_not_isWhitespace n, by rw [hvalue]; rfl, hupper⟩
  rcases List.mem_cons.mp hbyte with rfl | hbyte
  · exact hdigit _ (by omega)
  · rw [List.mem_singleton.mp hbyte]
    exact hdigit _ (by omega)

theorem parseKeyseedHex_toHex (seed : Bytes32) : parseKeyseedHex (toHex seed.bytes) = .ok seed := by
  have htrim : trim (toHex seed.bytes) = toHex seed.bytes := by
    apply trim_of_ends
    · intro c hc
      exact (not_isWhitespace_of_mem_toHex (List.mem_of_mem_head? hc)).1
    · intro c hc
      exact (not_isWhitespace_of_mem_toHex (List.mem_of_mem_getLast? hc)).1
  have hlength : byteLength (toHex seed.bytes) = 64 := by
    rw [byteLength_toHex, seed.length_bytes]
  have hall : (toHex seed.bytes).all (fun c => (hexValue c).isSome && !c.isUpper) = true := by
    rw [List.all_eq_true]
    intro c hc
    obtain ⟨-, hvalue, hupper⟩ := not_isWhitespace_of_mem_toHex hc
    rw [hvalue, hupper]
    rfl
  unfold parseKeyseedHex
  dsimp only
  rw [htrim, hlength, hall, parse32ByteHex_toHex]
  rfl

/-- A lookup returns a key that is in force, or leaves nothing half done. -/
def Looked (phase : KeyPhase) (result : Except Text Key) : Prop :=
  match result with
  | .ok key => phase = .holds key
  | .error _ => phase ≠ .seeding

/-! What a phase becomes when the bytes of an answer are read. -/

theorem observe_getPassword (phase : KeyPhase) (hex : Text) :
    KeyPhase.observe env phase .getPassword (.ok hex) =
      (parse32ByteHex hex).toOption.elim phase .holds := rfl

theorem observe_setPassword (phase : KeyPhase) (key : Key) :
    KeyPhase.observe env phase (.setPassword (toHex key.bytes)) (.ok ⟨⟩) = .holds key := by
  show (parse32ByteHex (toHex key.bytes)).toOption.elim phase .holds = .holds key
  rw [parse32ByteHex_toHex]
  rfl

theorem observe_readKeyseed (phase : KeyPhase) (raw : Text) :
    KeyPhase.observe env phase .readKeyseed (.ok raw) =
      (parseKeyseedHex raw).toOption.elim .fallback fun seed => .holds (env.deriveKey seed) := rfl

theorem observe_writeKeyseed (phase : KeyPhase) (seed : Bytes32) :
    KeyPhase.observe env phase (.writeKeyseed (toHex seed.bytes)) (.ok ⟨⟩) =
      .holds (env.deriveKey seed) := by
  show (parseKeyseedHex (toHex seed.bytes)).toOption.elim KeyPhase.fallback _ = _
  rw [parseKeyseedHex_toHex]
  rfl

theorem createKeyringKey_follows {phase : KeyPhase} (hphase : phase ≠ .seeding) :
    Looks env Looked phase createKeyringKey := by
  refine ⟨.randomBytes phase, fun _ key => ⟨.setPassword phase key, fun _ answer => ?_⟩⟩
  cases answer with
  | ok _ => exact observe_setPassword env phase key
  | error e => exact hphase

theorem parsedKey_follows (hex : Text) {phase : KeyPhase} (hphase : phase ≠ .seeding) :
    Looks env Looked (KeyPhase.observe env phase .getPassword (.ok hex))
      (match parse32ByteHex hex with
        | .ok key => pure (.ok key)
        | .error .panics => pure (.error "keyring worker exited unexpectedly")
        | .error .invalid => createKeyringKey) := by
  rw [observe_getPassword]
  cases parse32ByteHex hex with
  | ok key => exact rfl
  | error e =>
    cases e with
    | panics => exact hphase
    | invalid => exact createKeyringKey_follows env hphase

theorem tryKeyringKeyInner_follows {phase : KeyPhase} (hphase : phase ≠ .seeding) :
    Looks env Looked phase tryKeyringKeyInner := by
  refine ⟨.openKeyring phase, fun _ answer => ?_⟩
  cases answer with
  | error e => exact hphase
  | ok _ =>
    refine ⟨.getPassword phase, fun _ answer => ?_⟩
    cases answer with
    | error e => exact createKeyringKey_follows env hphase
    | ok hex => exact parsedKey_follows env hex hphase

def Seeded (phase : KeyPhase) {ε : Type} (result : Except ε Bytes32) : Prop :=
  match result with
  | .ok seed => phase = .holds (env.deriveKey seed)
  | .error _ => phase = .fallback

theorem parsedKeyseed_follows (raw : Text) (phase : KeyPhase) :
    Looks env (fun after result => Seeded env after result)
      (KeyPhase.observe env phase .readKeyseed (.ok raw))
      (match parseKeyseedHex raw with
        | .ok seed => pure (.ok seed)
        | .error e => pure (.error (KeyseedReadError.invalid
            ("invalid keyseed " ++ env.keyseedPath ++ ": " ++ internalError e)))) := by
  rw [observe_readKeyseed]
  cases parseKeyseedHex raw with
  | ok seed => exact rfl
  | error e => exact rfl

theorem readExistingKeyseed_follows (phase : KeyPhase) :
    Looks env (fun after result => Seeded env after result) phase (readExistingKeyseed env) := by
  refine ⟨.readKeyseed phase, fun _ answer => ?_⟩
  cases answer with
  | error e =>
    cases e with
    | notFound | alreadyExists | other => exact rfl
  | ok raw => exact parsedKeyseed_follows env raw phase

theorem writeNewKeyseed_follows (seed : Bytes32) : Looks env (fun after result => match result with
        | .ok _ => after = .holds (env.deriveKey seed)
        | .error _ => after = .fallback) .fallback (writeNewKeyseed seed) := by
  refine ⟨.createKeyseed, fun _ answer => ?_⟩
  cases answer with
  | error e => exact rfl
  | ok _ =>
    refine ⟨.writeKeyseed seed, fun _ answer => ?_⟩
    cases answer with
    | error e => exact rfl
    | ok _ => exact observe_writeKeyseed env .seeding seed

theorem createLocalKeyseed_follows :
    Looks env (fun after result => Seeded env after result) .fallback (createLocalKeyseed env) := by
  refine ⟨.createDirAll _, fun _ answer => ?_⟩
  cases answer with
  | error e => exact rfl
  | ok _ =>
    refine ⟨.randomBytes _, fun _ seed => (writeNewKeyseed_follows env seed).bind ?_⟩
    intro after result hresult
    cases result with
    | ok _ => exact hresult
    | error e =>
      obtain rfl : after = .fallback := hresult
      cases e with
      | notFound => exact rfl
      | other e => exact rfl
      | alreadyExists =>
        refine (readExistingKeyseed_follows env .fallback).bind fun last result hlast => ?_
        cases result with
        | ok seed => exact hlast
        | error e => exact hlast

theorem loadOrCreateLocalKeyseed_follows (phase : KeyPhase) :
    Looks env (fun after result => Seeded env after result) phase
      (loadOrCreateLocalKeyseed env) := by
  refine (readExistingKeyseed_follows env phase).bind fun after result hresult => ?_
  cases result with
  | ok seed => exact hresult
  | error e =>
    obtain rfl : after = .fallback := hresult
    cases e with
    | notFound => exact createLocalKeyseed_follows env
    | invalid e => exact rfl
    | io e => exact rfl

theorem lookUpMasterKey_follows (hplain : env.Plain) {phase : KeyPhase}
    (hphase : phase ≠ .seeding) : Looks env Looked phase (lookUpMasterKey env) := by
  refine (tryKeyringKeyInner_follows env hphase).bind fun after result hresult => ?_
  cases result with
  | ok key => exact hresult
  | error e =>
    show Looks env Looked after (if _ then _ else localFallbackKeyForKeyringError env _)
    split
    next => exact hresult
    next =>
      unfold localFallbackKeyForKeyringError
      rw [if_neg (by simp [hplain.2.2])]
      refine (loadOrCreateLocalKeyseed_follows env after).bind fun last result hlast => ?_
      cases result with
      | ok seed => exact hlast
      | error e =>
        obtain rfl : last = .fallback := hlast
        exact fun hseeding => nomatch hseeding

def Caches (phase : KeyPhase) (cached : Option Key) : Prop :=
  match cached with
  | some key => phase = .holds key
  | none => phase ≠ .seeding

theorem getOrCreateMasterKey_follows (hplain : env.Plain) {phase : KeyPhase} {cached : Option Key}
    (hcached : Caches phase cached) :
    Looks env (fun after result => match result with
        | .ok key => after = .holds key
        | .error _ => Caches after cached) phase (getOrCreateMasterKey env cached) := by
  cases cached with
  | some key =>
    obtain rfl : phase = .holds key := hcached
    exact ⟨.returns key, fun _ _ => rfl⟩
  | none =>
    unfold getOrCreateMasterKey
    rw [hplain.1, hplain.2.1]
    refine (lookUpMasterKey_follows env hplain hcached).bind fun after result hresult => ?_
    cases result with
    | error e => exact hresult
    | ok key =>
      obtain rfl : after = .holds key := hresult
      exact ⟨.returns key, fun _ _ => rfl⟩

theorem keySession_follows (hplain : env.Plain) (rounds : List Bool) {phase : KeyPhase}
    {cached : Option Key} (hcached : Caches phase cached) :
    Looks env (fun _ _ => True) phase (keySession env rounds cached) := by
  induction rounds generalizing phase cached with
  | nil => exact trivial
  | cons encrypts rest ih =>
    unfold keySession
    refine (getOrCreateMasterKey_follows env hplain hcached).bind fun after result hresult => ?_
    cases result with
    | error e => exact ih hresult
    | ok key =>
      obtain rfl : after = .holds key := hresult
      have hholds : Caches (.holds key) (some key) := rfl
      cases encrypts with
      | true => exact ⟨.encrypt key, fun _ _ => ih hholds⟩
      | false => exact ih hholds

theorem key_follows (hplain : env.Plain) (call : KeyCall) :
    Looks env (fun _ _ => True) .idle (call.program env) := by
  have hidle : KeyPhase.idle ≠ .seeding := fun hsame => nomatch hsame
  cases call with
  | session rounds => exact keySession_follows env hplain rounds hidle
  | worker => exact (tryKeyringKeyInner_follows env hidle).bind fun _ _ _ => trivial

/-! ## The steps -/

variable {env} {state next : KeyState} {phase : KeyPhase} {choice : KeyChoice}

theorem KeyState.InForce.unique {key other : Key} (hgood : (keyOutline env).good state)
    (hkey : state.InForce env key) (hother : state.InForce env other) : key = other := by
  have hstored : ∀ found, state.stored = some found → state.fellBack = false := by
    intro found hfound
    exact hgood.1 (by simp [hfound])
  rcases hkey with hkey | ⟨hfell, hkey⟩
  · rcases hother with hother | ⟨hfell, -⟩
    · exact Option.some.inj (hkey.symm.trans hother)
    · rw [hstored key hkey] at hfell
      contradiction
  · rcases hother with hother | ⟨-, hother⟩
    · rw [hstored other hother] at hfell
      contradiction
    · exact Option.some.inj (hkey.symm.trans hother)

/-- No copy of a key goes, and nobody comes back from the seed file. -/
structure Grows (env : KeyEnv) (state next : KeyState) : Prop where
  stored : ∀ key, state.stored = some key → next.stored = some key
  fellBack : state.fellBack = true → next.fellBack = true
  localKey : ∀ key, state.localKey env = some key → next.localKey env = some key

theorem Grows.refl (state : KeyState) : Grows env state state where
  stored _ hkey := hkey
  fellBack hfell := hfell
  localKey _ hkey := hkey

theorem Grows.inForce (hgrows : Grows env state next) {key : Key}
    (hkey : state.InForce env key) : next.InForce env key := by
  rcases hkey with hkey | ⟨hfell, hkey⟩
  · exact .inl (hgrows.stored key hkey)
  · exact .inr ⟨hgrows.fellBack hfell, hgrows.localKey key hkey⟩

theorem Grows.mem_copies (hgrows : Grows env state next) {key : Key}
    (hkey : key ∈ state.copies env) : key ∈ next.copies env := by
  unfold KeyState.copies at hkey ⊢
  rcases List.mem_append.mp hkey with hkey | hkey
  · exact List.mem_append_left _ (Option.mem_toList.mpr (hgrows.stored key
      (Option.mem_toList.mp hkey)))
  · exact List.mem_append_right _ (Option.mem_toList.mpr (hgrows.localKey key
      (Option.mem_toList.mp hkey)))

theorem Grows.stable (hgrows : Grows env state next)
    (hkeyseed : phase = .seeding → next.keyseed = state.keyseed)
    (hstable : (keyOutline env).stable state phase) : (keyOutline env).stable next phase := by
  cases phase with
  | idle => exact trivial
  | fallback => exact hgrows.fellBack hstable
  | seeding => exact ⟨hgrows.fellBack hstable.1, (hkeyseed rfl).trans hstable.2⟩
  | holds key => exact hgrows.inForce hstable

theorem Grows.good (hgrows : Grows env state next) (hgood : (keyOutline env).good state)
    (hsource : next.stored ≠ none → next.fellBack = false)
    (hencrypted : next.encrypted = state.encrypted) (hstrayed : next.strayed = state.strayed)
    (hreplaced : next.replaced = state.replaced) : (keyOutline env).good next := by
  refine ⟨hsource, ?_, hstrayed.trans hgood.2.2.1, hreplaced.trans hgood.2.2.2⟩
  intro key hkey
  rw [hencrypted] at hkey
  exact hgrows.inForce (hgood.2.1 key hkey)

theorem localKey_of_empty (hkeyseed : state.keyseed = some []) : state.localKey env = none := by
  unfold KeyState.localKey
  rw [hkeyseed]
  rfl

theorem setPassword_step {key : Key} (hgood : (keyOutline env).good state)
    (hstored : state.stored = none) (hfell : state.fellBack = false)
    (hnext : next = { state with entry := some (toHex key.bytes) }) :
    Grows env state next ∧ (keyOutline env).good next ∧ next.stored = some key := by
  have hkey : next.stored = some key := by
    rw [hnext]
    show ((parse32ByteHex (toHex key.bytes)).toOption) = some key
    rw [parse32ByteHex_toHex]
    rfl
  have hgrows : Grows env state next := by
    refine ⟨fun found hfound => ?_, fun hback => ?_, fun found hfound => ?_⟩
    · rw [hstored] at hfound
      contradiction
    · rw [hfell] at hback
      contradiction
    · rw [hnext]
      exact hfound
  refine ⟨hgrows, hgrows.good hgood (fun _ => ?_) ?_ ?_ ?_, hkey⟩
  · rw [hnext]
    exact hfell
  · rw [hnext]
  · rw [hnext]
  · rw [hnext]

theorem readKeyseed_step (hgood : (keyOutline env).good state) (hstored : state.stored = none)
    (hnext : next = { state with fellBack := true }) :
    Grows env state next ∧ (keyOutline env).good next := by
  have hgrows : Grows env state next := by
    refine ⟨fun found hfound => ?_, fun _ => ?_, fun found hfound => ?_⟩
    · rw [hnext]
      exact hfound
    · rw [hnext]
    · rw [hnext]
      exact hfound
  refine ⟨hgrows, hgrows.good hgood (fun hsome => ?_) ?_ ?_ ?_⟩
  · rw [hnext] at hsome
    exact absurd hstored hsome
  · rw [hnext]
  · rw [hnext]
  · rw [hnext]

theorem keyseed_step {raw : Text} (hgood : (keyOutline env).good state)
    (hlocal : state.localKey env = none) (hnext : next = { state with keyseed := some raw }) :
    Grows env state next ∧ (keyOutline env).good next := by
  have hgrows : Grows env state next := by
    refine ⟨fun found hfound => ?_, fun hback => ?_, fun found hfound => ?_⟩
    · rw [hnext]
      exact hfound
    · rw [hnext]
      exact hback
    · rw [hlocal] at hfound
      contradiction
  refine ⟨hgrows, hgrows.good hgood (fun hsome => ?_) ?_ ?_ ?_⟩
  · rw [hnext] at hsome ⊢
    exact hgood.1 hsome
  · rw [hnext]
  · rw [hnext]
  · rw [hnext]

theorem keyseed_of_read {raw : Text} (hanswer : (match choice.failure, state.keyseed with
      | some e, _ => .error (.other e)
      | none, some raw => .ok raw
      | none, none => .error .notFound : Except FileError Text) = .ok raw) :
    state.keyseed = some raw := by
  split at hanswer
  next => contradiction
  next hkeyseed => rw [hkeyseed, Except.ok.inj hanswer]
  next => contradiction

theorem entry_of_read {hex : Text} (hanswer : (match choice.failure, state.entry with
      | some e, _ => .error (.other e)
      | none, some hex => .ok hex
      | none, none => .error .noEntry : Except KeyringError Text) = .ok hex) :
    state.entry = some hex := by
  split at hanswer
  next => contradiction
  next hentry => rw [hentry, Except.ok.inj hanswer]
  next => contradiction

theorem key_step {query : KeyQuery} {answer : query.Answer}
    (hgood : (keyOutline env).good state) (hpermits : KeyPermits phase query)
    (hstable : (keyOutline env).stable state phase) (hsource : state.KeepsSource choice query)
    (hperform : state.perform choice query = some (answer, next)) :
    Grows env state next ∧ (keyOutline env).good next ∧
      (keyOutline env).stable next (phase.observe env query answer) ∧
      (phase ≠ .seeding → state.keyseed = some [] → next.keyseed = state.keyseed) := by
  have hquiet : ∀ {after : KeyPhase}, state = next → (keyOutline env).stable state after →
      Grows env state next ∧ (keyOutline env).good next ∧ (keyOutline env).stable next after ∧
        (phase ≠ .seeding → state.keyseed = some [] → next.keyseed = state.keyseed) := by
    rintro after rfl hafter
    exact ⟨Grows.refl _, hgood, hafter, fun _ _ => rfl⟩
  cases hpermits with
  | openKeyring =>
    exact hquiet (Prod.mk.inj (Option.some.inj hperform)).2 hstable
  | createDirAll =>
    exact hquiet (Prod.mk.inj (Option.some.inj hperform)).2 hstable
  | randomBytes =>
    cases choice with
    | works random => exact hquiet (Prod.mk.inj (Option.some.inj hperform)).2 hstable
    | fails e written => contradiction
  | getPassword =>
    obtain ⟨hanswer, hnext⟩ := Prod.mk.inj (Option.some.inj hperform)
    refine hquiet hnext ?_
    cases answer with
    | error e => exact hstable
    | ok hex =>
      rw [observe_getPassword]
      cases hparse : parse32ByteHex hex with
      | error e => exact hstable
      | ok key =>
        refine .inl ?_
        unfold KeyState.stored
        rw [entry_of_read hanswer, Option.bind_some, hparse]
        rfl
  | setPassword key =>
    cases choice with
    | fails e written =>
      obtain ⟨rfl, hnext⟩ := Prod.mk.inj (Option.some.inj hperform)
      exact hquiet hnext hstable
    | works random =>
      obtain ⟨rfl, hnext⟩ := Prod.mk.inj (Option.some.inj hperform)
      obtain ⟨hstored, hfell⟩ := hsource rfl
      obtain ⟨hgrows, hafter, hkey⟩ := setPassword_step hgood hstored hfell hnext.symm
      refine ⟨hgrows, hafter, ?_, fun _ _ => by rw [← hnext]⟩
      rw [observe_setPassword]
      exact .inl hkey
  | readKeyseed =>
    obtain ⟨hanswer, hnext⟩ := Prod.mk.inj (Option.some.inj hperform)
    obtain ⟨hgrows, hafter⟩ := readKeyseed_step hgood hsource hnext.symm
    have hfell : next.fellBack = true := by rw [← hnext]
    refine ⟨hgrows, hafter, ?_, fun _ _ => by rw [← hnext]⟩
    cases answer with
    | error e => exact hfell
    | ok raw =>
      rw [observe_readKeyseed]
      cases hparse : parseKeyseedHex raw with
      | error e => exact hfell
      | ok seed =>
        refine .inr ⟨hfell, hgrows.localKey _ ?_⟩
        unfold KeyState.localKey
        rw [keyseed_of_read hanswer, Option.bind_some, hparse]
        rfl
  | createKeyseed =>
    simp only [KeyState.perform] at hperform
    split at hperform
    next =>
      obtain ⟨rfl, hnext⟩ := Prod.mk.inj (Option.some.inj hperform)
      exact hquiet hnext hstable
    next =>
      obtain ⟨rfl, hnext⟩ := Prod.mk.inj (Option.some.inj hperform)
      exact hquiet hnext hstable
    next hnone =>
      obtain ⟨rfl, hnext⟩ := Prod.mk.inj (Option.some.inj hperform)
      have hlocal : state.localKey env = none := by
        unfold KeyState.localKey
        rw [hnone]
        rfl
      obtain ⟨hgrows, hafter⟩ := keyseed_step hgood hlocal hnext.symm
      refine ⟨hgrows, hafter, ⟨hgrows.fellBack hstable, by rw [← hnext]⟩, fun _ hempty => ?_⟩
      rw [hnone] at hempty
      contradiction
  | writeKeyseed seed =>
    obtain ⟨hfell, hempty⟩ := hstable
    have hlocal : state.localKey env = none := localKey_of_empty hempty
    cases choice with
    | works random =>
      obtain ⟨rfl, hnext⟩ := Prod.mk.inj (Option.some.inj hperform)
      obtain ⟨hgrows, hafter⟩ := keyseed_step hgood hlocal hnext.symm
      refine ⟨hgrows, hafter, ?_, fun hother => absurd rfl hother⟩
      rw [observe_writeKeyseed]
      refine .inr ⟨hgrows.fellBack hfell, ?_⟩
      unfold KeyState.localKey
      rw [← hnext, Option.bind_some, parseKeyseedHex_toHex]
      rfl
    | fails e written =>
      obtain ⟨rfl, hnext⟩ := Prod.mk.inj (Option.some.inj hperform)
      obtain ⟨hgrows, hafter⟩ := keyseed_step hgood hlocal hnext.symm
      exact ⟨hgrows, hafter, hgrows.fellBack hfell, fun hother => absurd rfl hother⟩
  | returns key =>
    obtain ⟨-, hnext⟩ := Prod.mk.inj (Option.some.inj hperform)
    have hnone : state.encrypted.filter (· ≠ key) = [] := by
      rw [List.filter_eq_nil_iff]
      intro other hother
      simp [hgood.2.1 other hother |>.unique hgood hstable]
    have hsame : state = next := by
      rw [← hnext, hnone]
      rfl
    exact hquiet hsame hstable
  | encrypt key =>
    obtain ⟨-, hnext⟩ := Prod.mk.inj (Option.some.inj hperform)
    have hgrows : Grows env state next := by
      rw [← hnext]
      exact ⟨fun _ hkey => hkey, fun hfell => hfell, fun _ hkey => hkey⟩
    refine ⟨hgrows, ⟨?_, ?_, ?_⟩, hgrows.inForce hstable, fun _ _ => by rw [← hnext]⟩
    · rw [← hnext]
      exact hgood.1
    · intro other hother
      rw [← hnext] at hother
      rcases List.mem_cons.mp hother with rfl | hold
      · exact hgrows.inForce hstable
      · exact hgrows.inForce (hgood.2.1 other hold)
    · rw [← hnext]
      exact hgood.2.2

/-! ## The outline is sound -/

/-- One call at a time has created the seed file and not filled it. -/
def OneSeeder (world : KeyWorld Process) : Prop :=
  ∀ process other task task', world.tasks process = some task → world.tasks other = some task' →
    task.phase = .seeding → task'.phase = .seeding → process = other

theorem serve_eq_some {query : KeyQuery} {answer : query.Answer}
    (hserve : state.serve env choice query = some (answer, next)) :
    ∃ served : KeyState, state.perform choice query = some (answer, served) ∧ next = { served with
        replaced := (state.encrypted.filter fun key =>
          key ∈ state.copies env && key ∉ served.copies env) ++ state.replaced } := by
  obtain ⟨⟨given, served⟩, hperform, hserved⟩ := Option.map_eq_some_iff.mp hserve
  obtain ⟨rfl, rfl⟩ := Prod.mk.inj hserved
  exact ⟨served, hperform, rfl⟩

theorem eq_served {served : KeyState} (hgrows : Grows env state served)
    (hnext : next = { served with
      replaced := (state.encrypted.filter fun key =>
        key ∈ state.copies env && key ∉ served.copies env) ++ state.replaced })
    (hreplaced : served.replaced = state.replaced) : next = served := by
  have hnone : (state.encrypted.filter fun key =>
      key ∈ state.copies env && key ∉ served.copies env) = [] := by
    rw [List.filter_eq_nil_iff]
    intro key _
    by_cases hkey : key ∈ state.copies env
    · simp [hgrows.mem_copies hkey]
    · simp [hkey]
  rw [hnext, hnone, List.nil_append, ← hreplaced]

theorem seeding_of_observe {query : KeyQuery} {answer : query.Answer}
    (hperform : state.perform choice query = some (answer, next))
    (hobserve : phase.observe env query answer = .seeding) :
    phase = .seeding ∨ state.keyseed = none := by
  cases query with
  | openKeyring | randomBytes | createDirAll | returns | encrypt => exact .inl hobserve
  | getPassword =>
    cases answer with
    | error e => exact .inl hobserve
    | ok hex =>
      rw [observe_getPassword] at hobserve
      cases hparse : parse32ByteHex hex with
      | ok key => rw [hparse] at hobserve; contradiction
      | error e => rw [hparse] at hobserve; exact .inl hobserve
  | setPassword hex =>
    cases answer with
    | error e => exact .inl hobserve
    | ok _ =>
      change (parse32ByteHex hex).toOption.elim phase .holds = .seeding at hobserve
      cases hparse : parse32ByteHex hex with
      | ok key => rw [hparse] at hobserve; contradiction
      | error e => rw [hparse] at hobserve; exact .inl hobserve
  | readKeyseed =>
    cases answer with
    | error e => contradiction
    | ok raw =>
      rw [observe_readKeyseed] at hobserve
      cases hparse : parseKeyseedHex raw with
      | ok seed => rw [hparse] at hobserve; contradiction
      | error e => rw [hparse] at hobserve; contradiction
  | createKeyseed =>
    cases answer with
    | error e => exact .inl hobserve
    | ok _ =>
      simp only [KeyState.perform] at hperform
      split at hperform
      next => simp at hperform
      next => simp at hperform
      next hnone => exact .inr hnone
  | writeKeyseed hex =>
    cases answer with
    | error e => contradiction
    | ok _ =>
      change (parseKeyseedHex hex).toOption.elim KeyPhase.fallback _ = .seeding at hobserve
      cases hparse : parseKeyseedHex hex with
      | ok seed => rw [hparse] at hobserve; contradiction
      | error e => rw [hparse] at hobserve; contradiction

theorem key_sound [DecidableEq Process] (hplain : env.Plain) :
    Sound (keyService env) (keyOutline env)
      (fun (world : KeyWorld Process) move => OneSeeder world ∧ OneSource world move) where
  follows _ := key_follows env hplain
  enter _ _ _ := trivial
  finish world process call phase result hholds htask _ _ :=
    ⟨hholds.good, fun other task hother _ => hholds.stable other task hother⟩
  serve world process call phase query resume choice answer next hholds htask hguard hpermits
      hserve := by
    obtain ⟨served, hperform, hnext⟩ := serve_eq_some hserve
    have hself := hholds.stable process _ htask
    obtain ⟨hgrows, hgood, hafter, hkeyseed⟩ := key_step hholds.good hpermits hself
      (hguard.2 call phase query resume htask) hperform
    have hreplaced : served.replaced = world.shared.replaced :=
      hgood.2.2.2.trans hholds.good.2.2.2.symm
    obtain rfl := eq_served hgrows hnext hreplaced
    refine ⟨hgood, hafter, fun other task hother hne => ?_⟩
    have hstable := hholds.stable other task hother
    refine hgrows.stable (fun hseeding => ?_) hstable
    rw [hseeding] at hstable
    -- Nobody else fills the file.
    refine hkeyseed (fun hsame => ?_) hstable.2
    exact hne (hguard.1 other process task _ hother htask hseeding hsame)

theorem OneSeeder.step [DecidableEq Process] {world after : KeyWorld Process}
    {move : Move Process KeyCall KeyChoice} (hone : OneSeeder world)
    (hholds : Holds (keyService env) (keyOutline env) world)
    (hstep : (keyService env).step world move = some after) : OneSeeder after := by
  have hexclusive : Exclusive (fun phase (_ : Unit) => phase = .seeding) world :=
    fun first second task task' _ => hone first second task task'
  intro first second task task' hfirst hsecond
  apply hexclusive.step _ _ hstep first second task task' () hfirst hsecond
  · intro process call _ _ hseeding
    contradiction
  · intro process choice call phase query resume answer shared _ hserve _ hseeding
    obtain ⟨served, hperform, -⟩ := serve_eq_some hserve
    rcases seeding_of_observe hperform hseeding with hsame | hnone
    · exact .inl hsame
    · -- A seed file that is being filled is there.
      refine .inr fun other task' hother hseeding' => ?_
      have hstable := hholds.stable other task' hother
      rw [hseeding'] at hstable
      have hempty : world.shared.keyseed = some [] := hstable.2
      rw [hnone] at hempty
      contradiction

/-- Nothing is encrypted yet; the store and the seed file hold anything. -/
def KeyState.before (entry keyseed : Option Text) : KeyState where
  entry := entry
  keyseed := keyseed
  fellBack := false
  encrypted := []
  strayed := []
  replaced := []

/-- In every run in which keys come from one source, no key that a secret was encrypted under is
passed by or written over. -/
theorem keys_readable_of_run [DecidableEq Process] (hplain : env.Plain)
    {entry keyseed : Option Text} {schedule : List (Move Process KeyCall KeyChoice)}
    {world : KeyWorld Process}
    (hrun : Run (keyService env).step OneSource (start (.before entry keyseed)) schedule world) :
    world.shared.KeysReadable := by
  have hstart : Holds (keyService env) (keyOutline env)
      (start (.before entry keyseed) : KeyWorld Process) :=
    Holds.start ⟨fun _ => rfl, fun _ hkey => (nomatch hkey), rfl, rfl⟩
  have hnobody : OneSeeder (start (.before entry keyseed) : KeyWorld Process) := by
    intro first second task task' hfirst
    contradiction
  have hstep : ∀ (world : KeyWorld Process) move after,
      Holds (keyService env) (keyOutline env) world ∧ OneSeeder world → OneSource world move →
      (keyService env).step world move = some after →
      Holds (keyService env) (keyOutline env) after ∧ OneSeeder after := by
    rintro world move after ⟨hholds, hone⟩ hsource hstep
    exact ⟨hholds.step (key_sound hplain) ⟨hone, hsource⟩ hstep, hone.step hholds hstep⟩
  exact (hrun.invariant hstep ⟨hstart, hnobody⟩).1.good.2.2

def plainKeyEnv : KeyEnv where
  masterKeyHex := none
  debugKey := none
  isCi := false
  keyseedPath := []
  deriveKey := id

def repeatedByte (byte : UInt8) : Bytes32 where
  bytes := List.replicate 32 byte
  length_bytes := List.length_replicate

def firstRun : List (Move Bool KeyCall KeyChoice) :=
  .call false (.session [true]) :: List.replicate 6 (.serve false (.works (repeatedByte 0)))

/-- A second process looks the key up after the secret was encrypted. -/
def laterRead : List (Move Bool KeyCall KeyChoice) :=
  [.finish false, .call true (.session [false])] ++
    List.replicate 3 (.serve true (.works (repeatedByte 1))) ++ [.finish true]

theorem keys_readable_after_first_run :
    ∃ world : KeyWorld Bool, Run (keyService plainKeyEnv).step OneSource
      (start (.before none none)) (firstRun ++ laterRead) world ∧
      world.shared.encrypted = [repeatedByte 0] ∧ world.tasks true = none ∧
      world.shared.KeysReadable := by
  have hrun : ∃ world : KeyWorld Bool, Run (keyService plainKeyEnv).step OneSource
      (start (.before none none)) (firstRun ++ laterRead) world ∧
      world.shared.encrypted = [repeatedByte 0] ∧ world.tasks true = none := by
    refine ⟨_, .cons trivial rfl (.cons ?_ rfl (.cons ?_ rfl (.cons ?_ rfl (.cons ?_ rfl
      (.cons ?_ rfl (.cons ?_ rfl (.cons trivial rfl (.cons trivial rfl (.cons ?_ rfl
      (.cons ?_ rfl (.cons ?_ rfl (.cons trivial rfl (.nil _))))))))))))), rfl, rfl⟩
    all_goals
      intro call phase query resume htask
      cases htask
      first
        | exact trivial
        | exact fun _ => ⟨rfl, rfl⟩
  obtain ⟨world, hworld, hencrypted, hended⟩ := hrun
  exact ⟨world, hworld, hencrypted, hended, keys_readable_of_run ⟨rfl, rfl, rfl⟩ hworld⟩

def lockedRead : List (Move Bool KeyCall KeyChoice) := [ .call true (.session [true]),
    .serve true (.works (repeatedByte 1)),
    .serve true (.fails "locked" 0),
    .serve true (.works (repeatedByte 1)),
    .serve true (.works (repeatedByte 1)),
    .serve true (.works (repeatedByte 1)) ]

theorem unreadable_store_is_written_over : ¬ ∀ (env : KeyEnv) (entry keyseed : Option Text)
      (schedule : List (Move Bool KeyCall KeyChoice)) (world : KeyWorld Bool), env.Plain →
      Run (keyService env).step (fun _ _ => True) (start (.before entry keyseed)) schedule world →
        world.shared.KeysReadable := by
  intro hall
  have hrun : ∃ world : KeyWorld Bool, Run (keyService plainKeyEnv).step (fun _ _ => True)
      (start (.before none none)) (firstRun ++ lockedRead) world ∧
      world.shared.strayed = [(repeatedByte 0, repeatedByte 1)] :=
    ⟨_, Run.of_execute rfl, rfl⟩
  obtain ⟨world, hworld, hstrayed⟩ := hrun
  have hnone := (hall plainKeyEnv none none _ world ⟨rfl, rfl, rfl⟩ hworld).1
  rw [hstrayed] at hnone
  contradiction

end Difflore.Infra

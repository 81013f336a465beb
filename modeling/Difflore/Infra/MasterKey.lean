import Difflore.Foundation.Interleaving
import Difflore.Infra.Hex

/-! # The master key

Stored secrets are encrypted under one key. It lives in the credential store of the system;
where that fails, it is derived from a seed file. Any number of processes look the key up, make
one if they find none, and encrypt, one access to the store or the file at a time.
-/

namespace Difflore.Infra

open Foundation Text

abbrev Key := Bytes32

/-- `noEntry` and any other failure are told apart by the store alone. -/
inductive KeyringError
  | noEntry
  | other (e : Text)

inductive FileError
  | notFound
  | alreadyExists
  | other (e : Text)

inductive KeyseedReadError
  | notFound
  | invalid (e : Text)
  | io (e : Text)

def KeyseedReadError.intoMessage : KeyseedReadError → Text
  | .notFound => "keyseed not found"
  | .invalid e | .io e => e

/-- `openKeyring` starts the worker thread, opens the entry and waits in time; `returns` is the
end of a call, which only history variables see. -/
inductive KeyQuery
  | openKeyring
  | getPassword
  | randomBytes
  | setPassword (hex : Text)
  | readKeyseed
  | createDirAll
  | createKeyseed
  | writeKeyseed (hex : Text)
  | returns (key : Key)
  | encrypt (key : Key)

abbrev KeyQuery.Answer : KeyQuery → Type
  | .openKeyring | .setPassword _ | .createDirAll | .writeKeyseed _ => Except Text PUnit
  | .getPassword => Except KeyringError Text
  | .randomBytes => Bytes32
  | .readKeyseed => Except FileError Text
  | .createKeyseed => Except FileError PUnit
  | .returns _ | .encrypt _ => PUnit

abbrev KeySteps := Program KeyQuery KeyQuery.Answer

def internalError (msg : Text) : Text := "Internal error: " ++ msg

def randomBytes : KeySteps Bytes32 := .ask .randomBytes .done

def createKeyringKey : KeySteps (Except Text Key) := do
  let key ← randomBytes
  match ← (.ask (.setPassword (toHex key.bytes)) .done : KeySteps (Except Text PUnit)) with
  | .ok _ => pure (.ok key)
  | .error e => pure (.error ("keyring set error: " ++ e))

def tryKeyringKeyInner : KeySteps (Except Text Key) := do
  match ← (.ask .openKeyring .done : KeySteps (Except Text PUnit)) with
  | .error e => pure (.error e)
  | .ok _ =>
    match ← (.ask .getPassword .done : KeySteps (Except KeyringError Text)) with
    | .ok hex =>
      match parse32ByteHex hex with
      | .ok key => pure (.ok key)
      | .error .panics => pure (.error "keyring worker exited unexpectedly")
      | .error .invalid => createKeyringKey
    -- A store that has no entry and a store that cannot be read are treated alike.
    | .error _ => createKeyringKey

def parseKeyseedHex (raw : Text) : Except Text Bytes32 :=
  let trimmed := trim raw
  if byteLength trimmed ≠ 64 then
    .error ("expected 64 lowercase hex characters, got " ++ (toString (byteLength trimmed)).toList)
  else if !trimmed.all fun c => (hexValue c).isSome && !c.isUpper then
    .error "expected lowercase hex keyseed"
  else
    match parse32ByteHex trimmed with
    | .ok seed => .ok seed
    | .error _ => .error "invalid digit found in string"

/-- The variables and files that override the lookup, and what the seed is mixed with. -/
structure KeyEnv where
  masterKeyHex : Option Text
  debugKey : Option Key
  isCi : Bool
  keyseedPath : Text
  deriveKey : Bytes32 → Key

variable (env : KeyEnv)

def readExistingKeyseed : KeySteps (Except KeyseedReadError Bytes32) := do
  match ← (.ask .readKeyseed .done : KeySteps (Except FileError Text)) with
  | .ok raw =>
    match parseKeyseedHex raw with
    | .ok seed => pure (.ok seed)
    | .error e => pure (.error (.invalid
        ("invalid keyseed " ++ env.keyseedPath ++ ": " ++ internalError e)))
  | .error .notFound => pure (.error .notFound)
  | .error .alreadyExists => pure (.error (.io
      ("could not read keyseed " ++ env.keyseedPath ++ ": already exists")))
  | .error (.other e) => pure (.error (.io
      ("could not read keyseed " ++ env.keyseedPath ++ ": " ++ e)))

def writeNewKeyseed (seed : Bytes32) : KeySteps (Except FileError PUnit) := do
  match ← (.ask .createKeyseed .done : KeySteps (Except FileError PUnit)) with
  | .error e => pure (.error e)
  | .ok _ =>
    match ← (.ask (.writeKeyseed (toHex seed.bytes)) .done : KeySteps (Except Text PUnit)) with
    | .ok _ => pure (.ok ⟨⟩)
    | .error e => pure (.error (.other e))

def createLocalKeyseed : KeySteps (Except Text Bytes32) := do
  match ← (.ask .createDirAll .done : KeySteps (Except Text PUnit)) with
  | .error e => pure (.error ("could not create keyseed directory: " ++ e))
  | .ok _ =>
    let seed ← randomBytes
    match ← writeNewKeyseed seed with
    | .ok _ => pure (.ok seed)
    | .error .alreadyExists =>
      match ← readExistingKeyseed env with
      | .ok seed => pure (.ok seed)
      | .error e => pure (.error e.intoMessage)
    | .error .notFound => pure (.error
        ("could not create keyseed " ++ env.keyseedPath ++ ": not found"))
    | .error (.other e) => pure (.error
        ("could not create keyseed " ++ env.keyseedPath ++ ": " ++ e))

def loadOrCreateLocalKeyseed : KeySteps (Except Text Bytes32) := do
  match ← readExistingKeyseed env with
  | .ok seed => pure (.ok seed)
  | .error .notFound => createLocalKeyseed env
  | .error (.invalid e) => pure (.error e)
  | .error (.io e) => pure (.error e)

def isKeyringTimeoutError (err : Text) : Bool := decide ("keyring access timed out" <:+: err)

def localFallbackKeyForKeyringError (err : Text) : KeySteps (Except Text Key) :=
  if env.isCi then
    pure (.error ("OS keyring unavailable (" ++ err ++ ") and running on CI. " ++
      "Set DIFFLORE_MASTER_KEY=<64-char-hex> to persist encrypted state; " ++
      "refusing local fallback key derivation because CI storage is often ephemeral."))
  else do
    match ← loadOrCreateLocalKeyseed env with
    | .ok seed => pure (.ok (env.deriveKey seed))
    | .error seedErr => pure (.error ("OS keyring unavailable (" ++ err ++
        ") and local fallback keyseed unavailable: " ++ internalError seedErr))

def masterKeyFromKeyringResult : Except Text Key → KeySteps (Except Text Key)
  | .ok key => pure (.ok key)
  | .error err =>
    if isKeyringTimeoutError (internalError err) then pure (.error err)
    else localFallbackKeyForKeyringError env (internalError err)

def lookUpMasterKey : KeySteps (Except Text Key) := do
  let keyring ← tryKeyringKeyInner
  masterKeyFromKeyringResult env keyring

/-- `cached` is the `MASTER_KEY` of the process. -/
def getOrCreateMasterKey (cached : Option Key) : KeySteps (Except Text Key) :=
  match cached with
  | some key => do
      (.ask (.returns key) .done : KeySteps PUnit)
      pure (.ok key)
  | none => do
      let found ← match env.masterKeyHex with
        | some hex =>
          match parse32ByteHex (trim hex) with
          | .ok key => pure (.ok key)
          | .error _ => lookUpMasterKey env
        | none =>
          match env.debugKey with
          | some key => pure (.ok key)
          | none => lookUpMasterKey env
      match found with
      | .ok key => do
          (.ask (.returns key) .done : KeySteps PUnit)
          pure (.ok key)
      | .error e => pure (.error e)

/-- A process looks the key up again and again, and encrypts a secret or does not. -/
def keySession : List Bool → Option Key → KeySteps PUnit
  | [], _ => pure ⟨⟩
  | encrypts :: rest, cached => do
      match ← getOrCreateMasterKey env cached with
      | .error _ => keySession rest cached
      | .ok key =>
        if encrypts then do
          (.ask (.encrypt key) .done : KeySteps PUnit)
          keySession rest (some key)
        else keySession rest (some key)

inductive KeyCall
  | session (rounds : List Bool)
  | worker

def KeyCall.program : KeyCall → KeySteps PUnit
  | .session rounds => keySession env rounds none
  | .worker => do
      let _ ← tryKeyringKeyInner
      pure ⟨⟩

/-- History variables: whether some process has turned to the seed file, the keys that secrets
were encrypted under, such keys with a different one that a call returned afterwards, and such
keys whose stored copy is gone. -/
structure KeyState where
  entry : Option Text
  keyseed : Option Text
  fellBack : Bool
  encrypted : List Key
  strayed : List (Key × Key)
  replaced : List Key

/-- The choice of the surroundings: a call succeeds, with these random bytes, or fails with a
text; a file that cannot be written is left with a part. -/
inductive KeyChoice
  | works (random : Bytes32)
  | fails (e : Text) (written : Nat)

def KeyChoice.failure : KeyChoice → Option Text
  | .works _ => none
  | .fails e _ => some e

namespace KeyState

def stored (state : KeyState) : Option Key :=
  state.entry.bind fun hex => (parse32ByteHex hex).toOption

def localKey (state : KeyState) : Option Key :=
  (state.keyseed.bind fun raw => (parseKeyseedHex raw).toOption).map env.deriveKey

def copies (state : KeyState) : List Key := state.stored.toList ++ (state.localKey env).toList

def perform (state : KeyState) (choice : KeyChoice) :
    (query : KeyQuery) → Option (query.Answer × KeyState)
  | .openKeyring => some (choice.failure.elim (.ok ⟨⟩) .error, state)
  | .getPassword =>
    some (match choice.failure, state.entry with
      | some e, _ => .error (.other e)
      | none, some hex => .ok hex
      | none, none => .error .noEntry, state)
  | .randomBytes =>
    match choice with
    | .works random => some (random, state)
    | .fails _ _ => none
  | .setPassword hex =>
    match choice.failure with
    | some e => some (.error e, state)
    | none => some (.ok ⟨⟩, { state with entry := some hex })
  | .readKeyseed =>
    some (match choice.failure, state.keyseed with
      | some e, _ => .error (.other e)
      | none, some raw => .ok raw
      | none, none => .error .notFound, { state with fellBack := true })
  | .createDirAll => some (choice.failure.elim (.ok ⟨⟩) .error, state)
  | .createKeyseed =>
    match choice.failure, state.keyseed with
    | some e, _ => some (.error (.other e), state)
    | none, some _ => some (.error .alreadyExists, state)
    | none, none => some (.ok ⟨⟩, { state with keyseed := some [] })
  | .writeKeyseed hex =>
    match choice with
    | .works _ => some (.ok ⟨⟩, { state with keyseed := some hex })
    | .fails e written => some (.error e, { state with keyseed := some (hex.take written) })
  | .returns key =>
    some (⟨⟩, { state with
      strayed := (state.encrypted.filter (· ≠ key)).map (·, key) ++ state.strayed })
  | .encrypt key => some (⟨⟩, { state with encrypted := key :: state.encrypted })

/-- A step, and the keys that secrets are encrypted under whose copy it did away with. -/
def serve (state : KeyState) (choice : KeyChoice) (query : KeyQuery) :
    Option (query.Answer × KeyState) :=
  (state.perform choice query).map fun served =>
    (served.1, { served.2 with
      replaced := (state.encrypted.filter fun key =>
          key ∈ state.copies env && key ∉ served.2.copies env) ++ state.replaced })

end KeyState

/-- What a process has come to know: a key that is in force, that it has turned to the seed
file, or that it has created it and not filled it. -/
inductive KeyPhase
  | idle
  | fallback
  | seeding
  | holds (key : Key)

def KeyPhase.observe (phase : KeyPhase) : (query : KeyQuery) → query.Answer → KeyPhase
  | .getPassword, .ok hex => ((parse32ByteHex hex).toOption).elim phase .holds
  | .setPassword hex, .ok _ => ((parse32ByteHex hex).toOption).elim phase .holds
  | .readKeyseed, .ok raw =>
    ((parseKeyseedHex raw).toOption).elim .fallback fun seed => .holds (env.deriveKey seed)
  | .readKeyseed, .error _ => .fallback
  | .createKeyseed, .ok _ => .seeding
  | .writeKeyseed hex, .ok _ =>
    ((parseKeyseedHex hex).toOption).elim .fallback fun seed => .holds (env.deriveKey seed)
  | .writeKeyseed _, .error _ => .fallback
  | _, _ => phase

def keyService : Service KeyQuery KeyQuery.Answer PUnit KeyCall KeyState KeyPhase KeyChoice where
  program := KeyCall.program env
  enter := fun _ _ => .idle
  serve := fun state _ choice query => state.serve env choice query
  observe := fun _ phase => phase.observe env
  finish := fun state _ _ => state

end Difflore.Infra

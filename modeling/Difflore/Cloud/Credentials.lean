import Difflore.Foundation.Interleaving
import Difflore.Foundation.Text

/-! # The saved cloud credentials

The token, the refresh token and the origin that issued them are separate rows of one
database. Logins, refreshes, logouts and loads are programs of single statements on it, and
of requests to the configured cloud.
-/

namespace Difflore.Cloud

open Foundation Text

abbrev Origin := Text

def defaultApiBase (debugAssertions : Bool) : Text :=
  if debugAssertions then "http://127.0.0.1:3017/api" else "https://difflore.dev/api"

/-- `scheme://host[:port]` of a URL, in lower case. -/
def originOf (url : Text) : Origin :=
  let trimmed := trim url
  match beforeFirst "://" trimmed, afterFirst "://" trimmed with
  | some scheme, some rest =>
    toAsciiLowercase scheme ++ "://" ++ toAsciiLowercase (rest.takeWhile (· ≠ '/'))
  | _, _ => trimmed

structure Config (debugAssertions : Bool) where
  cloudUrl : Option Text
  legacyCloudUrl : Option Text
  cloudToken : Option Text

namespace Config

variable {debug : Bool} (config : Config debug)

def envApiBase (value : Option Text) : Option Text := (value.map trim).filter (· ≠ [])

def apiBase : Text := ((envApiBase config.cloudUrl).or (envApiBase config.legacyCloudUrl)).getD
    (defaultApiBase debug)

def apiOrigin : Origin := originOf config.apiBase

/-- The token that the environment gives, which is not a saved one. -/
def explicitEnvToken : Option Text := (config.cloudToken.map trim).filter (· ≠ [])

end Config

def defaultApiOrigin (debugAssertions : Bool) : Origin := originOf (defaultApiBase debugAssertions)

/-- A token with the origin that issued it. The database holds the text. -/
structure Credential where
  text : Text
  issuer : Origin

def Credential.trim (credential : Credential) : Credential :=
  { credential with text := Text.trim credential.text }

inductive AuthKey
  | token
  | refreshToken
  | tokenHost
  | loginNonce
  deriving DecidableEq

abbrev AuthKey.Value : AuthKey → Type
  | .token => Credential
  | .refreshToken => Credential
  | .tokenHost => Origin
  | .loginNonce => Text

abbrev AuthDb := (key : AuthKey) → Option key.Value

def AuthDb.empty : AuthDb := fun _ => none

structure IssuedTokens (origin : Origin) where
  token : Text
  refreshToken : Option Text

def IssuedTokens.credential {origin : Origin} (tokens : IssuedTokens origin) : Credential :=
  ⟨tokens.token, origin⟩

def IssuedTokens.refreshCredential {origin : Origin} (tokens : IssuedTokens origin) :
    Option Credential :=
  tokens.refreshToken.map (⟨·, origin⟩)

inductive SendPhase
  | initial
  | retry

inductive Response
  | unauthorized
  | other

inductive AuthQuery
  | load (key : AuthKey)
  | save (key : AuthKey) (value : key.Value)
  | delete (key : AuthKey)
  | exchange (apiBase : Text) (refreshToken : Credential)
  | send (bearer : Option Credential)

/-- A load that fails, or whose value does not decrypt, is answered like a missing row. -/
abbrev AuthQuery.Answer : AuthQuery → Type
  | .load key => Option key.Value
  | .save _ _ => Bool
  | .delete _ => Bool
  | .exchange apiBase _ => Option (IssuedTokens (originOf apiBase))
  | .send _ => Option Response

abbrev Auth := Program AuthQuery AuthQuery.Answer

def loadEncryptedAuthKey (key : AuthKey) : Auth (Option key.Value) := .ask (.load key) .done

def saveEncryptedAuthKey (key : AuthKey) (value : key.Value) : Auth Bool :=
  .ask (.save key value) .done

def deleteAuthKey (key : AuthKey) : Auth Bool := .ask (.delete key) .done

def exchange (apiBase : Text) (refreshToken : Credential) :
    Auth (Option (IssuedTokens (originOf apiBase))) :=
  .ask (.exchange apiBase refreshToken) .done

def send (bearer : Option Credential) : Auth (Option Response) := .ask (.send bearer) .done

def ifSaved (statement rest : Auth Bool) : Auth Bool := do
  if ← statement then rest else pure false

def saveToken (token : Credential) : Auth Bool :=
  ifSaved (saveEncryptedAuthKey .token token) (deleteAuthKey .loginNonce)

def saveRefreshToken (refreshToken : Credential) : Auth Bool :=
  saveEncryptedAuthKey .refreshToken refreshToken

def clearToken : Auth Bool :=
  ifSaved (deleteAuthKey .token) (ifSaved (deleteAuthKey .refreshToken) (deleteAuthKey .tokenHost))

/-- A token as `load_token` finds it: in the environment, or saved. -/
inductive LoadedToken
  | env (text : Text)
  | saved (credential : Credential)

section Configured

variable {debug : Bool}

def saveLoginTokens (config : Config debug) (token : Credential)
    (refreshToken : Option Credential) :
    Auth Bool :=
  let saveRefresh := match (refreshToken.map Credential.trim).filter (·.text ≠ []) with
    | some refreshToken => saveRefreshToken refreshToken
    | none => deleteAuthKey .refreshToken
  ifSaved (saveToken token) (ifSaved saveRefresh (saveEncryptedAuthKey .tokenHost config.apiOrigin))

/-- Credentials without a stored host are taken to belong to the default origin. -/
def savedCredentialHostMatchesCurrent (config : Config debug) : Auth Bool := do
  match ← loadEncryptedAuthKey .tokenHost with
  | some stored => pure (stored = config.apiOrigin)
  | none => pure (config.apiOrigin = defaultApiOrigin debug)

def loadSaved (config : Config debug) (key : AuthKey) : Auth (Option key.Value) := do
  match ← loadEncryptedAuthKey key with
  | some value =>
    if ← savedCredentialHostMatchesCurrent config then pure (some value) else pure none
  | none => pure none

def loadToken (config : Config debug) : Auth (Option LoadedToken) :=
  match config.explicitEnvToken with
  | some text => pure (some (.env text))
  | none => do
      let saved ← loadSaved config .token
      pure (saved.map .saved)

def loadRefreshToken (config : Config debug) : Auth (Option Credential) :=
  loadSaved config .refreshToken

def refreshSavedToken (config : Config debug) : Auth (Option Credential) := do
  match ← loadRefreshToken config with
  | none => pure none
  | some refreshToken =>
    match ← exchange config.apiBase refreshToken with
    | none => pure none
    | some tokens =>
      if ← saveLoginTokens config tokens.credential tokens.refreshCredential then
        pure (some tokens.credential)
      else pure none

/-- One refresh and one retry, when the first response is `401 Unauthorized`. -/
def sendWithRefresh (config : Config debug) (bearer : Option Credential) :
    Auth (Except SendPhase Response) := do
  match ← send bearer with
  | none => pure (.error .initial)
  | some .other => pure (.ok .other)
  | some .unauthorized =>
    match ← refreshSavedToken config with
    | none => pure (.ok .unauthorized)
    | some refreshed =>
      match ← send (some refreshed) with
      | none => pure (.error .retry)
      | some response => pure (.ok response)

end Configured

/-! ## Calls -/

/-- A login saves the tokens that the configured origin has issued to it. -/
inductive AuthCall (debug : Bool)
  | login (config : Config debug) (tokens : IssuedTokens config.apiOrigin)
  | loadToken (config : Config debug)
  | loadRefreshToken (config : Config debug)
  | refreshSavedToken (config : Config debug)
  | sendWithRefresh (config : Config debug) (bearer : Option Credential)
  | clearToken

inductive AuthOutcome
  | done (ok : Bool)
  | token (token : Option LoadedToken)
  | refreshToken (refreshToken : Option Credential)
  | refreshed (token : Option Credential)
  | sent (response : Except SendPhase Response)

def AuthCall.program {debug : Bool} : AuthCall debug → Auth AuthOutcome
  | .login config tokens => do
      let ok ← saveLoginTokens config tokens.credential tokens.refreshCredential
      pure (.done ok)
  | .loadToken config => do
      let token ← Cloud.loadToken config
      pure (.token token)
  | .loadRefreshToken config => do
      let refreshToken ← Cloud.loadRefreshToken config
      pure (.refreshToken refreshToken)
  | .refreshSavedToken config => do
      let token ← Cloud.refreshSavedToken config
      pure (.refreshed token)
  | .sendWithRefresh config bearer => do
      let response ← Cloud.sendWithRefresh config bearer
      pure (.sent response)
  | .clearToken => do
      let ok ← Cloud.clearToken
      pure (.done ok)

/-- What the environment decides: whether a statement works, and how the cloud answers. -/
inductive AuthChoice
  | ok
  | fails
  | issues (token : Text) (refreshToken : Option Text)
  | responds (response : Response)

def AuthDb.serve (db : AuthDb) : AuthChoice → (query : AuthQuery) → Option (query.Answer × AuthDb)
  | .ok, .load key => some (db key, db)
  | .ok, .save key value => some (true, Function.update db key (some value))
  | .ok, .delete key => some (true, Function.update db key none)
  | .fails, .load _ => some (none, db)
  | .fails, .save _ _ => some (false, db)
  | .fails, .delete _ => some (false, db)
  | .fails, .exchange _ _ => some (none, db)
  | .fails, .send _ => some (none, db)
  | .issues token refreshToken, .exchange _ _ => some (some ⟨token, refreshToken⟩, db)
  | .responds response, .send _ => some (some response, db)
  | _, _ => none

/-- The answers to a call that runs alone, with every statement working and the cloud out of
reach. -/
def AuthDb.answer (db : AuthDb) : (query : AuthQuery) → query.Answer × AuthDb
  | .load key => (db key, db)
  | .save key value => (true, Function.update db key (some value))
  | .delete key => (true, Function.update db key none)
  | .exchange _ _ => (none, db)
  | .send _ => (none, db)

theorem follows_ifSaved {Result Call State Phase Choice : Type}
    {service : Service AuthQuery AuthQuery.Answer Result Call State Phase Choice}
    {permits : Phase → AuthQuery → Prop} {middle post : Phase → Bool → Prop} {phase : Phase}
    {statement rest : Auth Bool} (hstatement : service.Follows permits middle phase statement)
    (hfailed : ∀ after, middle after false → post after false)
    (hworked : ∀ after, middle after true → service.Follows permits post after rest) :
    service.Follows permits post phase (ifSaved statement rest) := by
  refine hstatement.bind fun after ok hafter => ?_
  cases ok with
  | true => exact hworked after hafter
  | false => exact hfailed after hafter

namespace AuthDb

variable {db next : AuthDb} {choice : AuthChoice}

theorem load_served {key : AuthKey} {answer : Option key.Value}
    (hserve : db.serve choice (.load key) = some (answer, next)) :
    next = db ∧ (choice = .ok ∧ answer = db key ∨ choice = .fails ∧ answer = none) := by
  cases choice with
  | ok =>
    obtain ⟨rfl, rfl⟩ := Prod.mk.inj (Option.some.inj hserve)
    exact ⟨rfl, .inl ⟨rfl, rfl⟩⟩
  | fails =>
    obtain ⟨rfl, rfl⟩ := Prod.mk.inj (Option.some.inj hserve)
    exact ⟨rfl, .inr ⟨rfl, rfl⟩⟩
  | issues token refreshToken => contradiction
  | responds response => contradiction

theorem write_served (reply : AuthChoice → Option (Bool × AuthDb)) {written : AuthDb}
    {answer : Bool}
    (hok : reply .ok = some (true, written)) (hfails : reply .fails = some (false, db))
    (hissues : ∀ token refreshToken, reply (.issues token refreshToken) = none)
    (hresponds : ∀ response, reply (.responds response) = none)
    (hserve : reply choice = some (answer, next)) :
    choice = .ok ∧ answer = true ∧ next = written ∨ answer = false ∧ next = db := by
  cases choice with
  | ok =>
    obtain ⟨rfl, rfl⟩ := Prod.mk.inj (Option.some.inj (hok.symm.trans hserve))
    exact .inl ⟨rfl, rfl, rfl⟩
  | fails =>
    obtain ⟨rfl, rfl⟩ := Prod.mk.inj (Option.some.inj (hfails.symm.trans hserve))
    exact .inr ⟨rfl, rfl⟩
  | issues token refreshToken => exact nomatch (hissues token refreshToken).symm.trans hserve
  | responds response => exact nomatch (hresponds response).symm.trans hserve

theorem save_served {key : AuthKey} {value : key.Value} {answer : Bool}
    (hserve : db.serve choice (.save key value) = some (answer, next)) :
    choice = .ok ∧ answer = true ∧ next = Function.update db key (some value) ∨
      answer = false ∧ next = db :=
  write_served (db.serve · (.save key value)) rfl rfl (fun _ _ => rfl) (fun _ => rfl) hserve

theorem delete_served {key : AuthKey} {answer : Bool}
    (hserve : db.serve choice (.delete key) = some (answer, next)) :
    choice = .ok ∧ answer = true ∧ next = Function.update db key none ∨
      answer = false ∧ next = db :=
  write_served (db.serve · (.delete key)) rfl rfl (fun _ _ => rfl) (fun _ => rfl) hserve

theorem exchange_served {apiBase : Text} {refreshToken : Credential}
    {answer : Option (IssuedTokens (originOf apiBase))}
    (hserve : db.serve choice (.exchange apiBase refreshToken) = some (answer, next)) :
    next = db := by
  cases choice with
  | fails => exact (Prod.mk.inj (Option.some.inj hserve)).2.symm
  | issues token refreshToken => exact (Prod.mk.inj (Option.some.inj hserve)).2.symm
  | ok => contradiction
  | responds response => contradiction

theorem send_served {bearer : Option Credential} {answer : Option Response}
    (hserve : db.serve choice (.send bearer) = some (answer, next)) : next = db := by
  cases choice with
  | fails => exact (Prod.mk.inj (Option.some.inj hserve)).2.symm
  | responds response => exact (Prod.mk.inj (Option.some.inj hserve)).2.symm
  | ok => contradiction
  | issues token refreshToken => contradiction

end AuthDb

def production : Config false where
  cloudUrl := none
  legacyCloudUrl := none
  cloudToken := none

end Difflore.Cloud

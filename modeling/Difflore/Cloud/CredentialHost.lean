import Difflore.Cloud.Credentials

/-! # Saved credentials and the origin they are sent to

The host row binds the credentials to an origin, and it is written after them and read after
them. A row of a save that has not written the host yet belongs to the origin of that save;
any other row belongs to the origin that the host row names.
-/

namespace Difflore.Cloud

open Foundation Foundation.Service

section Binding

variable {debug : Bool}

/-- The database, with the origin of the save that wrote a row and has not written the host
since. -/
structure BindingState (debug : Bool) where
  db : AuthDb
  pending : AuthKey → Option Origin

namespace BindingState

/-- The origin that the host row names; a missing row names the default origin. -/
def boundTo (state : BindingState debug) : Origin :=
  (state.db .tokenHost).getD (defaultApiOrigin debug)

def owner (state : BindingState debug) (key : AuthKey) : Origin :=
  (state.pending key).getD state.boundTo

end BindingState

/-- What a call has come to: nothing it needs credentials for, a load before its first and
before its second read, a load that vouches for what it found, a save, or a logout. -/
inductive BindingPhase
  | idle
  | loading (origin : Origin)
  | holding (origin : Origin) (credential : Credential) (owner : Origin)
  | vouched (origin : Origin) (credential : Credential)
  | saving (origin : Origin)
  | clearing

namespace BindingPhase

def enter : AuthCall debug → BindingPhase
  | .login config _ => .saving config.apiOrigin
  | .loadToken config => .loading config.apiOrigin
  | .loadRefreshToken config => .loading config.apiOrigin
  | .refreshSavedToken config => .loading config.apiOrigin
  | .sendWithRefresh config _ => .loading config.apiOrigin
  | .clearToken => .clearing

def observe (state : BindingState debug) :
    BindingPhase → (query : AuthQuery) → query.Answer → BindingPhase
  | .loading origin, .load .token, some credential =>
    .holding origin credential (state.owner .token)
  | .loading origin, .load .refreshToken, some credential =>
    .holding origin credential (state.owner .refreshToken)
  | .loading _, .load _, none => .idle
  | .holding origin credential _, .load .tokenHost, stored =>
    if stored.getD (defaultApiOrigin debug) = origin then .vouched origin credential
    else .idle
  | .vouched origin _, .exchange _ _, some _ => .saving origin
  | .vouched _ _, .exchange _ _, none => .idle
  | phase, _, _ => phase

end BindingPhase

def BindingState.note (pending : AuthKey → Option Origin) :
    BindingPhase → (query : AuthQuery) → query.Answer → AuthKey → Option Origin
  | .saving origin, .save .token _, true => Function.update pending .token (some origin)
  | .saving origin, .save .refreshToken _, true =>
    Function.update pending .refreshToken (some origin)
  | .saving origin, .save .tokenHost _, true => fun key =>
    if pending key = some origin then none else pending key
  | _, .delete key, true => Function.update pending key none
  | _, _, _ => pending

def bindingService (debug : Bool) : Service AuthQuery AuthQuery.Answer AuthOutcome (AuthCall debug)
      (BindingState debug) BindingPhase AuthChoice where
  program := AuthCall.program
  enter := fun _ => BindingPhase.enter
  serve := fun state phase choice query => (state.db.serve choice query).map fun served =>
    (served.1, ⟨served.2, BindingState.note state.pending phase query served.1⟩)
  observe := BindingPhase.observe
  finish := fun state _ _ => state

abbrev BindingWorld (debug : Bool) (Process : Type) :=
  World AuthQuery AuthQuery.Answer AuthOutcome (AuthCall debug)
    (BindingState debug) BindingPhase Process

variable {Process : Type}

/-- Every saved credential that a load returns, and every refresh token that a refresh sends
to be exchanged, was issued by the origin the process is configured for. -/
structure LoadsOwn (world : BindingWorld debug Process) : Prop where
  token : ∀ process config phase credential, world.tasks process =
      some ⟨.loadToken config, phase, .done (.token (some (.saved credential)))⟩ →
    credential.issuer = config.apiOrigin
  refreshToken : ∀ process config phase credential, world.tasks process =
      some ⟨.loadRefreshToken config, phase, .done (.refreshToken (some credential))⟩ →
    credential.issuer = config.apiOrigin
  exchanged : ∀ process call phase apiBase credential resume,
    world.tasks process = some ⟨call, phase, .ask (.exchange apiBase credential) resume⟩ →
    credential.issuer = originOf apiBase

/-- Nothing is saved, or the saved credentials are of the default origin and no host is. -/
structure StartsBound (state : BindingState debug) : Prop where
  host : state.db .tokenHost = none
  pending : ∀ key, state.pending key = none
  token : ∀ credential, state.db .token = some credential →
    credential.issuer = defaultApiOrigin debug
  refreshToken : ∀ credential, state.db .refreshToken = some credential →
    credential.issuer = defaultApiOrigin debug

/-- A load of this origin is between its two reads, with a row of another origin. -/
def BindingPhase.Foreign (origin : Origin) : BindingPhase → Prop
  | .holding reader _ owner => reader = origin ∧ owner ≠ origin
  | _ => False

/-- The host row comes to name this origin when the rows that are there belong to it, and no
load of it is under way with a row of another origin. -/
structure Settles (world : BindingWorld debug Process) (host : Origin) : Prop where
  token : world.shared.db .token ≠ none → world.shared.owner .token = host
  refreshToken : world.shared.db .refreshToken ≠ none → world.shared.owner .refreshToken = host
  loads : ∀ process task, world.tasks process = some task → ¬ task.phase.Foreign host

/-- The query of a call neither reads a row of another origin under a host row that names its
own, nor changes the host row of rows of another origin. -/
def QueryUnmixed (world : BindingWorld debug Process) : BindingPhase → AuthChoice → AuthQuery → Prop
  | .loading origin, .ok, .load .token =>
    world.shared.boundTo = origin → world.shared.db .token ≠ none →
      world.shared.owner .token = origin
  | .loading origin, .ok, .load .refreshToken =>
    world.shared.boundTo = origin → world.shared.db .refreshToken ≠ none →
      world.shared.owner .refreshToken = origin
  | .holding origin _ owner, .fails, .load .tokenHost =>
    origin = defaultApiOrigin debug → owner = origin
  | _, .ok, .save .tokenHost host => Settles world host
  | _, .ok, .delete .tokenHost => Settles world (defaultApiOrigin debug)
  | _, _, _ => True

def Unmixed (world : BindingWorld debug Process) : Move Process (AuthCall debug) AuthChoice → Prop
  | .serve process choice => ∀ call phase query resume,
      world.tasks process = some ⟨call, phase, .ask query resume⟩ →
      QueryUnmixed world phase choice query
  | _ => True

inductive BindingPermits : BindingPhase → AuthQuery → Prop
  | loadToken (origin : Origin) : BindingPermits (.loading origin) (.load .token)
  | loadRefreshToken (origin : Origin) : BindingPermits (.loading origin) (.load .refreshToken)
  | loadHost (origin : Origin) (credential : Credential) (owner : Origin) :
      BindingPermits (.holding origin credential owner) (.load .tokenHost)
  | exchange (apiBase : Text) (credential : Credential) :
      BindingPermits (.vouched (originOf apiBase) credential) (.exchange apiBase credential)
  | saveToken {origin : Origin} (credential : Credential) (hissuer : credential.issuer = origin) :
      BindingPermits (.saving origin) (.save .token credential)
  | saveRefreshToken {origin : Origin} (credential : Credential)
      (hissuer : credential.issuer = origin) :
      BindingPermits (.saving origin) (.save .refreshToken credential)
  | saveHost (origin : Origin) : BindingPermits (.saving origin) (.save .tokenHost origin)
  | dropRefreshToken (origin : Origin) : BindingPermits (.saving origin) (.delete .refreshToken)
  | dropNonce (origin : Origin) : BindingPermits (.saving origin) (.delete .loginNonce)
  | clear (key : AuthKey) : BindingPermits .clearing (.delete key)
  | send (phase : BindingPhase) (bearer : Option Credential) : BindingPermits phase (.send bearer)

def BindingReturns : AuthCall debug → BindingPhase → AuthOutcome → Prop
  | .loadToken config, phase, .token (some (.saved credential)) =>
    phase = .vouched config.apiOrigin credential
  | .loadRefreshToken config, phase, .refreshToken (some credential) =>
    phase = .vouched config.apiOrigin credential
  | _, _, _ => True

def bindingOutline (debug : Bool) :
    Outline AuthQuery AuthOutcome (AuthCall debug) (BindingState debug)
      BindingPhase where
  good := fun state =>
    (∀ credential, state.db .token = some credential → credential.issuer = state.owner .token) ∧
    ∀ credential, state.db .refreshToken = some credential →
      credential.issuer = state.owner .refreshToken
  stable := fun state phase =>
    match phase with
    | .holding origin credential owner =>
      credential.issuer = owner ∧ (state.boundTo = origin → owner = origin)
    | .vouched origin credential => credential.issuer = origin
    | _ => True
  permits := fun _ => BindingPermits
  returns := BindingReturns

/-! ## The programs follow the outline -/

abbrev Binds {α : Type} (debug : Bool) (post : BindingPhase → α → Prop) :
    BindingPhase → Auth α → Prop :=
  Follows (bindingService debug) BindingPermits post

theorem binds_ifSaved {phase : BindingPhase} {statement rest : Auth Bool}
    (hstatement : Binds debug (fun after _ => after = phase) phase statement)
    (hrest : Binds debug (fun after _ => after = phase) phase rest) :
    Binds debug (fun after _ => after = phase) phase (ifSaved statement rest) :=
  follows_ifSaved hstatement (fun _ hafter => hafter) fun _ hafter => hafter ▸ hrest

theorem binds_saveLoginTokens (config : Config debug) {token : Credential}
    {refreshToken : Option Credential} (htoken : token.issuer = config.apiOrigin)
    (hrefresh : ∀ credential, refreshToken = some credential →
      credential.issuer = config.apiOrigin) :
    Binds debug (fun phase _ => phase = .saving config.apiOrigin)
      (.saving config.apiOrigin) (saveLoginTokens config token refreshToken) := by
  refine binds_ifSaved (binds_ifSaved ⟨.saveToken token htoken, ?_⟩ ⟨.dropNonce _, ?_⟩)
    (binds_ifSaved ?_ ⟨.saveHost _, ?_⟩)
  · rintro state (_ | _)
    · rfl
    · rfl
  · rintro state (_ | _)
    · rfl
    · rfl
  · split
    next credential hkept =>
      have hissuer : credential.issuer = config.apiOrigin := by
        obtain ⟨raw, hraw, rfl⟩ := Option.map_eq_some_iff.mp (Option.filter_eq_some_iff.mp hkept).1
        exact hrefresh raw hraw
      refine ⟨.saveRefreshToken credential hissuer, ?_⟩
      rintro state (_ | _)
      · rfl
      · rfl
    next =>
      refine ⟨.dropRefreshToken _, ?_⟩
      rintro state (_ | _)
      · rfl
      · rfl
  · rintro state (_ | _)
    · rfl
    · rfl

theorem binds_hostMatches (config : Config debug) (credential : Credential) (owner : Origin) :
    Binds debug
      (fun phase matched => matched = true → phase = .vouched config.apiOrigin credential)
      (.holding config.apiOrigin credential owner) (savedCredentialHostMatchesCurrent config) := by
  refine ⟨.loadHost _ _ _, fun state stored => ?_⟩
  cases stored with
  | none =>
    intro hmatched
    exact if_pos (of_decide_eq_true hmatched).symm
  | some host =>
    intro hmatched
    exact if_pos (of_decide_eq_true hmatched)

theorem binds_loadSaved (config : Config debug) : Binds debug
        (fun phase result => ∀ credential, result = some credential →
          phase = .vouched config.apiOrigin credential)
        (.loading config.apiOrigin) (loadSaved config .token) ∧
      Binds debug
        (fun phase result => ∀ credential, result = some credential →
          phase = .vouched config.apiOrigin credential)
        (.loading config.apiOrigin) (loadSaved config .refreshToken) := by
  constructor
  · refine ⟨.loadToken _, fun state answer => ?_⟩
    cases answer with
    | none => exact fun _ hnone => by contradiction
    | some credential =>
      refine (binds_hostMatches config credential _).bind fun phase matched hmatched => ?_
      cases matched with
      | false => exact fun _ hnone => by contradiction
      | true => exact fun _ hsome => Option.some.inj hsome ▸ hmatched rfl
  · refine ⟨.loadRefreshToken _, fun state answer => ?_⟩
    cases answer with
    | none => exact fun _ hnone => by contradiction
    | some credential =>
      refine (binds_hostMatches config credential _).bind fun phase matched hmatched => ?_
      cases matched with
      | false => exact fun _ hnone => by contradiction
      | true => exact fun _ hsome => Option.some.inj hsome ▸ hmatched rfl

theorem binds_loadToken (config : Config debug) : Binds debug
      (fun phase result => ∀ credential, result = some (.saved credential) →
        phase = .vouched config.apiOrigin credential)
      (.loading config.apiOrigin) (loadToken config) := by
  unfold loadToken
  split
  next => exact fun _ henv => by cases henv
  next =>
    refine (binds_loadSaved config).1.bind fun phase loaded hloaded credential hsaved => ?_
    obtain ⟨found, hfound, hsame⟩ := Option.map_eq_some_iff.mp hsaved
    obtain rfl := LoadedToken.saved.inj hsame
    exact hloaded found hfound

theorem binds_refreshSavedToken (config : Config debug) :
    Binds debug (fun _ _ => True) (.loading config.apiOrigin)
      (refreshSavedToken config) := by
  refine (binds_loadSaved config).2.bind fun phase loaded hloaded => ?_
  cases loaded with
  | none => exact trivial
  | some refreshToken =>
    obtain rfl := hloaded refreshToken rfl
    refine ⟨.exchange config.apiBase refreshToken, fun state answer => ?_⟩
    cases answer with
    | none => exact trivial
    | some tokens =>
      have hrefresh : ∀ credential, tokens.refreshCredential = some credential →
          credential.issuer = config.apiOrigin := by
        intro credential hcredential
        obtain ⟨text, -, rfl⟩ := Option.map_eq_some_iff.mp hcredential
        rfl
      refine (@binds_saveLoginTokens debug config tokens.credential _ rfl
        hrefresh).bind fun phase ok _ => ?_
      cases ok with
      | false => exact trivial
      | true => exact trivial

theorem binds_sendWithRefresh (config : Config debug) (bearer : Option Credential) :
    Binds debug (fun _ _ => True) (.loading config.apiOrigin)
      (sendWithRefresh config bearer) := by
  refine ⟨.send _ _, fun state answer => ?_⟩
  rcases answer with _ | _ | _
  · exact trivial
  · refine (binds_refreshSavedToken config).bind fun phase refreshed _ => ?_
    cases refreshed with
    | none => exact trivial
    | some token =>
      refine ⟨.send _ _, fun state answer => ?_⟩
      cases answer with
      | none => exact trivial
      | some response => exact trivial
  · exact trivial

theorem binds_clearToken : Binds debug (fun phase _ => phase = .clearing) .clearing clearToken := by
  have hdelete (key : AuthKey) : Binds debug (fun phase _ => phase = .clearing) .clearing
      (deleteAuthKey key) := ⟨.clear key, fun _ _ => rfl⟩
  exact binds_ifSaved (hdelete _) (binds_ifSaved (hdelete _) (hdelete _))

theorem binding_follows (call : AuthCall debug) :
    Follows (bindingService debug) BindingPermits (BindingReturns call)
      (BindingPhase.enter call) call.program := by
  cases call with
  | login config tokens =>
    have hrefresh : ∀ credential, tokens.refreshCredential = some credential →
        credential.issuer = config.apiOrigin := by
      intro credential hcredential
      obtain ⟨text, -, rfl⟩ := Option.map_eq_some_iff.mp hcredential
      rfl
    exact (@binds_saveLoginTokens debug config tokens.credential _ rfl hrefresh).bind
      fun _ _ _ => trivial
  | loadToken config =>
    refine (binds_loadToken config).bind fun phase result hresult => ?_
    rcases result with _ | _ | credential
    · exact trivial
    · exact trivial
    · exact hresult credential rfl
  | loadRefreshToken config =>
    refine (binds_loadSaved config).2.bind fun phase loaded hloaded => ?_
    cases loaded with
    | none => exact trivial
    | some credential => exact hloaded credential rfl
  | refreshSavedToken config => exact (binds_refreshSavedToken config).bind fun _ _ _ => trivial
  | sendWithRefresh config bearer =>
    exact (binds_sendWithRefresh config bearer).bind fun _ _ _ => trivial
  | clearToken => exact binds_clearToken.bind fun _ _ _ => trivial

variable {state next : BindingState debug} {phase : BindingPhase} {choice : AuthChoice}

theorem binding_served {query : AuthQuery} {answer : query.Answer}
    (hserve : (bindingService debug).serve state phase choice query = some (answer, next)) :
    state.db.serve choice query = some (answer, next.db) ∧
      next.pending = BindingState.note state.pending phase query answer := by
  obtain ⟨⟨found, db⟩, hdb, hsame⟩ := Option.map_eq_some_iff.mp hserve
  obtain ⟨rfl, rfl⟩ := Prod.mk.inj hsame
  exact ⟨hdb, rfl⟩

theorem BindingState.ext_of {state next : BindingState debug} (hdb : next.db = state.db)
    (hpending : next.pending = state.pending) : next = state := by
  cases state
  cases next
  simp_all

theorem binding_read {query : AuthQuery} {answer : query.Answer}
    (hread : ∀ pending, BindingState.note pending phase query answer = pending)
    (hserve : (bindingService debug).serve state phase choice query =
      some (answer, next)) (hdb : next.db = state.db) : next = state :=
  BindingState.ext_of hdb ((binding_served hserve).2.trans (hread _))

theorem note_load (pending : AuthKey → Option Origin) (key : AuthKey) (answer : Option key.Value) :
    BindingState.note pending phase (.load key) answer = pending := by
  cases phase
  all_goals rfl

theorem note_exchange (pending : AuthKey → Option Origin) (apiBase : Text) (credential : Credential)
    (answer : Option (IssuedTokens (originOf apiBase))) :
    BindingState.note pending phase (.exchange apiBase credential) answer = pending := by
  cases phase
  all_goals rfl

theorem note_send (pending : AuthKey → Option Origin) (bearer : Option Credential)
    (answer : Option Response) :
    BindingState.note pending phase (.send bearer) answer = pending := by
  cases phase
  all_goals rfl

theorem note_failed_save (pending : AuthKey → Option Origin) (key : AuthKey) (value : key.Value) :
    BindingState.note pending phase (.save key value) false = pending := by
  cases phase
  all_goals cases key
  all_goals rfl

theorem note_delete (pending : AuthKey → Option Origin) (key : AuthKey) :
    BindingState.note pending phase (.delete key) true = Function.update pending key none := by
  cases phase
  all_goals rfl

theorem note_failed_delete (pending : AuthKey → Option Origin) (key : AuthKey) :
    BindingState.note pending phase (.delete key) false = pending := by
  cases phase
  all_goals rfl

/-! ## The outline is sound -/

theorem stable_of_boundTo (hbound : next.boundTo = state.boundTo)
    (hstable : (bindingOutline debug).stable state phase) :
    (bindingOutline debug).stable next phase := by
  cases phase with
  | holding origin credential owner => exact ⟨hstable.1, hbound ▸ hstable.2⟩
  | vouched origin credential => exact hstable
  | idle | loading | saving | clearing => exact trivial

theorem stable_of_not_foreign (hforeign : ¬ phase.Foreign next.boundTo)
    (hstable : (bindingOutline debug).stable state phase) :
    (bindingOutline debug).stable next phase := by
  cases phase with
  | holding origin credential owner =>
    refine ⟨hstable.1, fun hbound => ?_⟩
    by_contra hother
    exact hforeign ⟨hbound.symm, hbound ▸ hother⟩
  | vouched origin credential => exact hstable
  | idle | loading | saving | clearing => exact trivial

theorem good_of_owners (hgood : (bindingOutline debug).good state)
    (htoken : ∀ credential, next.db .token = some credential →
      credential.issuer = next.owner .token ∨
        state.db .token = some credential ∧ next.owner .token = state.owner .token)
    (hrefresh : ∀ credential, next.db .refreshToken = some credential →
      credential.issuer = next.owner .refreshToken ∨ state.db .refreshToken = some credential ∧
          next.owner .refreshToken = state.owner .refreshToken) :
    (bindingOutline debug).good next := by
  constructor
  · intro credential hcredential
    rcases htoken credential hcredential with hissuer | ⟨hold, howner⟩
    · exact hissuer
    · rw [howner]
      exact hgood.1 credential hold
  · intro credential hcredential
    rcases hrefresh credential hcredential with hissuer | ⟨hold, howner⟩
    · exact hissuer
    · rw [howner]
      exact hgood.2 credential hold

theorem good_of_saved (hgood : (bindingOutline debug).good state) {origin : Origin}
    {credential : Credential} (hissuer : credential.issuer = origin) :
    (bindingOutline debug).good
        ⟨Function.update state.db .token (some credential),
          Function.update state.pending .token (some origin)⟩ ∧
      (bindingOutline debug).good
        ⟨Function.update state.db .refreshToken (some credential),
          Function.update state.pending .refreshToken (some origin)⟩ := by
  constructor
  · refine good_of_owners hgood (fun saved hsaved => .inl ?_) fun saved hsaved => .inr ⟨?_, ?_⟩
    · obtain rfl := Option.some.inj hsaved
      exact hissuer
    · exact hsaved
    · rfl
  · refine good_of_owners hgood (fun saved hsaved => .inr ⟨?_, ?_⟩) fun saved hsaved => .inl ?_
    · exact hsaved
    · rfl
    · obtain rfl := Option.some.inj hsaved
      exact hissuer

def BindingState.drop (state : BindingState debug) (key : AuthKey) : BindingState debug where
  db := Function.update state.db key none
  pending := Function.update state.pending key none

theorem BindingState.drop_self (key : AuthKey) : (state.drop key).db key = none :=
  Function.update_self ..

theorem BindingState.drop_db {key other : AuthKey} (hother : other ≠ key) :
    (state.drop key).db other = state.db other := Function.update_of_ne hother _ _

theorem BindingState.drop_pending {key other : AuthKey} (hother : other ≠ key) :
    (state.drop key).pending other = state.pending other := Function.update_of_ne hother _ _

theorem BindingState.drop_boundTo {key : AuthKey} (hkey : key ≠ .tokenHost) :
    (state.drop key).boundTo = state.boundTo := by
  unfold boundTo
  rw [drop_db hkey.symm]

theorem good_of_dropped (hgood : (bindingOutline debug).good state) {key : AuthKey}
    (hkey : key ≠ .tokenHost) : (bindingOutline debug).good (state.drop key) := by
  have hkept (other : AuthKey) (value : other.Value)
      (hrow : (state.drop key).db other = some value) :
      state.db other = some value ∧ (state.drop key).owner other = state.owner other := by
    have hother : other ≠ key := by
      rintro rfl
      rw [BindingState.drop_self] at hrow
      contradiction
    rw [BindingState.drop_db hother] at hrow
    unfold BindingState.owner
    rw [BindingState.drop_boundTo hkey, BindingState.drop_pending hother]
    exact ⟨hrow, rfl⟩
  exact good_of_owners hgood (fun credential hrow => .inr (hkept .token credential hrow))
    fun credential hrow => .inr (hkept .refreshToken credential hrow)

theorem good_of_settled {world : BindingWorld debug Process} {host : Origin}
    (hgood : (bindingOutline debug).good world.shared) (hsettles : Settles world host)
    (hbound : next.boundTo = host)
    (hrows : ∀ key, key ≠ .tokenHost → next.db key = world.shared.db key)
    (hpending : ∀ key, key ≠ .tokenHost → next.pending key = world.shared.pending key ∨
      next.pending key = none) : (bindingOutline debug).good next := by
  have howner (key : AuthKey) (hkey : key ≠ .tokenHost) (howns : world.shared.owner key = host) :
      next.owner key = world.shared.owner key := by
    unfold BindingState.owner at howns ⊢
    rcases hpending key hkey with hsame | hnone
    · cases hwait : world.shared.pending key with
      | none =>
        rw [hwait] at howns
        rw [hsame, hwait, hbound]
        exact howns.symm
      | some origin =>
        rw [hsame, hwait]
        rfl
    · rw [hnone, howns]
      exact hbound
  refine good_of_owners hgood (fun credential hcredential => .inr ?_)
    fun credential hcredential => .inr ?_
  · have hrow := (hrows .token (by decide)).symm.trans hcredential
    exact ⟨hrow, howner _ (by decide) (hsettles.token (by simp [hrow]))⟩
  · have hrow := (hrows .refreshToken (by decide)).symm.trans hcredential
    exact ⟨hrow, howner _ (by decide) (hsettles.refreshToken (by simp [hrow]))⟩

theorem binding_sound [DecidableEq Process] : Sound (bindingService debug) (bindingOutline debug)
      (Unmixed : BindingWorld debug Process → _ → Prop) where
  follows _ call := binding_follows call
  enter state call _ := by cases call <;> exact trivial
  finish world process call phase result hholds _ _ _ :=
    ⟨hholds.good, fun other task htask _ => hholds.stable other task htask⟩
  serve world process call phase query resume choice answer next hholds htask hguard hpermits
      hserve := by
    have hunmixed := hguard call phase query resume htask
    have hself := hholds.stable process _ htask
    have hothers (hsame : next = world.shared) : ∀ other task, world.tasks other = some task →
        other ≠ process → (bindingOutline debug).stable next task.phase :=
      fun other task hother _ => hsame ▸ hholds.stable other task hother
    obtain ⟨hdb, hpending⟩ := binding_served hserve
    cases hpermits with
    | loadToken origin =>
      obtain ⟨hdb, hanswer⟩ := AuthDb.load_served hdb
      have hsame := binding_read (note_load · _ _) hserve hdb
      refine ⟨hsame ▸ hholds.good, ?_, hothers hsame⟩
      subst hsame
      cases answer with
      | none => exact trivial
      | some credential =>
        rcases hanswer with ⟨rfl, hrow⟩ | ⟨-, hnone⟩
        · refine ⟨hholds.good.1 credential hrow.symm, fun hbound => ?_⟩
          exact hunmixed hbound (by simp [← hrow])
        · contradiction
    | loadRefreshToken origin =>
      obtain ⟨hdb, hanswer⟩ := AuthDb.load_served hdb
      have hsame := binding_read (note_load · _ _) hserve hdb
      refine ⟨hsame ▸ hholds.good, ?_, hothers hsame⟩
      subst hsame
      cases answer with
      | none => exact trivial
      | some credential =>
        rcases hanswer with ⟨rfl, hrow⟩ | ⟨-, hnone⟩
        · refine ⟨hholds.good.2 credential hrow.symm, fun hbound => ?_⟩
          exact hunmixed hbound (by simp [← hrow])
        · contradiction
    | loadHost origin credential owner =>
      obtain ⟨hdb, hanswer⟩ := AuthDb.load_served hdb
      have hsame := binding_read (note_load · _ _) hserve hdb
      refine ⟨hsame ▸ hholds.good, ?_, hothers hsame⟩
      subst hsame
      change (bindingOutline debug).stable world.shared (if _ then _ else _)
      split
      next hmatches =>
        rcases hanswer with ⟨rfl, hrow⟩ | ⟨rfl, hnone⟩
        · rw [hrow] at hmatches
          exact hself.1.trans (hself.2 hmatches)
        · rw [hnone] at hmatches
          exact hself.1.trans (hunmixed hmatches.symm)
      next => exact trivial
    | exchange apiBase credential =>
      have hsame := binding_read (note_exchange · _ _ _) hserve (AuthDb.exchange_served hdb)
      refine ⟨hsame ▸ hholds.good, ?_, hothers hsame⟩
      cases answer with
      | none => exact trivial
      | some tokens => exact trivial
    | send phase bearer =>
      have hsame := binding_read (note_send · _ _) hserve (AuthDb.send_served hdb)
      refine ⟨hsame ▸ hholds.good, ?_, hothers hsame⟩
      have hphase : (bindingService debug).observe world.shared phase (.send bearer)
          answer = phase := by
        cases phase
        all_goals rfl
      rw [hphase, hsame]
      exact hself
    | @saveToken origin credential hissuer =>
      rcases AuthDb.save_served hdb with ⟨rfl, rfl, hrow⟩ | ⟨rfl, hsame⟩
      · obtain rfl : next = ⟨Function.update world.shared.db .token (some credential),
          Function.update world.shared.pending .token (some origin)⟩ :=
          BindingState.ext_of hrow hpending
        exact ⟨(good_of_saved hholds.good hissuer).1, trivial, fun other task hother _ =>
          stable_of_boundTo rfl (hholds.stable other task hother)⟩
      · have hsame := binding_read (note_failed_save · _ _) hserve hsame
        exact ⟨hsame ▸ hholds.good, trivial, hothers hsame⟩
    | @saveRefreshToken origin credential hissuer =>
      rcases AuthDb.save_served hdb with ⟨rfl, rfl, hrow⟩ | ⟨rfl, hsame⟩
      · obtain rfl : next = ⟨Function.update world.shared.db .refreshToken (some credential),
          Function.update world.shared.pending .refreshToken (some origin)⟩ :=
          BindingState.ext_of hrow hpending
        exact ⟨(good_of_saved hholds.good hissuer).2, trivial, fun other task hother _ =>
          stable_of_boundTo rfl (hholds.stable other task hother)⟩
      · have hsame := binding_read (note_failed_save · _ _) hserve hsame
        exact ⟨hsame ▸ hholds.good, trivial, hothers hsame⟩
    | saveHost origin =>
      rcases AuthDb.save_served hdb with ⟨rfl, rfl, hrow⟩ | ⟨rfl, hsame⟩
      · have hbound : next.boundTo = origin := by
          unfold BindingState.boundTo
          rw [hrow, Function.update_self]
          rfl
        refine ⟨good_of_settled hholds.good hunmixed hbound (fun key hkey => ?_)
          (fun key _ => ?_), trivial, fun other task hother _ => ?_⟩
        · rw [hrow, Function.update_of_ne hkey]
        · have hkey : next.pending key = if world.shared.pending key = some origin then none
            else world.shared.pending key := congrFun hpending key
          rw [hkey]
          split
          next => exact .inr rfl
          next => exact .inl rfl
        · exact stable_of_not_foreign (hbound ▸ hunmixed.loads other task hother)
            (hholds.stable other task hother)
      · have hsame := binding_read (note_failed_save · _ _) hserve hsame
        exact ⟨hsame ▸ hholds.good, trivial, hothers hsame⟩
    | dropRefreshToken origin =>
      rcases AuthDb.delete_served hdb with ⟨rfl, rfl, hrow⟩ | ⟨rfl, hsame⟩
      · obtain rfl : next = world.shared.drop .refreshToken :=
          BindingState.ext_of hrow (hpending.trans (note_delete _ _))
        exact ⟨good_of_dropped hholds.good (by decide), trivial, fun other task hother _ =>
          stable_of_boundTo (BindingState.drop_boundTo (by decide))
            (hholds.stable other task hother)⟩
      · have hsame := binding_read (note_failed_delete · _) hserve hsame
        exact ⟨hsame ▸ hholds.good, trivial, hothers hsame⟩
    | dropNonce origin =>
      rcases AuthDb.delete_served hdb with ⟨rfl, rfl, hrow⟩ | ⟨rfl, hsame⟩
      · obtain rfl : next = world.shared.drop .loginNonce :=
          BindingState.ext_of hrow (hpending.trans (note_delete _ _))
        exact ⟨good_of_dropped hholds.good (by decide), trivial, fun other task hother _ =>
          stable_of_boundTo (BindingState.drop_boundTo (by decide))
            (hholds.stable other task hother)⟩
      · have hsame := binding_read (note_failed_delete · _) hserve hsame
        exact ⟨hsame ▸ hholds.good, trivial, hothers hsame⟩
    | clear key =>
      rcases AuthDb.delete_served hdb with ⟨rfl, rfl, hrow⟩ | ⟨rfl, hsame⟩
      · obtain rfl : next = world.shared.drop key :=
          BindingState.ext_of hrow (hpending.trans (note_delete _ _))
        by_cases hkey : key = .tokenHost
        · subst key
          have hbound : (world.shared.drop .tokenHost).boundTo = defaultApiOrigin debug := by
            unfold BindingState.boundTo
            rw [BindingState.drop_self]
            rfl
          refine ⟨good_of_settled hholds.good hunmixed hbound
            (fun key hkey => BindingState.drop_db hkey)
            (fun key hkey => .inl (BindingState.drop_pending hkey)), trivial,
            fun other task hother _ => ?_⟩
          exact stable_of_not_foreign (hbound ▸ hunmixed.loads other task hother)
            (hholds.stable other task hother)
        · exact ⟨good_of_dropped hholds.good hkey, trivial, fun other task hother _ =>
            stable_of_boundTo (BindingState.drop_boundTo hkey)
              (hholds.stable other task hother)⟩
      · have hsame := binding_read (note_failed_delete · _) hserve hsame
        exact ⟨hsame ▸ hholds.good, trivial, hothers hsame⟩

theorem StartsBound.holds {state : BindingState debug} (hstart : StartsBound state) :
    Holds (bindingService debug) (bindingOutline debug)
      (start state : BindingWorld debug Process) := by
  refine Holds.start ⟨fun credential hrow => ?_, fun credential hrow => ?_⟩
  · unfold BindingState.owner BindingState.boundTo
    rw [hstart.pending, hstart.host]
    exact hstart.token credential hrow
  · unfold BindingState.owner BindingState.boundTo
    rw [hstart.pending, hstart.host]
    exact hstart.refreshToken credential hrow

theorem loadsOwn_of_holds {world : BindingWorld debug Process}
    (hholds : Holds (bindingService debug) (bindingOutline debug) world) :
    LoadsOwn world where
  token process config phase credential htask := by
    obtain rfl : phase = .vouched config.apiOrigin credential := hholds.follows process _ htask
    exact hholds.stable process _ htask
  refreshToken process config phase credential htask := by
    obtain rfl : phase = .vouched config.apiOrigin credential := hholds.follows process _ htask
    exact hholds.stable process _ htask
  exchanged process call phase apiBase credential resume htask := by
    have hpermits := (hholds.follows process _ htask).1
    cases hpermits
    exact hholds.stable process _ htask

/-- Saved credentials go only to their issuer, in every run in which no row is read or bound
under the host row of another origin. -/
theorem loads_own_of_run [DecidableEq Process] {state : BindingState debug}
    {schedule : List (Move Process (AuthCall debug) AuthChoice)}
    {world : BindingWorld debug Process} (hstart : StartsBound state)
    (hrun : Run (bindingService debug).step Unmixed (start state) schedule world) :
    LoadsOwn world :=
  loadsOwn_of_holds (hstart.holds.run binding_sound hrun)

end Binding

def selfHosted : Config false where
  cloudUrl := some "http://h"
  legacyCloudUrl := none
  cloudToken := none

def firstLogin : List (Move Bool (AuthCall false) AuthChoice) :=
  [.call false (.login selfHosted ⟨['t'], none⟩), .serve false .ok, .serve false .ok,
    .serve false .ok, .serve false .ok]

def noCredentials : BindingState false where
  db := .empty
  pending := fun _ => none

theorem noCredentials_startsBound : StartsBound noCredentials where
  host := rfl
  pending _ := rfl
  token _ hrow := nomatch hrow
  refreshToken _ hrow := nomatch hrow

theorem loads_own_after_login : ∃ world : BindingWorld false Bool, LoadsOwn world ∧
      ∃ phase, world.tasks true = some ⟨.loadToken selfHosted, phase,
        .done (.token (some (.saved ⟨['t'], selfHosted.apiOrigin⟩)))⟩ := by
  have hrun : ∃ world : BindingWorld false Bool, Run (bindingService false).step Unmixed
      (start noCredentials) (firstLogin ++ [.call true (.loadToken selfHosted), .serve true .ok,
        .serve true .ok]) world ∧
      ∃ phase, world.tasks true = some ⟨.loadToken selfHosted, phase,
        .done (.token (some (.saved ⟨['t'], selfHosted.apiOrigin⟩)))⟩ := by
    refine ⟨_, .cons trivial rfl (.cons ?_ rfl (.cons ?_ rfl (.cons ?_ rfl (.cons ?_ rfl
      (.cons trivial rfl (.cons ?_ rfl (.cons ?_ rfl (.nil _)))))))), _, rfl⟩
    · intro call phase query resume htask
      cases htask
      exact trivial
    · intro call phase query resume htask
      cases htask
      exact trivial
    · intro call phase query resume htask
      cases htask
      exact trivial
    · intro call phase query resume htask
      cases htask
      refine ⟨fun _ => rfl, fun hrow => absurd rfl hrow, fun process task hother => ?_⟩
      cases process
      · cases hother
        exact id
      · cases hother
    · intro call phase query resume htask
      cases htask
      exact fun _ _ => by decide
    · intro call phase query resume htask
      cases htask
      exact trivial
  obtain ⟨world, hworld, hloaded⟩ := hrun
  exact ⟨world, loads_own_of_run noCredentials_startsBound hworld, hloaded⟩

/-- A login is cut after its first write; its token is then loaded for the default origin. -/
def cutLogin : List (Move Bool (AuthCall false) AuthChoice) :=
  [.call false (.login selfHosted ⟨['t'], none⟩), .serve false .ok, .crash false,
    .call true (.loadToken production), .serve true .ok, .serve true .ok]

theorem cut_login_leaks_token :
    ¬ ∀ (schedule : List (Move Bool (AuthCall false) AuthChoice)) (world : BindingWorld false Bool),
      Run (bindingService false).step (fun _ _ => True) (start noCredentials) schedule world →
        LoadsOwn world := by
  intro hall
  have hrun : ∃ world : BindingWorld false Bool, Run (bindingService false).step
      (fun _ _ => True) (start noCredentials) cutLogin world ∧
      ∃ phase, world.tasks true = some ⟨.loadToken production, phase,
        .done (.token (some (.saved ⟨['t'], selfHosted.apiOrigin⟩)))⟩ :=
    ⟨_, Run.of_execute rfl, _, rfl⟩
  obtain ⟨world, hworld, phase, hleaked⟩ := hrun
  exact absurd ((hall _ world hworld).token true production phase _ hleaked) (by decide)

end Difflore.Cloud

import Difflore.Cloud.Credentials

/-! # Logouts that stick

A logout deletes the three rows one by one; a login and a refresh write them one by one. The
number of completed logouts is a history variable. A login is as old as its start, and a
refresh is as old as its reading of the refresh token.
-/

namespace Difflore.Cloud

open Foundation Foundation.Service

section Logout

variable {debug : Bool}

/-- The database, the completed logouts, and whether a login that began after the latest of
them has saved its token. -/
structure LogoutState where
  db : AuthDb
  clears : Nat
  fresh : Bool

/-- What a call has come to: a login before it saves its token, a save that is this old, a
refresh before it reads the refresh token, and a logout with the rows it has deleted. -/
inductive LogoutPhase
  | login (began : Nat)
  | saving (stamp : Nat)
  | refreshing
  | clearing (deleted : List AuthKey)
  | idle

namespace LogoutPhase

def enter (state : LogoutState) : AuthCall debug → LogoutPhase
  | .login _ _ => .login state.clears
  | .refreshSavedToken _ => .refreshing
  | .sendWithRefresh _ _ => .refreshing
  | .clearToken => .clearing []
  | .loadToken _ => .idle
  | .loadRefreshToken _ => .idle

def observe (state : LogoutState) : LogoutPhase → (query : AuthQuery) → query.Answer → LogoutPhase
  | .login began, .save .token _, true => .saving began
  | .refreshing, .load .refreshToken, some _ => .saving state.clears
  | .refreshing, .load .refreshToken, none => .idle
  | .clearing deleted, .delete key, true => .clearing (key :: deleted)
  | phase, _, _ => phase

def Clearing : LogoutPhase → Prop
  | .clearing _ => True
  | _ => False

def Deleted (key : AuthKey) : LogoutPhase → Prop
  | .clearing deleted => key ∈ deleted
  | _ => False

end LogoutPhase

/-- A login that began after the latest logout has saved its token. -/
def LogoutState.note (state : LogoutState) : LogoutPhase → (query : AuthQuery) → query.Answer → Bool
  | .login began, .save .token _, true => state.fresh || began = state.clears
  | _, _, _ => state.fresh

def LogoutState.finish (state : LogoutState) : LogoutPhase → AuthOutcome → LogoutState
  | .clearing _, .done true => { state with clears := state.clears + 1, fresh := false }
  | _, _ => state

def logoutService (debug : Bool) :
    Service AuthQuery AuthQuery.Answer AuthOutcome (AuthCall debug) LogoutState
      LogoutPhase AuthChoice where
  program := AuthCall.program
  enter := LogoutPhase.enter
  serve := fun state phase choice query => (state.db.serve choice query).map fun served =>
    (served.1, { state with db := served.2, fresh := state.note phase query served.1 })
  observe := LogoutPhase.observe
  finish := LogoutState.finish

abbrev LogoutWorld (debug : Bool) (Process : Type) :=
  World AuthQuery AuthQuery.Answer AuthOutcome (AuthCall debug) LogoutState LogoutPhase
    Process

variable {Process : Type}

/-- Until a login that began after the latest logout saves a token, a load returns none. -/
def LogoutSticks (world : LogoutWorld debug Process) : Prop :=
  world.shared.fresh = false → ∀ (config : Config debug) credential,
    ((loadToken config).run AuthDb.answer world.shared.db).1 ≠ some (.saved credential)

/-- A save of this age may write the row: no logout has completed since, unless a later login
has saved a token already, and no logout in progress has deleted the row. -/
structure Lasting (world : LogoutWorld debug Process) (key : AuthKey) (stamp : Nat) : Prop where
  current : world.shared.fresh = false → stamp = world.shared.clears
  kept : ∀ process task, world.tasks process = some task → ¬ task.phase.Deleted key

def QueryLasting (world : LogoutWorld debug Process) : LogoutPhase → AuthChoice → AuthQuery → Prop
  | .login began, .ok, .save .token _ => Lasting world .token began
  | .saving stamp, .ok, .save .token _ => Lasting world .token stamp
  | .saving stamp, .ok, .save .refreshToken _ => Lasting world .refreshToken stamp
  | _, _, _ => True

/-- No save writes a credential over a logout that it is older than. -/
def SavesLasting (world : LogoutWorld debug Process) :
    Move Process (AuthCall debug) AuthChoice → Prop
  | .serve process choice => ∀ call phase query resume,
      world.tasks process = some ⟨call, phase, .ask query resume⟩ →
      QueryLasting world phase choice query
  | _ => True

inductive LogoutPermits : LogoutPhase → AuthQuery → Prop
  | loginToken (began : Nat) (token : Credential) :
      LogoutPermits (.login began) (.save .token token)
  | save (stamp : Nat) (key : AuthKey) (value : key.Value) :
      LogoutPermits (.saving stamp) (.save key value)
  | drop (stamp : Nat) (key : AuthKey) : LogoutPermits (.saving stamp) (.delete key)
  | loadHost (stamp : Nat) : LogoutPermits (.saving stamp) (.load .tokenHost)
  | exchange (stamp : Nat) (apiBase : Text) (refreshToken : Credential) :
      LogoutPermits (.saving stamp) (.exchange apiBase refreshToken)
  | loadRefreshToken : LogoutPermits .refreshing (.load .refreshToken)
  | clear (deleted : List AuthKey) (key : AuthKey) : LogoutPermits (.clearing deleted) (.delete key)
  | load (key : AuthKey) : LogoutPermits .idle (.load key)
  | send (phase : LogoutPhase) (bearer : Option Credential) : LogoutPermits phase (.send bearer)

/-- Only a logout deletes rows as a logout does, and one that worked has deleted both
credentials. -/
def LogoutReturns : AuthCall debug → LogoutPhase → AuthOutcome → Prop
  | .clearToken, phase, .done true => phase.Deleted .token ∧ phase.Deleted .refreshToken
  | .clearToken, _, _ => True
  | _, phase, _ => ¬ phase.Clearing

def logoutOutline (debug : Bool) :
    Outline AuthQuery AuthOutcome (AuthCall debug) LogoutState LogoutPhase where
  good := fun state =>
    state.fresh = false → state.db .token = none ∧ state.db .refreshToken = none
  stable := fun state phase =>
    match phase with
    | .login began => began ≤ state.clears
    | .saving stamp => stamp ≤ state.clears ∧ (stamp = state.clears → state.fresh = true)
    | .clearing deleted => (.token ∈ deleted → state.db .token = none) ∧
        (.refreshToken ∈ deleted → state.db .refreshToken = none)
    | .refreshing => True
    | .idle => True
  permits := fun _ => LogoutPermits
  returns := LogoutReturns

/-! ## The programs follow the outline -/

abbrev Sticks {α : Type} (debug : Bool) (post : LogoutPhase → α → Prop) :
    LogoutPhase → Auth α → Prop :=
  Follows (logoutService debug) LogoutPermits post

theorem saving_save (stamp : Nat) (key : AuthKey) (value : key.Value) :
    Sticks debug (fun phase _ => phase = .saving stamp) (.saving stamp)
      (saveEncryptedAuthKey key value) :=
  ⟨.save stamp key value, fun _ _ => rfl⟩

theorem saving_delete (stamp : Nat) (key : AuthKey) :
    Sticks debug (fun phase _ => phase = .saving stamp) (.saving stamp)
      (deleteAuthKey key) :=
  ⟨.drop stamp key, fun _ _ => rfl⟩

theorem saving_ifSaved {stamp : Nat} {statement rest : Auth Bool}
    (hstatement : Sticks debug (fun phase _ => phase = .saving stamp) (.saving stamp)
      statement)
    (hrest : Sticks debug (fun phase _ => phase = .saving stamp) (.saving stamp) rest) :
    Sticks debug (fun phase _ => phase = .saving stamp) (.saving stamp)
      (ifSaved statement rest) :=
  follows_ifSaved hstatement (fun _ hafter => hafter) fun _ hafter => hafter ▸ hrest

theorem saving_rest (config : Config debug) (refreshToken : Option Credential) (stamp : Nat) :
    Sticks debug (fun phase _ => phase = .saving stamp) (.saving stamp)
      (ifSaved
        (match (refreshToken.map Credential.trim).filter (·.text ≠ []) with
          | some refreshToken => saveRefreshToken refreshToken
          | none => deleteAuthKey .refreshToken)
        (saveEncryptedAuthKey .tokenHost config.apiOrigin)) := by
  refine saving_ifSaved ?_ (saving_save stamp .tokenHost _)
  split
  next credential _ => exact saving_save stamp .refreshToken credential
  next => exact saving_delete stamp .refreshToken

theorem saving_saveLoginTokens (config : Config debug) (token : Credential)
    (refreshToken : Option Credential) (stamp : Nat) :
    Sticks debug (fun phase _ => phase = .saving stamp) (.saving stamp)
      (saveLoginTokens config token refreshToken) :=
  saving_ifSaved (saving_ifSaved (saving_save stamp .token token) (saving_delete stamp .loginNonce))
    (saving_rest config refreshToken stamp)

theorem login_saveLoginTokens (config : Config debug) (token : Credential)
    (refreshToken : Option Credential) (began : Nat) :
    Sticks debug (fun phase _ => ¬ phase.Clearing) (.login began)
      (saveLoginTokens config token refreshToken) := by
  refine ⟨.loginToken began token, fun state answer => ?_⟩
  cases answer with
  | false => exact id
  | true =>
    have hrest : Sticks debug (fun phase _ => phase = .saving began) (.saving began)
        (ifSaved (deleteAuthKey .loginNonce) _) :=
      saving_ifSaved (saving_delete began .loginNonce) (saving_rest config refreshToken began)
    exact hrest.mono fun phase _ hphase => hphase ▸ id

theorem refreshing_loadRefreshToken (config : Config debug) : Sticks debug
      (fun phase result => phase = .idle ∧ result = none ∨ ∃ stamp, phase = .saving stamp)
      .refreshing (loadRefreshToken config) := by
  refine ⟨.loadRefreshToken, fun state answer => ?_⟩
  cases answer with
  | none => exact .inl ⟨rfl, rfl⟩
  | some credential =>
    refine ⟨.loadHost _, fun _ stored => ?_⟩
    cases stored with
    | none =>
      change Sticks debug _ (.saving state.clears) (if _ then _ else _)
      split
      · exact .inr ⟨_, rfl⟩
      · exact .inr ⟨_, rfl⟩
    | some host =>
      change Sticks debug _ (.saving state.clears) (if _ then _ else _)
      split
      · exact .inr ⟨_, rfl⟩
      · exact .inr ⟨_, rfl⟩

theorem refreshing_refreshSavedToken (config : Config debug) :
    Sticks debug (fun phase _ => ¬ phase.Clearing) .refreshing
      (refreshSavedToken config) := by
  refine (refreshing_loadRefreshToken config).bind fun phase loaded hloaded => ?_
  rcases hloaded with ⟨rfl, rfl⟩ | ⟨stamp, rfl⟩
  · exact id
  · cases loaded with
    | none => exact id
    | some refreshToken =>
      refine ⟨.exchange stamp config.apiBase refreshToken, fun state answer => ?_⟩
      cases answer with
      | none => exact id
      | some tokens =>
        refine (saving_saveLoginTokens config tokens.credential tokens.refreshCredential
          stamp).bind fun phase ok hphase => ?_
        subst phase
        cases ok with
        | false => exact id
        | true => exact id

theorem refreshing_sendWithRefresh (config : Config debug) (bearer : Option Credential) :
    Sticks debug (fun phase _ => ¬ phase.Clearing) .refreshing
      (sendWithRefresh config bearer) := by
  refine ⟨.send _ _, fun state answer => ?_⟩
  rcases answer with _ | _ | _
  · exact id
  · refine (refreshing_refreshSavedToken config).bind fun phase refreshed hphase => ?_
    cases refreshed with
    | none => exact hphase
    | some token =>
      refine ⟨.send _ _, fun state answer => ?_⟩
      have hsame : (logoutService debug).observe state phase (.send (some token))
          answer = phase := by
        cases phase
        all_goals rfl
      rw [hsame]
      cases answer with
      | none => exact hphase
      | some response => exact hphase
  · exact id

theorem idle_load (key : AuthKey) :
    Sticks debug (fun phase _ => phase = .idle) .idle (loadEncryptedAuthKey key) :=
  ⟨.load key, fun _ _ => rfl⟩

theorem idle_hostMatches (config : Config debug) : Sticks debug (fun phase _ => phase = .idle) .idle
      (savedCredentialHostMatchesCurrent config) := by
  refine (idle_load .tokenHost).bind fun phase stored hphase => ?_
  cases stored with
  | none => exact hphase
  | some host => exact hphase

theorem idle_loadSaved (config : Config debug) (key : AuthKey) :
    Sticks debug (fun phase _ => phase = .idle) .idle (loadSaved config key) := by
  refine (idle_load key).bind fun phase loaded hphase => ?_
  subst phase
  cases loaded with
  | none => exact rfl
  | some value =>
    refine (idle_hostMatches config).bind fun phase matched hphase => ?_
    cases matched with
    | false => exact hphase
    | true => exact hphase

theorem clearing_clearToken : Sticks debug
      (fun phase ok => ok = true → phase.Deleted .token ∧ phase.Deleted .refreshToken)
      (.clearing []) clearToken := by
  refine ⟨.clear _ _, fun _ answer => ?_⟩
  cases answer with
  | false => exact fun hfalse => by contradiction
  | true =>
    refine ⟨.clear _ _, fun _ answer => ?_⟩
    cases answer with
    | false => exact fun hfalse => by contradiction
    | true =>
      refine ⟨.clear _ _, fun _ answer => ?_⟩
      cases answer with
      | false => exact fun hfalse => by contradiction
      | true =>
        exact fun _ => ⟨.tail _ (.tail _ (.head _)), .tail _ (.head _)⟩

theorem logout_follows (state : LogoutState) (call : AuthCall debug) :
    Follows (logoutService debug) LogoutPermits (LogoutReturns call)
      (LogoutPhase.enter state call) call.program := by
  cases call with
  | login config tokens =>
    exact (login_saveLoginTokens config tokens.credential tokens.refreshCredential _).bind
      fun _ _ hphase => hphase
  | loadToken config =>
    have hload : Sticks debug (fun phase _ => phase = .idle) .idle
        (loadToken config) := by
      unfold loadToken
      split
      next => exact rfl
      next => exact (idle_loadSaved config .token).bind fun _ _ hphase => hphase
    exact hload.bind fun phase _ hphase => hphase ▸ id
  | loadRefreshToken config =>
    exact (idle_loadSaved config .refreshToken).bind fun phase _ hphase => hphase ▸ id
  | refreshSavedToken config =>
    exact (refreshing_refreshSavedToken config).bind fun _ _ hphase => hphase
  | sendWithRefresh config bearer =>
    exact (refreshing_sendWithRefresh config bearer).bind fun _ _ hphase => hphase
  | clearToken =>
    refine clearing_clearToken.bind fun phase ok hdeleted => ?_
    cases ok with
    | false => exact trivial
    | true => exact hdeleted rfl

/-! ## The outline is sound -/

variable {state next : LogoutState} {phase : LogoutPhase} {choice : AuthChoice}

theorem logout_served {query : AuthQuery} {answer : query.Answer}
    (hserve : (logoutService debug).serve state phase choice query = some (answer, next)) :
    state.db.serve choice query = some (answer, next.db) ∧ next.clears = state.clears ∧
      next.fresh = state.note phase query answer := by
  obtain ⟨⟨found, db⟩, hdb, hsame⟩ := Option.map_eq_some_iff.mp hserve
  obtain ⟨rfl, rfl⟩ := Prod.mk.inj hsame
  exact ⟨hdb, rfl, rfl⟩

theorem logout_stable_of_fewer
    (hclears : next.clears = state.clears) (hfresh : state.fresh = true → next.fresh = true)
    (htoken : state.db .token = none → phase.Deleted .token → next.db .token = none)
    (hrefresh : state.db .refreshToken = none → phase.Deleted .refreshToken →
      next.db .refreshToken = none) (hstable : (logoutOutline debug).stable state phase) :
    (logoutOutline debug).stable next phase := by
  cases phase with
  | login began =>
    change began ≤ next.clears
    rw [hclears]
    exact hstable
  | saving stamp =>
    change stamp ≤ next.clears ∧ (stamp = next.clears → next.fresh = true)
    rw [hclears]
    exact ⟨hstable.1, fun hstamp => hfresh (hstable.2 hstamp)⟩
  | clearing deleted =>
    exact ⟨fun hmem => htoken (hstable.1 hmem) hmem, fun hmem => hrefresh (hstable.2 hmem) hmem⟩
  | refreshing => exact trivial
  | idle => exact trivial

theorem logout_good_of_fewer (hfresh : next.fresh = state.fresh)
    (htoken : state.db .token = none → next.db .token = none)
    (hrefresh : state.db .refreshToken = none → next.db .refreshToken = none)
    (hgood : (logoutOutline debug).good state) :
    (logoutOutline debug).good next := fun hstale =>
  let hrows := hgood (hfresh.symm.trans hstale)
  ⟨htoken hrows.1, hrefresh hrows.2⟩

theorem update_eq_none {db : AuthDb} {key other : AuthKey} (hnone : db other = none) :
    Function.update db key none other = none := by
  by_cases hsame : other = key
  · subst other
    exact Function.update_self ..
  · rw [Function.update_of_ne hsame]
    exact hnone

theorem LogoutState.ext_of (hdb : next.db = state.db) (hclears : next.clears = state.clears)
    (hfresh : next.fresh = state.fresh) : next = state := by
  cases state
  cases next
  simp_all

theorem fresh_of_lasting {world : LogoutWorld debug Process} {key : AuthKey} {stamp : Nat}
    (hlasting : Lasting world key stamp)
    (hstable : (logoutOutline debug).stable world.shared (.saving stamp)) :
    world.shared.fresh = true := by
  by_contra hstale
  exact hstale (hstable.2 (hlasting.current (Bool.not_eq_true _ ▸ hstale)))

theorem logout_sound [DecidableEq Process] : Sound (logoutService debug) (logoutOutline debug)
      (SavesLasting : LogoutWorld debug Process → _ → Prop) where
  follows := logout_follows
  enter state call _ := by
    cases call with
    | login config tokens => exact le_rfl
    | clearToken => exact ⟨fun hmem => absurd hmem (by simp), fun hmem => absurd hmem (by simp)⟩
    | loadToken | loadRefreshToken | refreshSavedToken | sendWithRefresh => exact trivial
  finish world process call phase result hholds htask _ hreturns := by
    have hself := hholds.stable process _ htask
    have hkept (hsame : (logoutService debug).finish world.shared phase result = world.shared) :
        (logoutOutline debug).good
            ((logoutService debug).finish world.shared phase result) ∧
          ∀ other task, world.tasks other = some task → other ≠ process →
            (logoutOutline debug).stable
              ((logoutService debug).finish world.shared phase result) task.phase := by
      rw [hsame]
      exact ⟨hholds.good, fun other task hother _ => hholds.stable other task hother⟩
    cases phase with
    | login | saving | refreshing | idle => exact hkept rfl
    | clearing deleted =>
      rcases result with (_ | _) | _ | _ | _ | _
      · exact hkept rfl
      · cases call with
        | clearToken =>
          refine ⟨fun _ => ⟨hself.1 hreturns.1, hself.2 hreturns.2⟩, fun other task hother _ => ?_⟩
          have hstable := hholds.stable other task hother
          cases hphase : task.phase with
          | login began =>
            rw [hphase] at hstable
            exact Nat.le_succ_of_le hstable
          | saving stamp =>
            rw [hphase] at hstable
            exact ⟨Nat.le_succ_of_le hstable.1, fun hstamp =>
              absurd hstamp (Nat.ne_of_lt (Nat.lt_succ_of_le hstable.1))⟩
          | clearing gone =>
            rw [hphase] at hstable
            exact hstable
          | refreshing => exact trivial
          | idle => exact trivial
        | login | loadToken | loadRefreshToken | refreshSavedToken | sendWithRefresh =>
          exact absurd trivial hreturns
      · exact hkept rfl
      · exact hkept rfl
      · exact hkept rfl
      · exact hkept rfl
  serve world process call phase query resume choice answer next hholds htask hguard hpermits
      hserve := by
    have hlasting := hguard call phase query resume htask
    have hself := hholds.stable process _ htask
    obtain ⟨hdb, hclears, hfresh⟩ := logout_served hserve
    -- A query that changes no row leaves everything as it is.
    have hread (hsame : next.db = world.shared.db)
        (hnote : world.shared.note phase query answer = world.shared.fresh) :
        next = world.shared := LogoutState.ext_of hsame hclears (hfresh.trans hnote)
    have hothers (hsame : next = world.shared) : ∀ other task, world.tasks other = some task →
        other ≠ process → (logoutOutline debug).stable next task.phase :=
      fun other task hother _ => hsame ▸ hholds.stable other task hother
    cases hpermits with
    | loginToken began token =>
      rcases AuthDb.save_served hdb with ⟨rfl, rfl, hrow⟩ | ⟨rfl, hsame⟩
      · have hnote : next.fresh = (world.shared.fresh || decide (began = world.shared.clears)) :=
          hfresh
        have hnow : next.fresh = true := by
          rw [hnote, Bool.or_eq_true, decide_eq_true_eq]
          by_contra hneither
          rw [not_or] at hneither
          exact hneither.2 (hlasting.current (Bool.not_eq_true _ ▸ hneither.1))
        refine ⟨fun hstale => ?_, ⟨hclears ▸ hself, fun _ => hnow⟩, fun other task hother _ => ?_⟩
        · rw [hnow] at hstale
          contradiction
        · refine logout_stable_of_fewer hclears (fun _ => hnow)
            (fun _ hdeleted => absurd hdeleted (hlasting.kept other task hother))
            (fun hnone _ => ?_) (hholds.stable other task hother)
          rw [hrow, Function.update_of_ne (by decide)]
          exact hnone
      · have hsame := hread hsame rfl
        exact ⟨hsame ▸ hholds.good, hsame ▸ hself, hothers hsame⟩
    | save stamp key value =>
      rcases AuthDb.save_served hdb with ⟨rfl, rfl, hrow⟩ | ⟨rfl, hsame⟩
      · have hfresh : next.fresh = world.shared.fresh := hfresh
        have hstamp : (logoutOutline debug).stable next (.saving stamp) :=
          ⟨hclears ▸ hself.1, fun hsame => hfresh ▸ hself.2 (hclears ▸ hsame)⟩
        cases key with
        | token =>
          have hnow := hfresh.trans (fresh_of_lasting hlasting hself)
          refine ⟨fun hstale => ?_, hstamp, fun other task hother _ => ?_⟩
          · rw [hnow] at hstale
            contradiction
          · refine logout_stable_of_fewer hclears (fun _ => hnow)
              (fun _ hdeleted => absurd hdeleted (hlasting.kept other task hother))
              (fun hnone _ => ?_) (hholds.stable other task hother)
            rw [hrow, Function.update_of_ne (by decide)]
            exact hnone
        | refreshToken =>
          have hnow := hfresh.trans (fresh_of_lasting hlasting hself)
          refine ⟨fun hstale => ?_, hstamp, fun other task hother _ => ?_⟩
          · rw [hnow] at hstale
            contradiction
          · refine logout_stable_of_fewer hclears (fun _ => hnow) (fun hnone _ => ?_)
              (fun _ hdeleted => absurd hdeleted (hlasting.kept other task hother))
              (hholds.stable other task hother)
            rw [hrow, Function.update_of_ne (by decide)]
            exact hnone
        | tokenHost | loginNonce =>
          have htoken : next.db .token = world.shared.db .token := by
            rw [hrow, Function.update_of_ne (by decide)]
          have hrefresh : next.db .refreshToken = world.shared.db .refreshToken := by
            rw [hrow, Function.update_of_ne (by decide)]
          refine ⟨logout_good_of_fewer hfresh htoken.trans hrefresh.trans hholds.good, hstamp,
            fun other task hother _ => ?_⟩
          exact logout_stable_of_fewer hclears hfresh.trans (fun hnone _ => htoken.trans hnone)
            (fun hnone _ => hrefresh.trans hnone) (hholds.stable other task hother)
      · have hsame := hread hsame rfl
        exact ⟨hsame ▸ hholds.good, hsame ▸ hself, hothers hsame⟩
    | drop stamp key =>
      rcases AuthDb.delete_served hdb with ⟨rfl, rfl, hrow⟩ | ⟨rfl, hsame⟩
      · have hfresh : next.fresh = world.shared.fresh := hfresh
        have hfewer (other : AuthKey) (hnone : world.shared.db other = none) :
            next.db other = none := by
          rw [hrow]
          exact update_eq_none hnone
        refine ⟨logout_good_of_fewer hfresh (hfewer _) (hfewer _) hholds.good,
          ⟨hclears ▸ hself.1, fun hsame => hfresh ▸ hself.2 (hclears ▸ hsame)⟩,
          fun other task hother _ => ?_⟩
        exact logout_stable_of_fewer hclears hfresh.trans (fun hnone _ => hfewer _ hnone)
          (fun hnone _ => hfewer _ hnone) (hholds.stable other task hother)
      · have hsame := hread hsame rfl
        exact ⟨hsame ▸ hholds.good, hsame ▸ hself, hothers hsame⟩
    | clear deleted key =>
      rcases AuthDb.delete_served hdb with ⟨rfl, rfl, hrow⟩ | ⟨rfl, hsame⟩
      · have hfresh : next.fresh = world.shared.fresh := hfresh
        have hfewer (other : AuthKey) (hnone : world.shared.db other = none) :
            next.db other = none := by
          rw [hrow]
          exact update_eq_none hnone
        have hgone (other : AuthKey) (hsame : other = key) : next.db other = none := by
          subst other
          rw [hrow, Function.update_self]
        refine ⟨logout_good_of_fewer hfresh (hfewer _) (hfewer _) hholds.good,
          ⟨fun hmem => ?_, fun hmem => ?_⟩, fun other task hother _ => ?_⟩
        · rcases List.mem_cons.mp hmem with hsame | hbefore
          · exact hgone _ hsame
          · exact hfewer _ (hself.1 hbefore)
        · rcases List.mem_cons.mp hmem with hsame | hbefore
          · exact hgone _ hsame
          · exact hfewer _ (hself.2 hbefore)
        · exact logout_stable_of_fewer hclears hfresh.trans (fun hnone _ => hfewer _ hnone)
            (fun hnone _ => hfewer _ hnone) (hholds.stable other task hother)
      · have hsame := hread hsame rfl
        exact ⟨hsame ▸ hholds.good, hsame ▸ hself, hothers hsame⟩
    | loadHost stamp =>
      have hsame := hread (AuthDb.load_served hdb).1 rfl
      exact ⟨hsame ▸ hholds.good, hsame ▸ hself, hothers hsame⟩
    | exchange stamp apiBase refreshToken =>
      have hsame := hread (AuthDb.exchange_served hdb) rfl
      exact ⟨hsame ▸ hholds.good, hsame ▸ hself, hothers hsame⟩
    | loadRefreshToken =>
      obtain ⟨hdb, hanswer⟩ := AuthDb.load_served hdb
      have hsame := hread hdb rfl
      refine ⟨hsame ▸ hholds.good, ?_, hothers hsame⟩
      cases answer with
      | none => exact trivial
      | some credential =>
        rcases hanswer with ⟨rfl, hrow⟩ | ⟨-, hnone⟩
        · subst hsame
          refine ⟨le_rfl, fun _ => ?_⟩
          by_contra hstale
          have hnone := (hholds.good (Bool.not_eq_true _ ▸ hstale)).2
          rw [← hrow] at hnone
          contradiction
        · contradiction
    | load key =>
      have hsame := hread (AuthDb.load_served hdb).1 rfl
      exact ⟨hsame ▸ hholds.good, trivial, hothers hsame⟩
    | send phase bearer =>
      have hnote : world.shared.note phase (.send bearer) answer = world.shared.fresh := by
        cases phase
        all_goals rfl
      have hphase : (logoutService debug).observe world.shared phase (.send bearer)
          answer = phase := by
        cases phase
        all_goals rfl
      have hsame := hread (AuthDb.send_served hdb) hnote
      refine ⟨hsame ▸ hholds.good, ?_, hothers hsame⟩
      rw [hphase, hsame]
      exact hself

def beforeLogout (db : AuthDb) : LogoutState where
  db := db
  clears := 0
  fresh := true

theorem run_loadSaved_of_none {config : Config debug} {db : AuthDb} {key : AuthKey}
    (hnone : db key = none) : (loadSaved config key).run AuthDb.answer db = (none, db) := by
  unfold loadSaved
  rw [Program.run_bind]
  simp only [loadEncryptedAuthKey, Program.run, AuthDb.answer, hnone]
  rfl

theorem logout_sticks_of_run [DecidableEq Process] {db : AuthDb}
    {schedule : List (Move Process (AuthCall debug) AuthChoice)} {world : LogoutWorld debug Process}
    (hrun : Run (logoutService debug).step SavesLasting (start (beforeLogout db)) schedule
      world) : LogoutSticks world := by
  have hstart : Holds (logoutService debug) (logoutOutline debug)
      (start (beforeLogout db) : LogoutWorld debug Process) :=
    Holds.start fun hstale => by contradiction
  have hholds := hstart.run logout_sound hrun
  intro hstale config credential
  obtain ⟨hnone, -⟩ := hholds.good hstale
  unfold loadToken
  split
  next => exact fun henv => by cases henv
  next =>
    rw [Program.run_bind, run_loadSaved_of_none hnone]
    exact fun hsome => by cases hsome

end Logout

def savedLogin : AuthDb
  | .token => some ⟨['t'], defaultApiOrigin false⟩
  | .refreshToken => some ⟨['r'], defaultApiOrigin false⟩
  | .tokenHost | .loginNonce => none

def quietLogout : List (Move Bool (AuthCall false) AuthChoice) :=
  [.call true .clearToken, .serve true .ok, .serve true .ok, .serve true .ok, .finish true]

/-- The other process refreshes, the first one logs out, the other one logs in again, and the
first one logs out once more. -/
def loginBetweenLogouts : List (Move Bool (AuthCall false) AuthChoice) :=
  [.call false (.refreshSavedToken production), .serve false .ok, .serve false .ok,
      .serve false (.issues ['n'] none), .serve false .ok, .serve false .ok, .serve false .ok,
      .serve false .ok, .finish false] ++ quietLogout ++
    [.call false (.login production ⟨['t'], none⟩), .serve false .ok, .serve false .ok,
      .serve false .ok, .serve false .ok, .finish false] ++ quietLogout

theorem lasting_of_quiet {world : LogoutWorld false Bool} {key : AuthKey} {stamp : Nat}
    {call : AuthCall false} {phase : LogoutPhase} {program : Auth AuthOutcome}
    (hcurrent : stamp = world.shared.clears) (hquiet : world.tasks true = none)
    (hself : world.tasks false = some ⟨call, phase, program⟩) (hsaves : ¬ phase.Deleted key) :
    Lasting world key stamp where
  current _ := hcurrent
  kept process task htask := by
    cases process with
    | true => exact absurd (hquiet.symm.trans htask) nofun
    | false => exact Option.some.inj (hself.symm.trans htask) ▸ hsaves

theorem logout_sticks_after_login : ∃ world : LogoutWorld false Bool,
    LogoutSticks world ∧ world.shared.fresh = false ∧ world.shared.clears = 2 := by
  have hrun : ∃ world : LogoutWorld false Bool, Run (logoutService false).step SavesLasting
      (start (beforeLogout savedLogin)) loginBetweenLogouts world ∧
        world.shared.fresh = false ∧ world.shared.clears = 2 := by
    refine ⟨_, .cons trivial rfl (.cons ?_ rfl (.cons ?_ rfl (.cons ?_ rfl (.cons ?_ rfl
      (.cons ?_ rfl (.cons ?_ rfl (.cons ?_ rfl (.cons trivial rfl (.cons trivial rfl (.cons ?_ rfl
      (.cons ?_ rfl (.cons ?_ rfl (.cons trivial rfl (.cons trivial rfl (.cons ?_ rfl (.cons ?_ rfl
      (.cons ?_ rfl (.cons ?_ rfl (.cons trivial rfl (.cons trivial rfl (.cons ?_ rfl (.cons ?_ rfl
      (.cons ?_ rfl (.cons trivial rfl (.nil _))))))))))))))))))))))))), rfl, rfl⟩
    all_goals
      intro call phase query resume htask
      cases htask
      first
        | exact trivial
        | exact lasting_of_quiet rfl rfl rfl id
  obtain ⟨world, hworld, hstale, hclears⟩ := hrun
  exact ⟨world, logout_sticks_of_run hworld, hstale, hclears⟩
/-- A refresh has its answer when a logout runs from start to end, and saves it afterwards. -/
def lateRefresh : List (Move Bool (AuthCall false) AuthChoice) :=
  [.call false (.refreshSavedToken production), .serve false .ok, .serve false .ok,
    .serve false (.issues ['n'] none)] ++ quietLogout ++ [.serve false .ok]

theorem late_refresh_undoes_logout :
    ¬ ∀ (db : AuthDb) (schedule : List (Move Bool (AuthCall false) AuthChoice))
      (world : LogoutWorld false Bool),
      Run (logoutService false).step (fun _ _ => True) (start (beforeLogout db)) schedule world →
        LogoutSticks world := by
  intro hall
  have hrun : ∃ world : LogoutWorld false Bool, Run (logoutService false).step (fun _ _ => True)
      (start (beforeLogout savedLogin)) lateRefresh world ∧ world.shared.fresh = false ∧
      ((loadToken production).run AuthDb.answer world.shared.db).1 =
        some (.saved ⟨['n'], defaultApiOrigin false⟩) :=
    ⟨_, Run.of_execute rfl, rfl, rfl⟩
  obtain ⟨world, hworld, hstale, hloaded⟩ := hrun
  exact hall savedLogin lateRefresh world hworld hstale production _ hloaded

end Difflore.Cloud

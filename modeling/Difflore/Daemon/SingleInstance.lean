import Difflore.Daemon.PidFile

/-! # At most one daemon

A claim keeps the file of a live daemon, because it is made under the lock. A stop removes
whatever is at the path by then; the runs below are those in which that is nobody's file.
-/

namespace Difflore.Daemon

open Foundation Foundation.Service

variable {query : DaemonQuery} {failure : Option Text}

abbrev DaemonWorld (Process : Type) :=
  World DaemonQuery DaemonQuery.Answer DaemonResult DaemonCall DaemonState DaemonPhase Process

variable {Process : Type}

namespace DaemonState

/-- A daemon that passed `claim_pid_file` and has neither died nor removed the file to exit. -/
def LiveDaemon (state : DaemonState) (pid : Pid) : Prop :=
  state.alive pid = true ∧ state.standing pid = .passed

def SingleInstance (state : DaemonState) : Prop :=
  (∀ pid other, state.LiveDaemon pid → state.LiveDaemon other → pid = other) ∧
    ∀ pid, state.LiveDaemon pid → ∃ file, state.file = some file ∧ file.contents = some pid

def Owns (state : DaemonState) (pid : Pid) : Prop :=
  state.alive pid = true ∧ state.standing pid ≠ .idle

end DaemonState

def FreshPids (world : DaemonWorld Process) : Move Process DaemonCall (Option Text) → Prop
  | .call _ (.run pid) => ∀ other task, world.tasks other = some task → task.phase.pid? ≠ some pid
  | _ => True

/-- A stop does not remove the file of a live daemon or of a claim in progress, and a claim that
finds such a file can read it. -/
def SparesOwner (world : DaemonWorld Process) : Move Process DaemonCall (Option Text) → Prop
  | .serve process failure => ∀ call phase query resume,
      world.tasks process = some ⟨call, phase, .ask query resume⟩ →
      match phase, query with
      | .other, .removeFile => failure = none → ∀ pid, ¬world.shared.Owns pid
      | .starter _ _, .readFile => failure ≠ none → ∀ pid, ¬world.shared.Owns pid
      | _, _ => True
  | _ => True

def Standing.contents (pid : Pid) : Standing → Option Pid
  | .idle | .created => none
  | .written | .passed => some pid

structure Guarded (state : DaemonState) (pid : Pid) : Prop where
  file : state.file = some ⟨some pid, (state.standing pid).contents pid⟩
  lock : state.standing pid ≠ .passed → state.lock = some pid

def ClaimStep.Knows (state : DaemonState) (pid : Pid) : ClaimStep → Prop
  | .unborn => True
  | .waiting | .returned => state.standing pid = .idle
  | .locked => state.lock = some pid ∧ state.standing pid = .idle
  | .read existing => state.lock = some pid ∧ state.standing pid = .idle ∧
      ∀ other, state.Owns other → existing = some other
  | .created => state.lock = some pid ∧ state.standing pid = .created
  | .written => state.lock = some pid ∧ state.standing pid = .written
  | .passed => state.standing pid = .passed

inductive DaemonPermits : DaemonPhase → DaemonQuery → Prop
  | spawn (pid : Pid) : DaemonPermits (.starter pid .unborn) (.spawn pid)
  | acquire (pid : Pid) : DaemonPermits (.starter pid .waiting) (.acquire pid)
  | create (pid : Pid) : DaemonPermits (.starter pid .locked) (.createNew pid)
  | createAgain (pid : Pid) : DaemonPermits (.starter pid (.read none)) (.createNew pid)
  | write (pid : Pid) : DaemonPermits (.starter pid .created) (.writeAll pid)
  | removeFailed (pid : Pid) : DaemonPermits (.starter pid .created) .removeFile
  | read (pid : Pid) : DaemonPermits (.starter pid .locked) .readFile
  | readAgain (pid : Pid) : DaemonPermits (.starter pid (.read none)) .readFile
  | probe (pid existing : Pid) :
      DaemonPermits (.starter pid (.read (some existing))) (.isProcessAlive existing)
  | removeStale (pid : Pid) : DaemonPermits (.starter pid (.read none)) .removeFile
  | releaseRefused (pid : Pid) : DaemonPermits (.starter pid .locked) (.release pid)
  | releaseReplaced (pid : Pid) : DaemonPermits (.starter pid (.read none)) (.release pid)
  | releaseWritten (pid : Pid) : DaemonPermits (.starter pid .written) (.release pid)
  | initDb (pid : Pid) : DaemonPermits (.starter pid .passed) .initDb
  | drain (pid : Pid) : DaemonPermits (.starter pid .passed) .drain
  | leave (pid : Pid) : DaemonPermits (.starter pid .passed) .removeFile
  | otherReads : DaemonPermits .other .readFile
  | otherProbes (pid : Pid) : DaemonPermits .other (.isProcessAlive pid)
  | otherTerminates (pid : Pid) : DaemonPermits .other (.sendTerm pid)
  | otherKills (pid : Pid) : DaemonPermits .other (.sendKill pid)
  | otherRemoves : DaemonPermits .other .removeFile

def daemonOutline : Outline DaemonQuery DaemonResult DaemonCall DaemonState DaemonPhase where
  good := fun state => ∀ pid, (state.standing pid ≠ .idle → state.born pid = true) ∧
    (state.Owns pid → Guarded state pid)
  stable := fun state phase =>
    match phase with
    | .starter pid step => step ≠ .unborn → state.born pid = true ∧
        (state.alive pid = true → step.Knows state pid)
    | .other => True
  permits := fun _ => DaemonPermits
  returns := fun _ _ _ => True

/-! ## The programs follow the outline -/

abbrev Claims {α : Type} (post : DaemonPhase → α → Prop) : DaemonPhase → Steps α → Prop :=
  Follows daemonService DaemonPermits post

/-- A claim is either written, or it comes to nothing while the lock is held. -/
def Claimed (pid : Pid) (phase : DaemonPhase) (result : Except DaemonError PUnit) : Prop :=
  match result with
  | .ok _ => phase = .starter pid .written
  | .error _ => phase = .starter pid .locked ∨ phase = .starter pid (.read none)

theorem created_follows {pid : Pid} {step : ClaimStep} :
    Claims (fun phase result => match result with
        | .ok _ => phase = .starter pid .written
        | .error .alreadyExists => phase = .starter pid step
        | .error (.other _) => phase = .starter pid .locked ∨ phase = .starter pid step)
      (.starter pid .created) (do
        match ← (.ask (.writeAll pid) .done : Steps (Except Text PUnit)) with
        | .ok _ => pure (.ok ⟨⟩)
        | .error e => do
            removePidFile
            pure (.error (.other e)) : Steps (Except CreateError PUnit)) := by
  refine ⟨.write pid, fun _ answer => ?_⟩
  cases answer with
  | ok _ => exact rfl
  | error e => exact ⟨.removeFailed pid, fun _ _ => .inl rfl⟩

theorem writeNewPid_follows {pid : Pid} {step : ClaimStep}
    (hstep : step = .locked ∨ step = .read none) :
    Claims (fun phase result => match result with
        | .ok _ => phase = .starter pid .written
        | .error .alreadyExists => phase = .starter pid step
        | .error (.other _) => phase = .starter pid .locked ∨ phase = .starter pid step)
      (.starter pid step) (writeNewPid pid) := by
  rcases hstep with rfl | rfl
  · refine ⟨.create pid, fun _ answer => ?_⟩
    cases answer with
    | ok _ => exact created_follows
    | error e => cases e with
      | alreadyExists => exact rfl
      | other e => exact .inl rfl
  · refine ⟨.createAgain pid, fun _ answer => ?_⟩
    cases answer with
    | ok _ => exact created_follows
    | error e => cases e with
      | alreadyExists => exact rfl
      | other e => exact .inr rfl

theorem replacePidFile_follows (pid : Pid) :
    Claims (Claimed pid) (.starter pid (.read none)) (replacePidFile pid) := by
  refine ⟨.removeStale pid, fun _ _ => (writeNewPid_follows (.inr rfl)).bind ?_⟩
  intro phase result hresult
  cases result with
  | ok _ => exact hresult
  | error e =>
    cases e with
    | alreadyExists =>
      obtain rfl : phase = _ := hresult
      exact ⟨.readAgain pid, fun _ _ => .inr rfl⟩
    | other e => exact hresult

theorem reclaimStalePidFile_follows (pid : Pid) :
    Claims (Claimed pid) (.starter pid .locked) (reclaimStalePidFile pid) := by
  refine ⟨.read pid, fun _ existing => ?_⟩
  cases existing with
  | none => exact replacePidFile_follows pid
  | some existing =>
    refine ⟨.probe pid existing, fun _ alive => ?_⟩
    cases alive with
    | true => exact .inl rfl
    | false => exact replacePidFile_follows pid

theorem claimLocked_follows (pid : Pid) :
    Claims (Claimed pid) (.starter pid .locked) (claimLocked pid) := by
  refine (writeNewPid_follows (.inl rfl)).bind fun phase result hresult => ?_
  cases result with
  | ok _ => exact hresult
  | error e =>
    cases e with
    | alreadyExists =>
      obtain rfl : phase = _ := hresult
      exact reclaimStalePidFile_follows pid
    | other e => exact .inl (hresult.elim id id)

theorem claimPidFile_follows (pid : Pid) :
    Claims (fun phase result => result.isOk = true → phase = .starter pid .passed)
      (.starter pid .waiting) (claimPidFile pid) := by
  refine ⟨.acquire pid, fun _ answer => ?_⟩
  cases answer with
  | error e => exact fun hok => nomatch hok
  | ok _ =>
    refine (claimLocked_follows pid).bind fun phase result hresult => ?_
    cases result with
    | ok _ =>
      obtain rfl : phase = _ := hresult
      exact ⟨.releaseWritten pid, fun _ _ _ => rfl⟩
    | error e =>
      rcases hresult with rfl | rfl
      · exact ⟨.releaseRefused pid, fun _ _ hok => nomatch hok⟩
      · exact ⟨.releaseReplaced pid, fun _ _ hok => nomatch hok⟩

theorem run_follows (pid : Pid) : Claims (fun _ _ => True) (.starter pid .unborn) (run pid) := by
  refine ⟨.spawn pid, fun _ _ => (claimPidFile_follows pid).bind fun phase result hresult => ?_⟩
  cases result with
  | error e => exact trivial
  | ok _ =>
    obtain rfl : phase = _ := hresult rfl
    refine ⟨.initDb pid, fun _ answer => ?_⟩
    cases answer with
    | error e => exact trivial
    | ok _ => exact ⟨.drain pid, fun _ _ => ⟨.leave pid, fun _ _ => trivial⟩⟩

theorem awaitExit_follows (pid : Pid) (polls : Nat) :
    Claims (fun _ _ => True) .other (awaitExit pid polls) := by
  induction polls with
  | zero => exact ⟨.otherKills pid, fun _ _ => ⟨.otherRemoves, fun _ _ => trivial⟩⟩
  | succ polls ih =>
    refine ⟨.otherProbes pid, fun _ alive => ?_⟩
    cases alive with
    | true => exact ih
    | false => exact ⟨.otherRemoves, fun _ _ => trivial⟩

theorem stopWithPidPath_follows (polls : Nat) :
    Claims (fun _ _ => True) .other (stopWithPidPath polls) := by
  refine ⟨.otherReads, fun _ existing => ?_⟩
  cases existing with
  | none => exact trivial
  | some pid =>
    refine ⟨.otherProbes pid, fun _ alive => ?_⟩
    cases alive with
    | false => exact ⟨.otherRemoves, fun _ _ => trivial⟩
    | true =>
      refine ⟨.otherTerminates pid, fun _ answer => ?_⟩
      cases answer with
      | error e => exact trivial
      | ok _ => exact (awaitExit_follows pid polls).bind fun _ _ _ => trivial

theorem daemon_follows (call : DaemonCall) :
    Claims (fun _ _ => True) (DaemonPhase.enter call) call.program := by
  cases call with
  | run pid => exact (run_follows pid).bind fun _ _ _ => trivial
  | stop polls => exact (stopWithPidPath_follows polls).bind fun _ _ _ => trivial
  | exit pid => exact ⟨.otherKills pid, fun _ _ => trivial⟩

variable {state next : DaemonState} {pid : Pid}

/-- A step on the account of `actor` revives nobody, leaves what others stand for and their
lock, and gives nobody a file while another holds the lock. -/
structure Frame (actor : Option Pid) (state next : DaemonState) : Prop where
  born : ∀ other, state.born other = true → next.born other = true
  alive : ∀ other, state.born other = true → next.alive other = true → state.alive other = true
  standing : ∀ other, some other ≠ actor → next.standing other = state.standing other
  lock : ∀ other, some other ≠ actor → state.alive other = true → state.lock = some other →
    next.lock = some other
  owners : ∀ other owner, some other ≠ actor → state.alive other = true →
    state.lock = some other → next.Owns owner → state.Owns owner

theorem Frame.refl (actor : Option Pid) (state : DaemonState) : Frame actor state state where
  born _ hborn := hborn
  alive _ _ halive := halive
  standing _ _ := rfl
  lock _ _ _ hlock := hlock
  owners _ _ _ _ _ howns := howns

theorem Frame.stable {actor : Option Pid} (hframe : Frame actor state next) {phase : DaemonPhase}
    (hother : ∀ pid, phase.pid? = some pid → some pid ≠ actor)
    (hstable : daemonOutline.stable state phase) : daemonOutline.stable next phase := by
  cases phase with
  | other => exact trivial
  | starter pid step =>
    intro hstep
    obtain ⟨hborn, hknows⟩ := hstable hstep
    refine ⟨hframe.born pid hborn, fun halive => ?_⟩
    have hne := hother pid rfl
    have hwas := hframe.alive pid hborn halive
    have hstanding := hframe.standing pid hne
    have hheld := hknows hwas
    cases step with
    | unborn => exact trivial
    | waiting | returned | passed => exact hstanding.trans hheld
    | locked | created | written =>
      exact ⟨hframe.lock pid hne hwas hheld.1, hstanding.trans hheld.2⟩
    | read existing =>
      exact ⟨hframe.lock pid hne hwas hheld.1, hstanding.trans hheld.2.1, fun other howns =>
        hheld.2.2 other (hframe.owners pid other hne hwas hheld.1 howns)⟩

theorem Frame.good {actor : Option Pid} (hframe : Frame actor state next)
    (hgood : daemonOutline.good state)
    (hfile : ∀ other, some other ≠ actor → state.Owns other → next.file = state.file)
    (hself : ∀ pid, some pid = actor → (next.standing pid ≠ .idle → next.born pid = true) ∧
      (next.Owns pid → Guarded next pid)) : daemonOutline.good next := by
  intro pid
  by_cases hpid : some pid = actor
  · exact hself pid hpid
  · have hstanding := hframe.standing pid hpid
    constructor
    · intro hidle
      rw [hstanding] at hidle
      exact hframe.born pid ((hgood pid).1 hidle)
    · rintro ⟨halive, hidle⟩
      rw [hstanding] at hidle
      have hwas := hframe.alive pid ((hgood pid).1 hidle) halive
      have hguarded := (hgood pid).2 ⟨hwas, hidle⟩
      constructor
      · rw [hfile pid hpid ⟨hwas, hidle⟩, hstanding]
        exact hguarded.file
      · intro hpassed
        rw [hstanding] at hpassed
        exact hframe.lock pid hpid hwas (hguarded.lock hpassed)

theorem owner_unique (hgood : daemonOutline.good state) {pid other : Pid}
    (howns : state.Owns pid) (hother : state.Owns other) : pid = other := by
  have hfile := ((hgood pid).2 howns).file.symm.trans ((hgood other).2 hother).file
  simp only [Option.some.injEq, PidFile.mk.injEq] at hfile
  exact hfile.1

theorem owner_of_locked (hgood : daemonOutline.good state) {other : Pid}
    (hlock : state.lock = some pid) (howns : state.Owns other) :
    other = pid ∨ state.standing other = .passed := by
  by_cases hpassed : state.standing other = .passed
  · exact .inr hpassed
  · have hheld := ((hgood other).2 howns).lock hpassed
    exact .inl (Option.some.inj (hheld.symm.trans hlock))

theorem serve_eq_some {phase : DaemonPhase} {answer : query.Answer}
    (hserve : state.serve phase failure query = some (answer, next)) :
    state.acts phase = true ∧ state.perform phase failure query = some (answer, next) := by
  unfold DaemonState.serve at hserve
  split at hserve
  next hacts => exact ⟨hacts, hserve⟩
  next => contradiction

/-! ## The steps -/

theorem spawn_frame (hgood : daemonOutline.good state) (hborn : state.born pid = false)
    (hnext : next = { state with
      born := Function.update state.born pid true
      alive := Function.update state.alive pid true }) :
    Frame (some pid) state next ∧ daemonOutline.good next ∧ next.standing pid = .idle := by
  have hidle : state.standing pid = .idle := by
    by_contra hstands
    have hwas := (hgood pid).1 hstands
    rw [hborn] at hwas
    contradiction
  have hframe : Frame (some pid) state next := by
    subst hnext
    refine ⟨?_, ?_, fun _ _ => rfl, fun _ _ _ hlock => hlock, ?_⟩
    · intro other hother
      by_cases hsame : other = pid
      · rw [hsame]
        exact Function.update_self ..
      · exact (Function.update_of_ne hsame ..).trans hother
    · intro other hother halive
      have hne : other ≠ pid := fun hsame => by simp [hsame, hborn] at hother
      exact (Function.update_of_ne hne ..).symm.trans halive
    · rintro other owner _ _ _ ⟨halive, hstands⟩
      have hne : owner ≠ pid := fun hsame => hstands (hsame ▸ hidle)
      exact ⟨(Function.update_of_ne hne ..).symm.trans halive, hstands⟩
  subst hnext
  refine ⟨hframe, hframe.good hgood (fun _ _ _ => rfl) ?_, hidle⟩
  intro self hself
  obtain rfl := Option.some.inj hself
  exact ⟨fun _ => Function.update_self .., fun howns => absurd hidle howns.2⟩

theorem acquire_frame (hgood : daemonOutline.good state)
    (hfree : (state.lock.filter state.alive).isSome = false) (hidle : state.standing pid = .idle)
    (hnext : next = { state with lock := some pid }) :
    Frame (some pid) state next ∧ daemonOutline.good next := by
  have hnobody : ∀ other, state.alive other = true → state.lock ≠ some other := by
    intro other halive hlock
    rw [hlock, Option.filter_some, if_pos halive] at hfree
    contradiction
  have hframe : Frame (some pid) state next := by
    subst hnext
    exact ⟨fun _ hborn => hborn, fun _ _ halive => halive, fun _ _ => rfl,
      fun other _ halive hlock => absurd hlock (hnobody other halive),
      fun other _ _ halive hlock => absurd hlock (hnobody other halive)⟩
  subst hnext
  refine ⟨hframe, hframe.good hgood (fun _ _ _ => rfl) ?_⟩
  intro self hself
  obtain rfl := Option.some.inj hself
  exact ⟨fun hstands => absurd hidle hstands, fun howns => absurd hidle howns.2⟩

theorem holder_frame {standing : Standing} (hlock : state.lock = some pid)
    (hborn : next.born = state.born) (halive : next.alive = state.alive)
    (hstanding : next.standing = Function.update state.standing pid standing) :
    Frame (some pid) state next where
  born other hother := by rwa [hborn]
  alive other _ hother := by rwa [halive] at hother
  standing other hne := by
    rw [hstanding]
    exact Function.update_of_ne (fun hsame => hne (congrArg some hsame)) ..
  lock other hne _ hheld := absurd (hheld.symm.trans hlock) hne
  owners other _ hne _ hheld _ := absurd (hheld.symm.trans hlock) hne

theorem create_frame (hgood : daemonOutline.good state) (hlock : state.lock = some pid)
    (hborn : state.born pid = true) (hfile : state.file = none)
    (hnext : next = { state.stand pid .created with file := some ⟨some pid, none⟩ }) :
    Frame (some pid) state next ∧ daemonOutline.good next ∧ next.lock = some pid ∧
      next.standing pid = .created := by
  have hstanding : next.standing pid = .created := by
    rw [hnext]
    exact Function.update_self ..
  have hframe : Frame (some pid) state next := by
    subst hnext
    exact holder_frame hlock rfl rfl rfl
  subst hnext
  refine ⟨hframe, hframe.good hgood ?_ ?_, hlock, hstanding⟩
  · intro other _ howns
    have hheld := ((hgood other).2 howns).file
    rw [hfile] at hheld
    contradiction
  · intro self hself
    obtain rfl := Option.some.inj hself
    refine ⟨fun _ => hborn, fun _ => ⟨?_, fun _ => hlock⟩⟩
    rw [hstanding]
    rfl

theorem write_frame (hgood : daemonOutline.good state) (hlock : state.lock = some pid)
    (halive : state.alive pid = true) (hcreated : state.standing pid = .created)
    (hborn : state.born pid = true) (hnext : next = state.write pid) :
    Frame (some pid) state next ∧ daemonOutline.good next ∧ next.lock = some pid ∧
      next.standing pid = .written := by
  have howns : state.Owns pid := ⟨halive, by simp [hcreated]⟩
  have hstanding : next.standing pid = .written := by
    rw [hnext]
    exact Function.update_self ..
  have hframe : Frame (some pid) state next := by
    subst hnext
    exact holder_frame hlock rfl rfl rfl
  subst hnext
  refine ⟨hframe, hframe.good hgood ?_ ?_, hlock, hstanding⟩
  · intro other hne hother
    exact absurd (congrArg some (owner_unique hgood hother howns)) hne
  · intro self hself
    obtain rfl := Option.some.inj hself
    refine ⟨fun _ => hborn, fun _ => ⟨?_, fun _ => hlock⟩⟩
    have hfile := ((hgood self).2 howns).file
    rw [hstanding]
    simp only [DaemonState.write, hfile, Option.map_some, if_true]
    rfl

theorem remove_frame {step : ClaimStep} (failure : Option Text) (hgood : daemonOutline.good state)
    (halone : ∀ other, state.Owns other → other = pid)
    (hnext : next = state.remove (.starter pid step) failure) :
    Frame (some pid) state next ∧ daemonOutline.good next ∧ next.lock = state.lock ∧
      next.standing pid = .idle ∧ ∀ other, ¬next.Owns other := by
  have hstanding : next.standing pid = .idle := by
    rw [hnext]
    exact Function.update_self ..
  have hothers : ∀ other, other ≠ pid → next.standing other = state.standing other := by
    intro other hne
    rw [hnext]
    exact Function.update_of_ne hne ..
  have hnobody : ∀ other, ¬next.Owns other := by
    rintro other ⟨halive, hstands⟩
    by_cases hsame : other = pid
    · exact hstands (hsame ▸ hstanding)
    · rw [hothers other hsame] at hstands
      rw [hnext] at halive
      exact hsame (halone other ⟨halive, hstands⟩)
  have hframe : Frame (some pid) state next := by
    refine ⟨?_, ?_, fun other hne => hothers other fun hsame => hne (congrArg some hsame), ?_,
      fun _ owner _ _ _ howns => absurd howns (hnobody owner)⟩
    · intro other hborn
      rw [hnext]
      exact hborn
    · intro other _ halive
      rw [hnext] at halive
      exact halive
    · intro other _ _ hlock
      rw [hnext]
      exact hlock
  refine ⟨hframe, hframe.good hgood ?_ ?_, by rw [hnext]; rfl, hstanding, hnobody⟩
  · intro other hne howns
    exact absurd (congrArg some (halone other howns)) hne
  · intro self hself
    obtain rfl := Option.some.inj hself
    exact ⟨fun hstands => absurd hstanding hstands, fun howns => absurd howns (hnobody self)⟩

theorem release_frame (hgood : daemonOutline.good state) (hlock : state.lock = some pid)
    (hsettled : state.standing pid = .idle ∨ state.standing pid = .written)
    (halive : state.alive pid = true) (hborn : state.born pid = true)
    (hnext : next = state.unlock pid) :
    Frame (some pid) state next ∧ daemonOutline.good next ∧ next.standing pid =
      (if state.standing pid = .written then .passed else state.standing pid) := by
  have hstanding : next.standing pid =
      (if state.standing pid = .written then .passed else state.standing pid) := by
    rw [hnext]
    exact Function.update_self ..
  have hframe : Frame (some pid) state next := by
    subst hnext
    exact holder_frame hlock rfl rfl rfl
  subst hnext
  refine ⟨hframe, hframe.good hgood (fun _ _ _ => rfl) ?_, hstanding⟩
  intro self hself
  obtain rfl := Option.some.inj hself
  refine ⟨fun _ => hborn, ?_⟩
  rintro ⟨-, hstands⟩
  rcases hsettled with hidle | hwritten
  · rw [if_neg (by simp [hidle])] at hstanding
    exact absurd (hstanding.trans hidle) hstands
  · rw [if_pos hwritten] at hstanding
    refine ⟨?_, fun hpassed => absurd hstanding hpassed⟩
    have hfile := ((hgood self).2 ⟨halive, by simp [hwritten]⟩).file
    rw [hwritten] at hfile
    rw [hstanding]
    exact hfile

theorem kill_frame (hgood : daemonOutline.good state) (hnext : next = { state with
      alive := Function.update state.alive pid false }) :
    Frame none state next ∧ daemonOutline.good next := by
  have halive : ∀ other, next.alive other = true → state.alive other = true := by
    intro other hother
    rw [hnext] at hother
    by_cases hsame : other = pid
    · rw [hsame] at hother
      simp at hother
    · exact (Function.update_of_ne hsame ..).symm.trans hother
  have hframe : Frame none state next := by
    refine ⟨?_, fun other _ => halive other, ?_, ?_, ?_⟩
    · intro other hborn
      rw [hnext]
      exact hborn
    · intro other _
      rw [hnext]
    · intro other _ _ hlock
      rw [hnext]
      exact hlock
    · rintro other owner _ _ _ ⟨hlives, hstands⟩
      rw [hnext] at hstands
      exact ⟨halive owner hlives, hstands⟩
  refine ⟨hframe, hframe.good hgood ?_ fun _ hself => nomatch hself⟩
  intro _ _ _
  rw [hnext]

theorem stop_remove_frame (hgood : daemonOutline.good state)
    (hspares : failure = none → ∀ pid, ¬state.Owns pid)
    (hnext : next = state.remove .other failure) :
    Frame none state next ∧ daemonOutline.good next := by
  have hframe : Frame none state next := by
    subst hnext
    exact ⟨fun _ hborn => hborn, fun _ _ halive => halive, fun _ _ => rfl,
      fun _ _ _ hlock => hlock, fun _ _ _ _ _ howns => howns⟩
  refine ⟨hframe, hframe.good hgood ?_ fun _ hself => nomatch hself⟩
  intro other _ howns
  rw [hnext]
  cases failure with
  | none => exact absurd howns (hspares rfl other)
  | some e => rfl

/-! ## The outline is sound -/

theorem acts_of_starter {step : ClaimStep} (hstep : step ≠ .unborn)
    (hacts : state.acts (.starter pid step) = true) : state.alive pid = true := by
  cases step with
  | unborn => contradiction
  | waiting | locked | read | created | written | passed | returned => exact hacts

theorem stable_starter {step : ClaimStep} (hborn : state.born pid = true)
    (hknows : step.Knows state pid) : daemonOutline.stable state (.starter pid step) :=
  fun _ => ⟨hborn, fun _ => hknows⟩

section

variable (hgood : daemonOutline.good state)
include hgood

theorem quiet_step {after : ClaimStep} (hsame : state = next)
    (hborn : state.born pid = true) (hknows : after.Knows state pid) :
    Frame (some pid) state next ∧ daemonOutline.good next ∧
      daemonOutline.stable next (.starter pid after) := by
  subst hsame
  exact ⟨Frame.refl _ _, hgood, stable_starter hborn hknows⟩

theorem create_step {step : ClaimStep} {answer : Except CreateError PUnit}
    (hborn : state.born pid = true)
    (hlock : state.lock = some pid) (hknows : step.Knows state pid)
    (hcreate : state.perform (.starter pid step) failure (.createNew pid) = some (answer, next)) :
    Frame (some pid) state next ∧ daemonOutline.good next ∧ match answer with
      | .ok _ => daemonOutline.stable next (.starter pid .created)
      | .error _ => daemonOutline.stable next (.starter pid step) := by
  cases failure with
  | some e =>
    obtain ⟨rfl, hnext⟩ := Prod.mk.inj (Option.some.inj hcreate)
    exact quiet_step hgood hnext hborn hknows
  | none =>
    cases hfile : state.file with
    | some file =>
      simp only [DaemonState.perform, hfile] at hcreate
      obtain ⟨rfl, hnext⟩ := Prod.mk.inj (Option.some.inj hcreate)
      exact quiet_step hgood hnext hborn hknows
    | none =>
      simp only [DaemonState.perform, hfile] at hcreate
      obtain ⟨rfl, hnext⟩ := Prod.mk.inj (Option.some.inj hcreate)
      obtain ⟨hframe, hafter, hheld, hcreated⟩ := create_frame hgood hlock hborn hfile hnext.symm
      exact ⟨hframe, hafter, stable_starter (hframe.born pid hborn) ⟨hheld, hcreated⟩⟩

theorem releaseIdle_step (hlock : state.lock = some pid)
    (hidle : state.standing pid = .idle) (halive : state.alive pid = true)
    (hborn : state.born pid = true) (hnext : next = state.unlock pid) :
    Frame (some pid) state next ∧ daemonOutline.good next ∧
      daemonOutline.stable next (.starter pid .returned) := by
  obtain ⟨hframe, hafter, hstanding⟩ := release_frame hgood hlock (.inl hidle) halive hborn hnext
  rw [if_neg (by simp [hidle])] at hstanding
  exact ⟨hframe, hafter, stable_starter (hframe.born pid hborn) (hstanding.trans hidle)⟩

theorem starter_step {step : ClaimStep} {answer : query.Answer}
    (hpermits : DaemonPermits (.starter pid step) query)
    (hstable : daemonOutline.stable state (.starter pid step))
    (hspares : query = .readFile → failure ≠ none → ∀ owner, ¬state.Owns owner)
    (hserve : state.serve (.starter pid step) failure query = some (answer, next)) :
    Frame (some pid) state next ∧ daemonOutline.good next ∧
      daemonOutline.stable next (.starter pid (step.observe query answer)) := by
  obtain ⟨hacts, hperform⟩ := serve_eq_some hserve
  have hknown : step ≠ .unborn →
      state.born pid = true ∧ state.alive pid = true ∧ step.Knows state pid := by
    intro hstep
    have halive := acts_of_starter hstep hacts
    exact ⟨(hstable hstep).1, halive, (hstable hstep).2 halive⟩
  cases hpermits with
  | spawn =>
    simp only [DaemonState.perform] at hperform
    split at hperform
    next => contradiction
    next hborn =>
      obtain ⟨-, hnext⟩ := Prod.mk.inj (Option.some.inj hperform)
      obtain ⟨hframe, hafter, hidle⟩ := spawn_frame hgood (Bool.eq_false_iff.mpr hborn) hnext.symm
      refine ⟨hframe, hafter, stable_starter ?_ hidle⟩
      rw [← hnext]
      exact Function.update_self ..
  | acquire =>
    obtain ⟨hborn, -, hidle⟩ := hknown (by simp)
    cases failure with
    | some e =>
      obtain ⟨rfl, hnext⟩ := Prod.mk.inj (Option.some.inj hperform)
      exact quiet_step hgood hnext hborn hidle
    | none =>
      simp only [DaemonState.perform] at hperform
      split at hperform
      next => contradiction
      next hfree =>
        obtain ⟨rfl, hnext⟩ := Prod.mk.inj (Option.some.inj hperform)
        obtain ⟨hframe, hafter⟩ :=
          acquire_frame hgood (Bool.eq_false_iff.mpr hfree) hidle hnext.symm
        refine ⟨hframe, hafter, stable_starter (hframe.born pid hborn) ⟨?_, ?_⟩⟩
        · rw [← hnext]
        · rw [← hnext]
          exact hidle
  | create =>
    obtain ⟨hborn, -, hknows⟩ := hknown (by simp)
    have hcreated := create_step hgood hborn hknows.1 hknows hperform
    cases answer with
    | ok _ => exact hcreated
    | error e => exact hcreated
  | createAgain =>
    obtain ⟨hborn, -, hknows⟩ := hknown (by simp)
    have hcreated := create_step hgood hborn hknows.1 hknows hperform
    cases answer with
    | ok _ => exact hcreated
    | error e => exact hcreated
  | write =>
    obtain ⟨hborn, halive, hlock, hcreated⟩ := hknown (by simp)
    cases failure with
    | some e =>
      obtain ⟨rfl, hnext⟩ := Prod.mk.inj (Option.some.inj hperform)
      exact quiet_step hgood hnext hborn ⟨hlock, hcreated⟩
    | none =>
      obtain ⟨rfl, hnext⟩ := Prod.mk.inj (Option.some.inj hperform)
      obtain ⟨hframe, hafter, hheld, hwritten⟩ :=
        write_frame hgood hlock halive hcreated hborn hnext.symm
      exact ⟨hframe, hafter, stable_starter (hframe.born pid hborn) ⟨hheld, hwritten⟩⟩
  | removeFailed =>
    obtain ⟨hborn, halive, hlock, hcreated⟩ := hknown (by simp)
    obtain ⟨-, hnext⟩ := Prod.mk.inj (Option.some.inj hperform)
    have howns : state.Owns pid := ⟨halive, by simp [hcreated]⟩
    obtain ⟨hframe, hafter, hheld, hidle, -⟩ :=
      remove_frame failure hgood (fun other hother => owner_unique hgood hother howns) hnext.symm
    exact ⟨hframe, hafter, stable_starter (hframe.born pid hborn) ⟨hheld.trans hlock, hidle⟩⟩
  | read =>
    obtain ⟨hborn, -, hlock, hidle⟩ := hknown (by simp)
    obtain ⟨hanswer, hnext⟩ := Prod.mk.inj (Option.some.inj hperform)
    refine quiet_step hgood hnext hborn ⟨hlock, hidle, fun owner howns => ?_⟩
    cases failure with
    | some e => exact absurd howns (hspares rfl (Option.some_ne_none e) owner)
    | none =>
      rcases owner_of_locked hgood hlock howns with rfl | hpassed
      · exact absurd hidle howns.2
      · have hfile := ((hgood owner).2 howns).file
        rw [hpassed] at hfile
        rw [← hanswer, if_pos rfl, hfile]
        rfl
  | readAgain =>
    obtain ⟨hborn, -, hknows⟩ := hknown (by simp)
    obtain ⟨-, hnext⟩ := Prod.mk.inj (Option.some.inj hperform)
    exact quiet_step hgood hnext hborn hknows
  | probe existing =>
    obtain ⟨hborn, -, hlock, hidle, howner⟩ := hknown (by simp)
    obtain ⟨hanswer, hnext⟩ := Prod.mk.inj (Option.some.inj hperform)
    cases answer with
    | true => exact quiet_step hgood hnext hborn ⟨hlock, hidle⟩
    | false =>
      refine quiet_step hgood hnext hborn ⟨hlock, hidle, fun owner howns => ?_⟩
      obtain rfl := Option.some.inj (howner owner howns)
      rw [howns.1] at hanswer
      contradiction
  | removeStale =>
    obtain ⟨hborn, -, hlock, hidle, howner⟩ := hknown (by simp)
    obtain ⟨-, hnext⟩ := Prod.mk.inj (Option.some.inj hperform)
    obtain ⟨hframe, hafter, hheld, hidle, hnobody⟩ := remove_frame failure hgood
      (fun other hother => nomatch howner other hother) hnext.symm
    exact ⟨hframe, hafter, stable_starter (hframe.born pid hborn) ⟨hheld.trans hlock, hidle,
      fun other hother => absurd hother (hnobody other)⟩⟩
  | releaseRefused =>
    obtain ⟨hborn, halive, hlock, hidle⟩ := hknown (by simp)
    obtain ⟨-, hnext⟩ := Prod.mk.inj (Option.some.inj hperform)
    exact releaseIdle_step hgood hlock hidle halive hborn hnext.symm
  | releaseReplaced =>
    obtain ⟨hborn, halive, hlock, hidle, -⟩ := hknown (by simp)
    obtain ⟨-, hnext⟩ := Prod.mk.inj (Option.some.inj hperform)
    exact releaseIdle_step hgood hlock hidle halive hborn hnext.symm
  | releaseWritten =>
    obtain ⟨hborn, halive, hlock, hwritten⟩ := hknown (by simp)
    obtain ⟨-, hnext⟩ := Prod.mk.inj (Option.some.inj hperform)
    obtain ⟨hframe, hafter, hstanding⟩ :=
      release_frame hgood hlock (.inr hwritten) halive hborn hnext.symm
    rw [if_pos hwritten] at hstanding
    exact ⟨hframe, hafter, stable_starter (hframe.born pid hborn) hstanding⟩
  | initDb =>
    obtain ⟨hborn, -, hpassed⟩ := hknown (by simp)
    cases failure with
    | some e =>
      obtain ⟨-, hnext⟩ := Prod.mk.inj (Option.some.inj hperform)
      exact quiet_step hgood hnext hborn hpassed
    | none =>
      obtain ⟨-, hnext⟩ := Prod.mk.inj (Option.some.inj hperform)
      exact quiet_step hgood hnext hborn hpassed
  | drain =>
    obtain ⟨hborn, -, hpassed⟩ := hknown (by simp)
    obtain ⟨-, hnext⟩ := Prod.mk.inj (Option.some.inj hperform)
    exact quiet_step hgood hnext hborn hpassed
  | leave =>
    obtain ⟨hborn, halive, hpassed⟩ := hknown (by simp)
    obtain ⟨-, hnext⟩ := Prod.mk.inj (Option.some.inj hperform)
    have howns : state.Owns pid := ⟨halive, by rw [show state.standing pid = _ from hpassed]; simp⟩
    obtain ⟨hframe, hafter, -, hidle, -⟩ :=
      remove_frame failure hgood (fun other hother => owner_unique hgood hother howns) hnext.symm
    exact ⟨hframe, hafter, stable_starter (hframe.born pid hborn) hidle⟩

theorem other_step {answer : query.Answer} (hpermits : DaemonPermits .other query)
    (hspares : query = .removeFile → failure = none → ∀ owner, ¬state.Owns owner)
    (hserve : state.serve .other failure query = some (answer, next)) :
    Frame none state next ∧ daemonOutline.good next := by
  obtain ⟨-, hperform⟩ := serve_eq_some hserve
  have hquiet : state = next → Frame none state next ∧ daemonOutline.good next := by
    rintro rfl
    exact ⟨Frame.refl _ _, hgood⟩
  cases hpermits with
  | otherReads => exact hquiet (Prod.mk.inj (Option.some.inj hperform)).2
  | otherProbes => exact hquiet (Prod.mk.inj (Option.some.inj hperform)).2
  | otherTerminates =>
    simp only [DaemonState.perform] at hperform
    split at hperform
    next => exact hquiet (Prod.mk.inj (Option.some.inj hperform)).2
    next =>
      split at hperform
      next => exact hquiet (Prod.mk.inj (Option.some.inj hperform)).2
      next => exact hquiet (Prod.mk.inj (Option.some.inj hperform)).2
  | otherKills pid =>
    cases failure with
    | none => exact kill_frame hgood (Prod.mk.inj (Option.some.inj hperform)).2.symm
    | some e => exact hquiet (Prod.mk.inj (Option.some.inj hperform)).2
  | otherRemoves =>
    exact stop_remove_frame hgood (hspares rfl) (Prod.mk.inj (Option.some.inj hperform)).2.symm

end

def Distinct (world : DaemonWorld Process) : Prop :=
  ∀ process other task task' pid, world.tasks process = some task →
    world.tasks other = some task' → task.phase.pid? = some pid → task'.phase.pid? = some pid →
    process = other

theorem daemon_sound [DecidableEq Process] : Sound daemonService daemonOutline
      (fun (world : DaemonWorld Process) move => Distinct world ∧ SparesOwner world move) where
  follows _ := daemon_follows
  enter state call hgood := by
    cases call with
    | run pid => exact fun hunborn => absurd rfl hunborn
    | stop | exit => exact trivial
  finish world process call phase result hholds htask _ _ :=
    ⟨hholds.good, fun other task hother _ => hholds.stable other task hother⟩
  serve world process call phase query resume failure answer next hholds htask hguard hpermits
      hserve := by
    change world.shared.serve phase failure query = some (answer, next) at hserve
    have hspares := hguard.2 call phase query resume htask
    -- It is enough that the step disturbs nobody else.
    have hsettled : Frame phase.pid? world.shared next → daemonOutline.good next →
        daemonOutline.stable next (phase.observe query answer) →
        daemonOutline.good next ∧ daemonOutline.stable next (phase.observe query answer) ∧
          ∀ other task, world.tasks other = some task → other ≠ process →
            daemonOutline.stable next task.phase := by
      intro hframe hgood hself
      refine ⟨hgood, hself, fun other task hother hne => ?_⟩
      refine hframe.stable ?_ (hholds.stable other task hother)
      intro pid hpid hsame
      exact hne (hguard.1 other process task _ pid hother htask hpid hsame.symm)
    cases phase with
    | starter pid step =>
      have hown : query = .readFile → failure ≠ none → ∀ owner, ¬world.shared.Owns owner := by
        rintro rfl
        exact hspares
      obtain ⟨hframe, hgood, hself⟩ :=
        starter_step hholds.good hpermits (hholds.stable process _ htask) hown hserve
      exact hsettled hframe hgood hself
    | other =>
      have hremoves : query = .removeFile → failure = none → ∀ owner, ¬world.shared.Owns owner := by
        rintro rfl
        exact hspares
      obtain ⟨hframe, hgood⟩ := other_step hholds.good hpermits hremoves hserve
      exact hsettled hframe hgood trivial

/-! ## Runs -/

theorem observe_pid? (phase : DaemonPhase) (query : DaemonQuery) (answer : query.Answer) :
    (phase.observe query answer).pid? = phase.pid? := by
  cases phase with
  | starter pid step => rfl
  | other => rfl

theorem singleInstance_of_good (hgood : daemonOutline.good state) : state.SingleInstance := by
  have howns : ∀ pid, state.LiveDaemon pid → state.Owns pid := by
    rintro pid ⟨halive, hpassed⟩
    exact ⟨halive, by simp [hpassed]⟩
  refine ⟨fun pid other hpid hother => owner_unique hgood (howns pid hpid) (howns other hother), ?_⟩
  intro pid hpid
  have hfile := ((hgood pid).2 (howns pid hpid)).file
  rw [hpid.2] at hfile
  exact ⟨_, hfile, rfl⟩

theorem Distinct.step [DecidableEq Process] {world after : DaemonWorld Process}
    {move : Move Process DaemonCall (Option Text)} (hdistinct : Distinct world)
    (hfresh : FreshPids world move) (hstep : daemonService.step world move = some after) :
    Distinct after := by
  have hexclusive : Exclusive (fun phase pid => phase.pid? = some pid) world := hdistinct
  apply hexclusive.step _ _ hstep
  · rintro process call rfl pid hpid
    cases call with
    | run started =>
      obtain rfl := Option.some.inj hpid
      exact hfresh
    | stop | exit => exact nomatch hpid
  · intro process failure call phase query resume answer shared _ _ pid hpid
    exact .inl ((observe_pid? phase query answer).symm.trans hpid)

/-- No daemon yet; the pid file may be there from before, and any processes may live. -/
def DaemonState.before (contents : Option (Option Pid)) (alive : Pid → Bool) : DaemonState where
  file := contents.map fun contents => ⟨none, contents⟩
  lock := none
  alive := alive
  born := fun _ => false
  standing := fun _ => .idle

/-- In every run in which no stop removes the file of a live daemon or of a claim in progress, at
most one daemon lives at any time, and the pid file names it. -/
theorem single_instance_of_run [DecidableEq Process] {contents : Option (Option Pid)}
    {alive : Pid → Bool} {schedule : List (Move Process DaemonCall (Option Text))}
    {world : DaemonWorld Process}
    (hrun : Run daemonService.step (fun world move => FreshPids world move ∧ SparesOwner world move)
      (start (.before contents alive)) schedule world) : world.shared.SingleInstance := by
  have hstart : Holds daemonService daemonOutline
      (start (.before contents alive) : DaemonWorld Process) :=
    Holds.start fun pid => ⟨fun hstands => absurd rfl hstands, fun howns => absurd rfl howns.2⟩
  have hnobody : Distinct (start (.before contents alive) : DaemonWorld Process) := by
    intro first second task task' pid hfirst
    contradiction
  have hstep : ∀ (world : DaemonWorld Process) move after,
      Holds daemonService daemonOutline world ∧ Distinct world →
      FreshPids world move ∧ SparesOwner world move → daemonService.step world move = some after →
      Holds daemonService daemonOutline after ∧ Distinct after := by
    rintro world move after ⟨hholds, hdistinct⟩ ⟨hfresh, hspares⟩ hstep
    exact ⟨hholds.step daemon_sound ⟨hdistinct, hspares⟩ hstep, hdistinct.step hfresh hstep⟩
  have hall := hrun.invariant hstep ⟨hstart, hnobody⟩
  exact singleInstance_of_good hall.1.good

inductive Party
  | stopper
  | first
  | second
  deriving DecidableEq

def startOverStale : List (Move Party DaemonCall (Option Text)) :=
  [.call .first (.run 2)] ++ List.replicate 9 (.serve .first none)

/-- A stop removes the file of a dead daemon; then two daemons start after one another. -/
def startsAfterStop : List (Move Party DaemonCall (Option Text)) :=
  .call .stopper (.stop 0) :: List.replicate 3 (.serve .stopper none) ++
    [.call .first (.run 2)] ++ List.replicate 5 (.serve .first none) ++
    [.call .second (.run 3)] ++ List.replicate 6 (.serve .second none) ++ [.finish .second]

theorem single_instance_after_stop : ∃ world : DaemonWorld Party, Run daemonService.step
      (fun world move => FreshPids world move ∧ SparesOwner world move)
      (start (.before (some (some 1)) fun _ => false)) startsAfterStop world ∧
      world.shared.LiveDaemon 2 ∧ world.shared.SingleInstance := by
  have hrun : ∃ world : DaemonWorld Party, Run daemonService.step
      (fun world move => FreshPids world move ∧ SparesOwner world move)
      (start (.before (some (some 1)) fun _ => false)) startsAfterStop world ∧
      world.shared.LiveDaemon 2 := by
    refine ⟨_, .cons ⟨trivial, trivial⟩ rfl (.cons ⟨trivial, ?_⟩ rfl (.cons ⟨trivial, ?_⟩ rfl
      (.cons ⟨trivial, ?_⟩ rfl (.cons ⟨?_, trivial⟩ rfl (.cons ⟨trivial, ?_⟩ rfl
      (.cons ⟨trivial, ?_⟩ rfl (.cons ⟨trivial, ?_⟩ rfl (.cons ⟨trivial, ?_⟩ rfl
      (.cons ⟨trivial, ?_⟩ rfl (.cons ⟨?_, trivial⟩ rfl (.cons ⟨trivial, ?_⟩ rfl
      (.cons ⟨trivial, ?_⟩ rfl (.cons ⟨trivial, ?_⟩ rfl (.cons ⟨trivial, ?_⟩ rfl
      (.cons ⟨trivial, ?_⟩ rfl (.cons ⟨trivial, ?_⟩ rfl (.cons ⟨trivial, trivial⟩ rfl
      (.nil _)))))))))))))))))), rfl, rfl⟩
    all_goals first
      | (intro other task htask
         cases other <;> cases htask <;> decide)
      | (intro call phase query resume htask
         cases htask
         first
           | exact trivial
           | exact fun hfails => absurd rfl hfails
           | exact fun _ pid howns => absurd rfl howns.2)
  obtain ⟨world, hworld, hlive⟩ := hrun
  exact ⟨world, hworld, hlive, single_instance_of_run hworld⟩
/-- Two daemons start after one another. Before the first one starts, a stop has found the file
of a dead daemon; it removes the file when the first one has claimed it. -/
def stopBetweenStarts : List (Move Party DaemonCall (Option Text)) :=
  [.call .stopper (.stop 0), .serve .stopper none, .serve .stopper none] ++ startOverStale ++
    [.serve .stopper none, .call .second (.run 3)] ++ List.replicate 5 (.serve .second none)

theorem stop_lets_two_daemons_live : ¬ ∀ (contents : Option (Option Pid)) (alive : Pid → Bool)
      (schedule : List (Move Party DaemonCall (Option Text))) (world : DaemonWorld Party),
      Run daemonService.step FreshPids (start (.before contents alive)) schedule world →
        world.shared.SingleInstance := by
  intro hall
  have hrun : ∃ world : DaemonWorld Party, Run daemonService.step FreshPids
      (start (.before (some (some 1)) fun _ => false)) stopBetweenStarts world ∧
      world.shared.LiveDaemon 2 ∧ world.shared.LiveDaemon 3 := by
    refine ⟨_, .cons trivial rfl (.cons trivial rfl (.cons trivial rfl (.cons ?_ rfl
      (.cons trivial rfl (.cons trivial rfl (.cons trivial rfl (.cons trivial rfl
      (.cons trivial rfl (.cons trivial rfl (.cons trivial rfl (.cons trivial rfl
      (.cons trivial rfl (.cons trivial rfl (.cons ?_ rfl (.cons trivial rfl
      (.cons trivial rfl (.cons trivial rfl (.cons trivial rfl (.cons trivial rfl
      (.nil _)))))))))))))))))))), ⟨rfl, rfl⟩, rfl, rfl⟩
    · intro other task htask
      cases other with
      | stopper =>
        cases htask
        exact fun hsame : (none : Option Pid) = some 2 => nomatch hsame
      | first | second => contradiction
    · intro other task htask
      cases other with
      | stopper =>
        cases htask
        exact fun hsame : (none : Option Pid) = some 3 => nomatch hsame
      | first =>
        cases htask
        decide
      | second => contradiction
  obtain ⟨world, hworld, hfirst, hsecond⟩ := hrun
  exact absurd ((hall _ _ _ world hworld).1 2 3 hfirst hsecond) (by decide)

end Difflore.Daemon

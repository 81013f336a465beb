import Difflore.Forward.Endpoint

/-! # At most one listener

A launch removes a file only after a probe found no live owner there. The probe says nothing
about a listener that is bound between it and the removal; the runs below are those without one.
-/

namespace Difflore.Forward

open Foundation Foundation.Service

abbrev ForwardWorld (Process : Type) :=
  World ForwardQuery ForwardQuery.Answer (Except Text (Option ListenerId)) Bool Endpoint LaunchPhase
    Process

variable {Process : Type}

/-- No socket file of a live listener was removed, and at most one listener lives. -/
def Endpoint.SingleListener (endpoint : Endpoint) : Prop :=
  endpoint.unlinked = [] ∧ ∀ listener other, endpoint.live listener = true →
    endpoint.live other = true → listener = other

def Steps (_ : ForwardWorld Process) : Move Process Bool (Option Text) → Prop
  | .crash _ => False
  | .call _ _ | .serve _ _ | .finish _ => True

/-- When a launch removes the file, nobody has bound the path since its last probe. -/
def NoBindSinceProbe (world : ForwardWorld Process) : Move Process Bool (Option Text) → Prop
  | .serve process failure => ∀ call binds resume, failure = none →
      world.tasks process = some ⟨call, .foundDead binds, .ask .removeFile resume⟩ →
      world.shared.binds = binds
  | _ => True

inductive ForwardPermits : LaunchPhase → ForwardQuery → Prop
  | createDirAll (phase : LaunchPhase) : ForwardPermits phase .createDirAll
  | bind (phase : LaunchPhase) : ForwardPermits phase .bind
  | symlinkMetadata (phase : LaunchPhase) : ForwardPermits phase .symlinkMetadata
  | connect (phase : LaunchPhase) : ForwardPermits phase .connect
  | removeFile (binds : Nat) : ForwardPermits (.foundDead binds) .removeFile

def forwardOutline : Outline ForwardQuery (Except Text (Option ListenerId)) Bool Endpoint
    LaunchPhase where
  good := fun endpoint => endpoint.unlinked = [] ∧
    ∀ listener, endpoint.live listener = true → endpoint.entry = some (.socket listener)
  stable := fun endpoint phase =>
    match phase with
    | .launched => True
    | .foundDead binds => binds ≤ endpoint.binds ∧
        (endpoint.binds = binds → ∀ listener, endpoint.live listener = false)
  permits := fun _ => ForwardPermits
  returns := fun _ _ _ => True

abbrev Launches {α : Type} (post : LaunchPhase → α → Prop) : LaunchPhase → Launch α → Prop :=
  Follows forwardService ForwardPermits post

theorem tryBind_follows (nameable : Bool) (phase : LaunchPhase) :
    Launches (fun after _ => after = phase) phase (tryBind nameable) := by
  cases nameable with
  | true => exact ⟨.bind phase, fun _ _ => rfl⟩
  | false => exact rfl

def FoundDead (phase : LaunchPhase) (result : ProbeResult) : Prop :=
  result = .stale → ∃ binds, phase = .foundDead binds

theorem connectProbes_follows (attempts : Nat) (phase : LaunchPhase)
    (hphase : attempts = 0 → ∃ binds, phase = .foundDead binds) :
    Launches FoundDead phase (connectProbes attempts) := by
  induction attempts generalizing phase with
  | zero => exact fun _ => hphase rfl
  | succ attempts ih =>
    refine ⟨.connect phase, fun endpoint answer => ?_⟩
    cases answer with
    | ok _ => exact fun hstale => nomatch hstale
    | error e =>
      cases e with
      | connectionRefused => exact ih _ fun _ => ⟨endpoint.binds, rfl⟩
      | notFound => exact ih _ fun _ => ⟨endpoint.binds, rfl⟩
      | other e => exact fun hstale => nomatch hstale

theorem probeSocket_follows (nameable : Bool) (phase : LaunchPhase) :
    Launches FoundDead phase (probeSocket nameable) := by
  have hprobes : ∀ after, Launches FoundDead after
      (if nameable then connectProbes 3 else pure .live) := by
    intro after
    cases nameable with
    | true => exact connectProbes_follows 3 after fun hnone => nomatch hnone
    | false => exact fun hstale => nomatch hstale
  refine ⟨.symlinkMetadata phase, fun endpoint answer => ?_⟩
  match answer with
  | some false => exact fun _ => ⟨endpoint.binds, rfl⟩
  | some true => exact hprobes _
  | none => exact hprobes _

theorem bindOrYield_follows (nameable : Bool) :
    Launches (fun _ _ => True) .launched (bindOrYield nameable) := by
  refine ⟨.createDirAll _, fun _ answer => ?_⟩
  cases answer with
  | error e => exact trivial
  | ok _ =>
    refine (tryBind_follows nameable _).bind fun phase result hphase => ?_
    cases result with
    | ok listener => exact trivial
    | error e =>
      cases e with
      | other e => exact trivial
      | addrInUse =>
        refine (probeSocket_follows nameable phase).bind fun after verdict hverdict => ?_
        cases verdict with
        | live => exact trivial
        | stale =>
          obtain ⟨binds, rfl⟩ := hverdict rfl
          refine ⟨.removeFile binds, fun _ _ => ?_⟩
          refine (tryBind_follows nameable _).bind fun last result _ => ?_
          cases result with
          | ok listener => exact trivial
          | error e =>
            cases e with
            | addrInUse => exact trivial
            | other e => exact trivial

/-! ## The outline is sound -/

variable {endpoint : Endpoint}

theorem owner_eq_none (hdead : ∀ listener, endpoint.live listener = false) :
    endpoint.owner = none := by
  unfold Endpoint.owner
  split
  next listener _ => rw [hdead listener]; rfl
  next => rfl

theorem dead_of_owner (hgood : forwardOutline.good endpoint) (howner : endpoint.owner = none) :
    ∀ listener, endpoint.live listener = false := by
  intro listener
  by_contra hlive
  rw [Bool.not_eq_false] at hlive
  unfold Endpoint.owner at howner
  rw [hgood.2 listener hlive] at howner
  simp only [hlive, if_true] at howner
  contradiction

theorem observe_stable (failure : Option Text) (query : ForwardQuery) {phase : LaunchPhase}
    (hgood : forwardOutline.good endpoint) (hstable : forwardOutline.stable endpoint phase) :
    forwardOutline.stable endpoint
      (phase.observe endpoint query (endpoint.perform failure query).1) := by
  have hdead : endpoint.owner = none →
      forwardOutline.stable endpoint (.foundDead endpoint.binds) := fun howner =>
    ⟨Nat.le_refl _, fun _ => dead_of_owner hgood howner⟩
  have hfound : ∀ result : Except ConnectError PUnit, (result ≠ .ok ⟨⟩ → endpoint.owner = none) →
      forwardOutline.stable endpoint (phase.observe endpoint .connect result) := by
    intro result howner
    match result with
    | .ok _ | .error (.other e) => exact hstable
    | .error .connectionRefused | .error .notFound => exact hdead (howner (by simp))
  cases query with
  | createDirAll | bind | removeFile => exact hstable
  | connect =>
    refine hfound _ fun hfails => ?_
    by_contra howner
    obtain ⟨listener, hlistener⟩ := Option.ne_none_iff_exists'.mp howner
    simp only [Endpoint.perform, hlistener] at hfails
    exact hfails rfl
  | symlinkMetadata =>
    simp only [Endpoint.perform]
    split
    next =>
      cases hentry : endpoint.entry with
      | none => exact hstable
      | some entry =>
        cases entry with
        | socket listener => exact hstable
        | plain =>
          refine hdead ?_
          unfold Endpoint.owner
          rw [hentry]
    next => exact hstable

theorem newListener_good (hgood : forwardOutline.good endpoint) (hfree : endpoint.entry = none) :
    forwardOutline.good endpoint.newListener := by
  refine ⟨hgood.1, fun listener hlive => ?_⟩
  by_cases hnew : listener = endpoint.binds + 1
  · rw [hnew]
    rfl
  · have hold : endpoint.live listener = true := (Function.update_of_ne hnew ..).symm.trans hlive
    have hentry := hgood.2 listener hold
    rw [hfree] at hentry
    contradiction

theorem newListener_stable {phase : LaunchPhase} (hstable : forwardOutline.stable endpoint phase) :
    forwardOutline.stable endpoint.newListener phase := by
  cases phase with
  | launched => exact trivial
  | foundDead binds =>
    have hcount : endpoint.newListener.binds = endpoint.binds + 1 := rfl
    have hpast := hstable.1
    exact ⟨by omega, fun hnow => by omega⟩

theorem unlink_good (hgood : forwardOutline.good endpoint)
    (hdead : ∀ listener, endpoint.live listener = false) :
    forwardOutline.good endpoint.unlink := by
  refine ⟨?_, fun listener hlive => ?_⟩
  · unfold Endpoint.unlink
    rw [owner_eq_none hdead]
    exact hgood.1
  · rw [show endpoint.unlink.live listener = _ from hdead listener] at hlive
    contradiction

theorem forward_sound [DecidableEq Process] : Sound forwardService forwardOutline
      (fun (world : ForwardWorld Process) move => Steps world move ∧ NoBindSinceProbe world move)
    where
  follows _ := bindOrYield_follows
  enter _ _ _ := trivial
  finish world process call phase result hholds htask _ _ :=
    ⟨hholds.good, fun other task hother _ => hholds.stable other task hother⟩
  serve world process call phase query resume failure answer next hholds htask hguard hpermits
      hserve := by
    have hgood := hholds.good
    have hself := hholds.stable process _ htask
    have hothers := fun other task hother (_ : other ≠ process) => hholds.stable other task hother
    obtain ⟨rfl, rfl⟩ := Prod.mk.inj (Option.some.inj hserve)
    have hobserved := observe_stable failure query hgood hself
    cases hpermits with
    | createDirAll | symlinkMetadata | connect => exact ⟨hgood, hobserved, hothers⟩
    | bind =>
      simp only [Endpoint.perform] at hobserved ⊢
      split
      next => exact ⟨hgood, hobserved, hothers⟩
      next => exact ⟨hgood, hobserved, hothers⟩
      next hfree =>
        exact ⟨newListener_good hgood hfree, newListener_stable hself, fun other task hother hne =>
          newListener_stable (hothers other task hother hne)⟩
    | removeFile binds =>
      cases failure with
      | some e => exact ⟨hgood, hobserved, hothers⟩
      | none =>
        have hdead := hself.2 (hguard.2 call binds resume rfl htask)
        exact ⟨unlink_good hgood hdead, hobserved, hothers⟩

/-- Nobody has called yet. At the path is nothing, a file, or a socket of a listener that lives or
not. -/
def Endpoint.before (entry : Option Entry) (listening : Bool) : Endpoint where
  entry := entry
  live := fun listener => listening && entry = some (.socket listener)
  binds := match entry with
    | some (.socket listener) => listener
    | some .plain | none => 0
  unlinked := []

/-- In every run in which nobody binds the path between the last probe of a launch and its
removal, no socket file of a live listener is removed, and at most one listener lives. -/
theorem single_listener_of_run [DecidableEq Process] {entry : Option Entry} {listening : Bool}
    {schedule : List (Move Process Bool (Option Text))} {world : ForwardWorld Process}
    (hrun : Run forwardService.step
      (fun world move => Steps world move ∧ NoBindSinceProbe world move)
      (start (.before entry listening)) schedule world) : world.shared.SingleListener := by
  have hstart : Holds forwardService forwardOutline
      (start (.before entry listening) : ForwardWorld Process) := by
    refine Holds.start ⟨rfl, fun listener hlive => ?_⟩
    exact of_decide_eq_true ((Bool.and_eq_true _ _).mp hlive).2
  have hgood := (hstart.run forward_sound hrun).good
  refine ⟨hgood.1, fun listener other hlive hother => ?_⟩
  have hsame := (hgood.2 listener hlive).symm.trans (hgood.2 other hother)
  simpa using hsame

inductive Party
  | first
  | second
  deriving DecidableEq

def launchToRemoval (party : Party) : List (Move Party Bool (Option Text)) :=
  [.call party true] ++ List.replicate 6 (.serve party none)

def rebind (party : Party) : List (Move Party Bool (Option Text)) :=
  [.serve party none, .serve party none]

/-- The second launch begins before the first one binds, and finds its socket live. -/
def launchBesideListener : List (Move Party Bool (Option Text)) :=
  launchToRemoval .first ++ [.call .second true] ++ rebind .first ++
    List.replicate 4 (.serve .second none) ++ [.finish .second]

theorem single_listener_of_two_launches : ∃ world : ForwardWorld Party, Run forwardService.step
      (fun world move => Steps world move ∧ NoBindSinceProbe world move)
      (start (.before (some (.socket 0)) false)) launchBesideListener world ∧
      world.shared.live 1 = true ∧ world.shared.SingleListener := by
  have hrun : ∃ world : ForwardWorld Party, Run forwardService.step
      (fun world move => Steps world move ∧ NoBindSinceProbe world move)
      (start (.before (some (.socket 0)) false)) launchBesideListener world ∧
      world.shared.live 1 = true := by
    refine ⟨_, .cons ⟨trivial, trivial⟩ rfl (.cons ⟨trivial, ?_⟩ rfl (.cons ⟨trivial, ?_⟩ rfl
      (.cons ⟨trivial, ?_⟩ rfl (.cons ⟨trivial, ?_⟩ rfl (.cons ⟨trivial, ?_⟩ rfl
      (.cons ⟨trivial, ?_⟩ rfl (.cons ⟨trivial, trivial⟩ rfl (.cons ⟨trivial, ?_⟩ rfl
      (.cons ⟨trivial, ?_⟩ rfl (.cons ⟨trivial, ?_⟩ rfl (.cons ⟨trivial, ?_⟩ rfl
      (.cons ⟨trivial, ?_⟩ rfl (.cons ⟨trivial, ?_⟩ rfl (.cons ⟨trivial, trivial⟩ rfl
      (.nil _))))))))))))))), rfl⟩
    all_goals
      intro call binds resume _ htask
      cases htask
      try rfl
  obtain ⟨world, hworld, hlive⟩ := hrun
  exact ⟨world, hworld, hlive, single_listener_of_run hworld⟩

/-- Both launches find the socket stale before one of them removes it and binds; the other one
then removes the new socket and binds as well. -/
theorem late_removal_splits_listeners : ¬ ∀ (entry : Option Entry) (listening : Bool)
      (schedule : List (Move Party Bool (Option Text))) (world : ForwardWorld Party),
      Run forwardService.step Steps (start (.before entry listening)) schedule world →
        world.shared.SingleListener := by
  intro hall
  have hrun : ∃ world : ForwardWorld Party, Run forwardService.step Steps
      (start (.before (some (.socket 0)) false))
      (launchToRemoval .first ++ launchToRemoval .second ++ rebind .second ++ rebind .first) world ∧
      world.shared.live 1 = true ∧ world.shared.live 2 = true :=
    ⟨_, .cons trivial rfl (.cons trivial rfl (.cons trivial rfl (.cons trivial rfl
      (.cons trivial rfl (.cons trivial rfl (.cons trivial rfl (.cons trivial rfl
      (.cons trivial rfl (.cons trivial rfl (.cons trivial rfl (.cons trivial rfl
      (.cons trivial rfl (.cons trivial rfl (.cons trivial rfl (.cons trivial rfl
      (.cons trivial rfl (.cons trivial rfl (.nil _)))))))))))))))))), rfl, rfl⟩
  obtain ⟨world, hworld, hfirst, hsecond⟩ := hrun
  exact absurd ((hall _ _ _ world hworld).2 1 2 hfirst hsecond) (by decide)

end Difflore.Forward

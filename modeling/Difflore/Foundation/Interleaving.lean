import Difflore.Foundation.Program
import Difflore.Foundation.Run

/-! # Calls that interleave on a shared state

Any number of processes run programs against one server, one query at a time, and a process
may stop after any of them. Every call carries a phase, which records what its program has
seen so far. A proof outline says what holds of the shared state and of each phase; it is
checked for one query at a time, and then holds in every run.
-/

namespace Difflore.Foundation

/-- The programs of the calls, and a server that answers their queries. The server looks at
the phase of the caller only to keep history variables. -/
structure Service (Query : Type) (Answer : Query → Type) (Result Call State Phase Choice : Type)
    where
  program : Call → Program Query Answer Result
  enter : State → Call → Phase
  serve : State → Phase → Choice → (query : Query) → Option (Answer query × State)
  observe : State → Phase → (query : Query) → Answer query → Phase
  finish : State → Phase → Result → State

namespace Service

variable {Query : Type} {Answer : Query → Type} {Result Call State Phase Choice Process : Type}

structure Task (Query : Type) (Answer : Query → Type) (Result Call Phase : Type) where
  call : Call
  phase : Phase
  program : Program Query Answer Result

structure World (Query : Type) (Answer : Query → Type) (Result Call State Phase Process : Type)
    where
  shared : State
  tasks : Process → Option (Task Query Answer Result Call Phase)

inductive Move (Process Call Choice : Type)
  | call (process : Process) (call : Call)
  | serve (process : Process) (choice : Choice)
  | finish (process : Process)
  | crash (process : Process)

variable (service : Service Query Answer Result Call State Phase Choice)

def start (shared : State) : World Query Answer Result Call State Phase Process where
  shared := shared
  tasks := fun _ => none

variable [DecidableEq Process]

def step (world : World Query Answer Result Call State Phase Process) :
    Move Process Call Choice → Option (World Query Answer Result Call State Phase Process)
  | .call process call =>
    match world.tasks process with
    | some _ => none
    | none => some { world with
        tasks := Function.update world.tasks process
          (some ⟨call, service.enter world.shared call, service.program call⟩) }
  | .serve process choice =>
    match world.tasks process with
    | some ⟨call, phase, .ask query resume⟩ =>
      (service.serve world.shared phase choice query).map fun served =>
        { shared := served.2
          tasks := Function.update world.tasks process (some
            ⟨call, service.observe world.shared phase query served.1, resume served.1⟩) }
    | _ => none
  | .finish process =>
    match world.tasks process with
    | some ⟨_, phase, .done result⟩ => some
        { shared := service.finish world.shared phase result
          tasks := Function.update world.tasks process none }
    | _ => none
  | .crash process =>
    match world.tasks process with
    | some _ => some { world with tasks := Function.update world.tasks process none }
    | none => none

/-! ## Proof outlines -/

/-- What is said of the shared state, of each phase, and of the queries and results that a
call may come to in a phase. -/
structure Outline (Query Result Call State Phase : Type) where
  good : State → Prop
  stable : State → Phase → Prop
  permits : Call → Phase → Query → Prop
  returns : Call → Phase → Result → Prop

variable {service} {outline : Outline Query Result Call State Phase}

/-- Whatever the answers, a program asks only what is permitted in the phase that the service
has recorded by then, and returns in a phase that meets the postcondition. -/
def Follows (service : Service Query Answer Result Call State Phase Choice)
    (permits : Phase → Query → Prop) {α : Type} (post : Phase → α → Prop) :
    Phase → Program Query Answer α → Prop
  | phase, .done result => post phase result
  | phase, .ask query resume =>
    permits phase query ∧ ∀ state answer,
      Follows service permits post (service.observe state phase query answer) (resume answer)

theorem Follows.mono {permits : Phase → Query → Prop} {α : Type} {post weaker : Phase → α → Prop}
    (hweaker : ∀ phase result, post phase result → weaker phase result) {phase : Phase}
    {program : Program Query Answer α} (hfollows : Follows service permits post phase program) :
    Follows service permits weaker phase program := by
  induction program generalizing phase with
  | done result => exact hweaker phase result hfollows
  | ask query resume ih =>
    exact ⟨hfollows.1, fun state answer => ih answer (hfollows.2 state answer)⟩

theorem Follows.bind {permits : Phase → Query → Prop} {α β : Type} {middle : Phase → α → Prop}
    {post : Phase → β → Prop} {phase : Phase} {program : Program Query Answer α}
    {next : α → Program Query Answer β} (hfirst : Follows service permits middle phase program)
    (hnext : ∀ phase result, middle phase result →
      Follows service permits post phase (next result)) :
    Follows service permits post phase (program >>= next) := by
  induction program generalizing phase with
  | done result => exact hnext phase result hfirst
  | ask query resume ih => exact ⟨hfirst.1, fun state answer => ih answer (hfirst.2 state answer)⟩

/-- The outline holds of the shared state and of every call in progress. -/
structure Holds (service : Service Query Answer Result Call State Phase Choice)
    (outline : Outline Query Result Call State Phase)
    (world : World Query Answer Result Call State Phase Process) : Prop where
  good : outline.good world.shared
  stable : ∀ process task, world.tasks process = some task → outline.stable world.shared task.phase
  follows : ∀ process task, world.tasks process = some task →
    Follows service (outline.permits task.call) (outline.returns task.call) task.phase task.program

/-- The obligations of an outline: programs follow it, and a query of one call disturbs
neither the shared state nor the other calls. -/
structure Sound (service : Service Query Answer Result Call State Phase Choice)
    (outline : Outline Query Result Call State Phase)
    (guard : World Query Answer Result Call State Phase Process → Move Process Call Choice → Prop) :
    Prop where
  follows : ∀ state call, Follows service (outline.permits call) (outline.returns call)
    (service.enter state call) (service.program call)
  enter : ∀ state call, outline.good state → outline.stable state (service.enter state call)
  serve : ∀ (world : World Query Answer Result Call State Phase Process) process call phase query
    resume choice answer shared,
    Holds service outline world → world.tasks process = some ⟨call, phase, .ask query resume⟩ →
    guard world (.serve process choice) → outline.permits call phase query →
    service.serve world.shared phase choice query = some (answer, shared) →
    outline.good shared ∧ outline.stable shared (service.observe world.shared phase query answer) ∧
      ∀ other task, world.tasks other = some task → other ≠ process →
        outline.stable shared task.phase
  finish : ∀ (world : World Query Answer Result Call State Phase Process) process call phase result,
    Holds service outline world → world.tasks process = some ⟨call, phase, .done result⟩ →
    guard world (.finish process) → outline.returns call phase result →
    outline.good (service.finish world.shared phase result) ∧
      ∀ other task, world.tasks other = some task → other ≠ process →
        outline.stable (service.finish world.shared phase result) task.phase

omit [DecidableEq Process] in
theorem Holds.start {shared : State} (hgood : outline.good shared) :
    Holds service outline (start shared : World Query Answer Result Call State Phase Process) where
  good := hgood
  stable _ _ htask := by contradiction
  follows _ _ htask := by contradiction

theorem tasks_update {tasks : Process → Option (Task Query Answer Result Call Phase)}
    {process other : Process} {task : Task Query Answer Result Call Phase}
    {moved : Option (Task Query Answer Result Call Phase)}
    (htask : Function.update tasks process moved other = some task) :
    other = process ∧ moved = some task ∨ other ≠ process ∧ tasks other = some task := by
  by_cases hsame : other = process
  · subst other
    rw [Function.update_self] at htask
    exact .inl ⟨rfl, htask⟩
  · rw [Function.update_of_ne hsame] at htask
    exact .inr ⟨hsame, htask⟩

variable
  {guard : World Query Answer Result Call State Phase Process → Move Process Call Choice → Prop}

theorem Holds.step (hsound : Sound service outline guard)
    {world next : World Query Answer Result Call State Phase Process}
    {move : Move Process Call Choice} (hholds : Holds service outline world)
    (hguard : guard world move) (hstep : service.step world move = some next) :
    Holds service outline next := by
  unfold Service.step at hstep
  split at hstep
  next process call =>
    split at hstep
    next => contradiction
    next =>
      obtain rfl := Option.some.inj hstep
      refine ⟨hholds.good, fun other task htask => ?_, fun other task htask => ?_⟩
      · rcases tasks_update htask with ⟨-, hmoved⟩ | ⟨-, hother⟩
        · obtain rfl := Option.some.inj hmoved
          exact hsound.enter _ _ hholds.good
        · exact hholds.stable other task hother
      · rcases tasks_update htask with ⟨-, hmoved⟩ | ⟨-, hother⟩
        · obtain rfl := Option.some.inj hmoved
          exact hsound.follows _ _
        · exact hholds.follows other task hother
  next process choice =>
    split at hstep
    next call phase query resume hrunning =>
      obtain ⟨⟨answer, shared⟩, hserve, rfl⟩ := Option.map_eq_some_iff.mp hstep
      have hfollows := hholds.follows process _ hrunning
      obtain ⟨hgood, hself, hothers⟩ := hsound.serve world process call phase query resume choice
        answer shared hholds hrunning hguard hfollows.1 hserve
      refine ⟨hgood, fun other task htask => ?_, fun other task htask => ?_⟩
      · rcases tasks_update htask with ⟨-, hmoved⟩ | ⟨hne, hother⟩
        · obtain rfl := Option.some.inj hmoved
          exact hself
        · exact hothers other task hother hne
      · rcases tasks_update htask with ⟨-, hmoved⟩ | ⟨-, hother⟩
        · obtain rfl := Option.some.inj hmoved
          exact hfollows.2 world.shared answer
        · exact hholds.follows other task hother
    next => contradiction
  next process =>
    split at hstep
    next call phase result hrunning =>
      obtain rfl := Option.some.inj hstep
      obtain ⟨hgood, hothers⟩ := hsound.finish world process call phase result hholds hrunning
        hguard (hholds.follows process _ hrunning)
      refine ⟨hgood, fun other task htask => ?_, fun other task htask => ?_⟩
      · rcases tasks_update htask with ⟨-, hmoved⟩ | ⟨hne, hother⟩
        · contradiction
        · exact hothers other task hother hne
      · rcases tasks_update htask with ⟨-, hmoved⟩ | ⟨-, hother⟩
        · contradiction
        · exact hholds.follows other task hother
    next => contradiction
  next process =>
    split at hstep
    next =>
      obtain rfl := Option.some.inj hstep
      refine ⟨hholds.good, fun other task htask => ?_, fun other task htask => ?_⟩
      · rcases tasks_update htask with ⟨-, hmoved⟩ | ⟨-, hother⟩
        · contradiction
        · exact hholds.stable other task hother
      · rcases tasks_update htask with ⟨-, hmoved⟩ | ⟨-, hother⟩
        · contradiction
        · exact hholds.follows other task hother
    next => contradiction

def Exclusive {Token : Type} (claims : Phase → Token → Prop)
    (world : World Query Answer Result Call State Phase Process) : Prop :=
  ∀ process other task task' token, world.tasks process = some task →
    world.tasks other = some task' → claims task.phase token → claims task'.phase token →
    process = other

section Exclusive

variable {Token : Type} {claims : Phase → Token → Prop}
  {world next : World Query Answer Result Call State Phase Process}

theorem Exclusive.update {process : Process}
    {moved : Option (Task Query Answer Result Call Phase)} (hexclusive : Exclusive claims world)
    (hnext : next.tasks = Function.update world.tasks process moved)
    (hmoved : ∀ task token, moved = some task → claims task.phase token →
      ∀ other task', world.tasks other = some task' → claims task'.phase token →
        other = process) : Exclusive claims next := by
  intro first second task task' token hfirst hsecond hclaim hclaim'
  rw [hnext] at hfirst hsecond
  rcases tasks_update hfirst with ⟨rfl, hnew⟩ | ⟨-, hold⟩
  · rcases tasks_update hsecond with ⟨rfl, -⟩ | ⟨-, hold'⟩
    · rfl
    · exact (hmoved task token hnew hclaim second task' hold' hclaim').symm
  · rcases tasks_update hsecond with ⟨rfl, hnew'⟩ | ⟨-, hold'⟩
    · exact hmoved task' token hnew' hclaim' first task hold hclaim
    · exact hexclusive first second task task' token hold hold' hclaim hclaim'

theorem Exclusive.step {move : Move Process Call Choice} (hexclusive : Exclusive claims world)
    (henter : ∀ process call, move = .call process call → ∀ token,
      claims (service.enter world.shared call) token →
      ∀ other task, world.tasks other = some task → ¬claims task.phase token)
    (hserve : ∀ process choice call phase query resume answer shared,
      world.tasks process = some ⟨call, phase, .ask query resume⟩ →
      service.serve world.shared phase choice query = some (answer, shared) → ∀ token,
      claims (service.observe world.shared phase query answer) token → claims phase token ∨
        ∀ other task, world.tasks other = some task → ¬claims task.phase token)
    (hstep : service.step world move = some next) : Exclusive claims next := by
  unfold Service.step at hstep
  split at hstep
  next process call =>
    split at hstep
    next => contradiction
    next =>
      obtain rfl := Option.some.inj hstep
      refine hexclusive.update rfl fun task token hmoved hclaim other task' hother hclaim' => ?_
      obtain rfl := Option.some.inj hmoved
      exact absurd hclaim' (henter process call rfl token hclaim other task' hother)
  next process choice =>
    split at hstep
    next call phase query resume hrunning =>
      obtain ⟨⟨answer, shared⟩, hserved, rfl⟩ := Option.map_eq_some_iff.mp hstep
      refine hexclusive.update rfl fun task token hmoved hclaim other task' hother hclaim' => ?_
      obtain rfl := Option.some.inj hmoved
      rcases hserve process choice call phase query resume answer shared hrunning hserved token
        hclaim with hsame | hnobody
      · exact hexclusive other process task' _ token hother hrunning hclaim' hsame
      · exact absurd hclaim' (hnobody other task' hother)
    next => contradiction
  next process =>
    split at hstep
    next =>
      obtain rfl := Option.some.inj hstep
      exact hexclusive.update rfl fun _ _ hmoved => nomatch hmoved
    next => contradiction
  next process =>
    split at hstep
    next =>
      obtain rfl := Option.some.inj hstep
      exact hexclusive.update rfl fun _ _ hmoved => nomatch hmoved
    next => contradiction

end Exclusive

theorem Holds.run (hsound : Sound service outline guard)
    {first last : World Query Answer Result Call State Phase Process}
    {schedule : List (Move Process Call Choice)} (hrun : Run service.step guard first schedule last)
    (hfirst : Holds service outline first) : Holds service outline last :=
  hrun.invariant (fun _ _ _ hholds hguard hstep => hholds.step hsound hguard hstep) hfirst

theorem invariant_of_run {inv : State → Prop}
    (hserve : ∀ state phase choice query answer shared, inv state →
      service.serve state phase choice query = some (answer, shared) → inv shared)
    (hfinish : ∀ state phase result, inv state → inv (service.finish state phase result))
    {first last : World Query Answer Result Call State Phase Process}
    {schedule : List (Move Process Call Choice)} (hrun : Run service.step guard first schedule last)
    (hfirst : inv first.shared) : inv last.shared := by
  have hfollows : ∀ (program : Program Query Answer Result) phase,
      Follows service (fun _ _ => True) (fun _ _ => True) phase program := by
    intro program
    induction program with
    | done result => exact fun _ => trivial
    | ask query resume ih => exact fun phase => ⟨trivial, fun _ answer => ih answer _⟩
  let outline : Outline Query Result Call State Phase :=
    ⟨inv, fun _ _ => True, fun _ _ _ => True, fun _ _ _ => True⟩
  have hsound : Sound service outline guard :=
    { follows := fun _ _ => hfollows _ _
      enter := fun _ _ _ => trivial
      serve := fun _ _ _ _ _ _ _ _ _ hholds _ _ _ hserved =>
        ⟨hserve _ _ _ _ _ _ hholds.good hserved, trivial, fun _ _ _ _ => trivial⟩
      finish := fun _ _ _ _ _ hholds _ _ _ =>
        ⟨hfinish _ _ _ hholds.good, fun _ _ _ _ => trivial⟩ }
  exact (Holds.run hsound hrun
    ⟨hfirst, fun _ _ _ => trivial, fun _ _ _ => hfollows _ _⟩).good

end Service

end Difflore.Foundation

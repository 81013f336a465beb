import Mathlib.Data.List.Basic

/-! # Programs and the protocols they follow

A program asks its environment one query at a time and goes on with the answer.
A protocol says which queries are permitted in which phase, and how an answer
changes the phase. Following a protocol is checked along every path, with one
rule for sequencing and one for loops.
-/

namespace Difflore.Foundation

universe uQuery uAnswer uPhase

/-- A program returns a result, or asks a query and resumes with its answer. -/
inductive Program (Query : Type uQuery) (Answer : Query → Type uAnswer) (Result : Type uAnswer)
  | done (result : Result)
  | ask (query : Query) (resume : Answer query → Program Query Answer Result)

namespace Program

variable {Query : Type uQuery} {Answer : Query → Type uAnswer} {α β : Type uAnswer}

protected def bind : Program Query Answer α → (α → Program Query Answer β) → Program Query Answer β
  | done result, next => next result
  | ask query resume, next => ask query fun answer => (resume answer).bind next

instance : Monad (Program Query Answer) where
  pure := done
  bind := Program.bind

end Program

/-- What a program may ask in a phase, and the phase after an answer. -/
structure Protocol (Query : Type uQuery) (Answer : Query → Type uAnswer) (Phase : Type uPhase) where
  permits : Phase → Query → Prop
  advance : Phase → (query : Query) → Answer query → Phase

namespace Protocol

variable {Query : Type uQuery} {Answer : Query → Type uAnswer} {Phase : Type uPhase}
  {α β : Type uAnswer}

/-- Whatever the answers, the program asks only what is permitted, and returns
in a phase that meets the postcondition. -/
def Obeys (protocol : Protocol Query Answer Phase) (post : Phase → α → Prop) :
    Phase → Program Query Answer α → Prop
  | phase, .done result => post phase result
  | phase, .ask query resume =>
    protocol.permits phase query ∧
      ∀ answer, protocol.Obeys post (protocol.advance phase query answer) (resume answer)

variable {protocol : Protocol Query Answer Phase}

theorem Obeys.mono {post weaker : Phase → α → Prop} (hweaker : ∀ phase result,
    post phase result → weaker phase result) {phase : Phase} {program : Program Query Answer α}
    (hobeys : protocol.Obeys post phase program) : protocol.Obeys weaker phase program := by
  induction program generalizing phase with
  | done result => exact hweaker phase result hobeys
  | ask query resume ih => exact ⟨hobeys.1, fun answer => ih answer (hobeys.2 answer)⟩

theorem Obeys.bind {middle : Phase → α → Prop} {post : Phase → β → Prop} {phase : Phase}
    {program : Program Query Answer α} {next : α → Program Query Answer β}
    (hfirst : protocol.Obeys middle phase program)
    (hnext : ∀ phase result, middle phase result → protocol.Obeys post phase (next result)) :
    protocol.Obeys post phase (program >>= next) := by
  induction program generalizing phase with
  | done result => exact hnext phase result hfirst
  | ask query resume ih => exact ⟨hfirst.1, fun answer => ih answer (hfirst.2 answer)⟩

theorem obeys_forM {ι : Type uPhase} (inv : List ι → Phase → Prop)
    {body : ι → Program Query Answer PUnit} {items : List ι}
    (hbody : ∀ item rest phase, inv (item :: rest) phase →
      protocol.Obeys (fun phase _ => inv rest phase) phase (body item))
    {phase : Phase} (hinv : inv items phase) :
    protocol.Obeys (fun phase _ => inv [] phase) phase (forM items body) := by
  induction items generalizing phase with
  | nil => exact hinv
  | cons item rest ih =>
    rw [List.forM_cons]
    exact (hbody item rest phase hinv).bind fun phase _ hrest => ih hrest

end Protocol

namespace Program

universe uState

variable {Query : Type uQuery} {Answer : Query → Type uAnswer} {State : Type uState}
  {α : Type uAnswer}

section

variable (serve : State → (query : Query) → Answer query × State)

def run : Program Query Answer α → State → α × State
  | done result, state => (result, state)
  | ask query resume, state =>
    let served := serve state query
    (resume served.1).run served.2

theorem run_bind {β : Type uAnswer} (program : Program Query Answer α)
    (next : α → Program Query Answer β) (state : State) :
    (program >>= next).run serve state =
      (next (program.run serve state).1).run serve (program.run serve state).2 := by
  induction program generalizing state with
  | done result => rfl
  | ask query resume ih => exact ih _ _

def Throughout (holds : State → Prop) : Program Query Answer α → State → Prop
  | done _, state => holds state
  | ask query resume, state =>
    let served := serve state query
    holds state ∧ (resume served.1).Throughout holds served.2

def Meets (condition : State → Query → Prop) : Program Query Answer α → State → Prop
  | done _, _ => True
  | ask query resume, state =>
    let served := serve state query
    condition state query ∧ (resume served.1).Meets condition served.2

end

variable {serve : State → (query : Query) → Answer query × State} {holds : State → Prop}

theorem Throughout.start {program : Program Query Answer α} {state : State}
    (hthroughout : program.Throughout serve holds state) : holds state := by
  cases program with
  | done result => exact hthroughout
  | ask query resume => exact hthroughout.1

theorem throughout_bind {β : Type uAnswer} {program : Program Query Answer α}
    {next : α → Program Query Answer β} {state : State} :
    (program >>= next).Throughout serve holds state ↔ program.Throughout serve holds state ∧
      (next (program.run serve state).1).Throughout serve holds (program.run serve state).2 := by
  induction program generalizing state with
  | done result =>
    constructor
    · intro hnext
      exact ⟨hnext.start, hnext⟩
    · exact And.right
  | ask query resume ih => exact (and_congr_right fun _ => ih _).trans and_assoc.symm

theorem throughout_iff_meets {condition : State → Query → Prop}
    (hserve : ∀ state query, holds state → (holds (serve state query).2 ↔ condition state query))
    (program : Program Query Answer α) (state : State) :
    program.Throughout serve holds state ↔ holds state ∧ program.Meets serve condition state := by
  induction program generalizing state with
  | done result => exact (and_iff_left trivial).symm
  | ask query resume ih =>
    constructor
    · rintro ⟨hstate, hrest⟩
      obtain ⟨hnext, hmeets⟩ := (ih _ _).mp hrest
      exact ⟨hstate, (hserve state query hstate).mp hnext, hmeets⟩
    · rintro ⟨hstate, hcondition, hmeets⟩
      exact ⟨hstate, (ih _ _).mpr ⟨(hserve state query hstate).mpr hcondition, hmeets⟩⟩

end Program

structure Exchange (Query : Type uQuery) (Answer : Query → Type uAnswer) where
  query : Query
  answer : Answer query

variable {Query : Type uQuery} {Answer : Query → Type uAnswer} {α : Type uAnswer}

/-- The program asks these queries, gets these answers, and returns. -/
inductive Program.Ends : Program Query Answer α → List (Exchange Query Answer) → α → Prop
  | done (result : α) : Ends (.done result) [] result
  | ask {query : Query} {resume : Answer query → Program Query Answer α}
      {trace : List (Exchange Query Answer)} {result : α} (answer : Answer query)
      (hrest : Ends (resume answer) trace result) :
      Ends (.ask query resume) (⟨query, answer⟩ :: trace) result

def historyProtocol (permits : List (Exchange Query Answer) → Query → Prop) :
    Protocol Query Answer (List (Exchange Query Answer)) where
  permits := permits
  advance history query answer := history ++ [⟨query, answer⟩]

namespace Protocol

variable {permits : List (Exchange Query Answer) → Query → Prop}
  {post : List (Exchange Query Answer) → α → Prop}

theorem Obeys.permits_of_ends {before trace : List (Exchange Query Answer)} {result : α}
    {program : Program Query Answer α}
    (hobeys : (historyProtocol permits).Obeys post before program)
    (hends : program.Ends trace result) {front back : List (Exchange Query Answer)}
    {exchange : Exchange Query Answer} (htrace : trace = front ++ exchange :: back) :
    permits (before ++ front) exchange.query := by
  induction hends generalizing before front with
  | done result => simp at htrace
  | ask answer hrest ih =>
    cases front with
    | nil =>
      rw [List.nil_append] at htrace
      obtain ⟨rfl, rfl⟩ := List.cons.inj htrace
      rw [List.append_nil]
      exact hobeys.1
    | cons first front =>
      rw [List.cons_append] at htrace
      obtain ⟨rfl, htail⟩ := List.cons.inj htrace
      have hpermits := ih (hobeys.2 answer) htail
      rwa [historyProtocol, List.append_assoc] at hpermits

theorem Obeys.post_of_ends {before trace : List (Exchange Query Answer)} {result : α}
    {program : Program Query Answer α}
    (hobeys : (historyProtocol permits).Obeys post before program)
    (hends : program.Ends trace result) : post (before ++ trace) result := by
  induction hends generalizing before with
  | done result =>
    rw [List.append_nil]
    exact hobeys
  | ask answer hrest ih =>
    have hpost := ih (hobeys.2 answer)
    rwa [historyProtocol, List.append_assoc] at hpost

end Protocol

end Difflore.Foundation

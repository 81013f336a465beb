import Mathlib.Data.List.Forall2

/-! # Runs of guarded transition systems

A system is a partial step function on states and actions. A run executes a
schedule of actions; a guard restricts which actions a run may take in which
states. Invariants are proved once for a single step and lifted to runs here.
-/

namespace Difflore.Foundation

universe uState uAction

variable {State : Type uState} {Action : Type uAction}

/-- `Run step guard start schedule final` executes `schedule` from `start`.
Every action is enabled, and satisfies `guard` in the state before it. -/
inductive Run (step : State → Action → Option State) (guard : State → Action → Prop) :
    State → List Action → State → Prop
  | nil (state : State) : Run step guard state [] state
  | cons {state middle final : State} {action : Action} {rest : List Action}
      (allowed : guard state action) (taken : step state action = some middle)
      (tail : Run step guard middle rest final) :
      Run step guard state (action :: rest) final

/-- Execute a schedule, failing at the first action that is not enabled or
does not meet the guard. -/
def execute (step : State → Action → Option State) (guard : State → Action → Prop)
    [∀ state action, Decidable (guard state action)] : State → List Action → Option State
  | state, [] => some state
  | state, action :: rest =>
    if guard state action then
      (step state action).bind fun middle => execute step guard middle rest
    else none

namespace Run

variable {step : State → Action → Option State} {guard : State → Action → Prop}

theorem invariant {inv : State → Prop}
    (hstep : ∀ state action next, inv state → guard state action →
      step state action = some next → inv next) {start final : State} {schedule : List Action}
    (hrun : Run step guard start schedule final) (hstart : inv start) : inv final := by
  induction hrun with
  | nil state => exact hstart
  | cons allowed taken _ ih => exact ih (hstep _ _ _ hstart allowed taken)

theorem mono {weaker : State → Action → Prop}
    (hweaker : ∀ state action, guard state action → weaker state action)
    {start final : State} {schedule : List Action}
    (hrun : Run step guard start schedule final) : Run step weaker start schedule final := by
  induction hrun with
  | nil state => exact .nil state
  | cons allowed taken _ ih => exact .cons (hweaker _ _ allowed) taken ih

theorem append {start middle final : State} {first second : List Action}
    (hfirst : Run step guard start first middle) (hsecond : Run step guard middle second final) :
    Run step guard start (first ++ second) final := by
  induction hfirst with
  | nil state => exact hsecond
  | cons allowed taken _ ih => exact .cons allowed taken (ih hsecond)

theorem of_execute [∀ state action, Decidable (guard state action)] {start final : State}
    {schedule : List Action} (hexecute : execute step guard start schedule = some final) :
    Run step guard start schedule final := by
  induction schedule generalizing start with
  | nil =>
    simp only [execute, Option.some.injEq] at hexecute
    subst final
    exact .nil start
  | cons action rest ih =>
    unfold execute at hexecute
    split at hexecute
    next hguard =>
      simp only [Option.bind_eq_some_iff] at hexecute
      obtain ⟨middle, htaken, hrest⟩ := hexecute
      exact .cons hguard htaken (ih hrest)
    next => contradiction

end Run

def EachStep (step : State → Action → State) (p : State → Action → Prop) :
    State → List Action → Prop
  | _, [] => True
  | state, action :: rest => p state action ∧ EachStep step p (step state action) rest

/-- Properties that agree on every state of an invariant agree on schedules, if a step with the
property keeps the invariant. -/
theorem EachStep.iff_of_invariant {step : State → Action → State}
    {p q : State → Action → Prop} {inv : State → Prop}
    (hstep : ∀ state action, inv state → p state action → inv (step state action))
    (hiff : ∀ state action, inv state → (p state action ↔ q state action))
    {start : State} (hstart : inv start) (schedule : List Action) :
    EachStep step p start schedule ↔ EachStep step q start schedule := by
  induction schedule generalizing start with
  | nil => exact Iff.rfl
  | cons action rest ih =>
    rw [EachStep, EachStep, ← hiff start action hstart]
    exact and_congr_right fun hfirst => ih (hstep start action hstart hfirst)

universe uInput

variable {State : Type uState} {Input : Type uInput}

def AllSteps (step : State → Input → State) (allowed : State → Input → Prop) :
    State → List Input → Prop
  | _, [] => True
  | state, input :: rest => allowed state input ∧ AllSteps step allowed (step state input) rest

def Unwinds (step other : State → Input → State) (alike : Input → Input → Prop)
    (allowed : State → Input → Prop) (rel : State → State → Prop) : Prop :=
  ∀ {left right first second}, rel left right → alike first second → allowed left first →
    rel (step left first) (other right second)

theorem Unwinds.foldl {step other : State → Input → State} {alike : Input → Input → Prop}
    {allowed : State → Input → Prop} {rel : State → State → Prop}
    (hunwinds : Unwinds step other alike allowed rel) {firsts seconds : List Input}
    (halike : List.Forall₂ alike firsts seconds) {left right : State} (hrel : rel left right)
    (hallowed : AllSteps step allowed left firsts) :
    rel (firsts.foldl step left) (seconds.foldl other right) := by
  induction halike generalizing left right with
  | nil => exact hrel
  | cons hinput _ ih => exact ih (hunwinds hrel hinput hallowed.1) hallowed.2

end Difflore.Foundation

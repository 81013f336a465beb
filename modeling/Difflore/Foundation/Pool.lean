import Difflore.Foundation.Program
import Difflore.Foundation.Run
import Mathlib.Data.List.Nodup

/-! # A pool of calls on a shared state

The calls of a pool run at once, one query at a time and in any order. Each call has a phase, which
records what it has seen; a phase decides how the call goes on, so it stands for the program that
is left.
-/

namespace Difflore.Foundation

structure Pool (Index Query : Type) (Answer : Query → Type) (Result State Phase : Type) where
  shared : State
  program : Index → Program Query Answer Result
  phase : Index → Phase

namespace Pool

variable {Index Query : Type} {Answer : Query → Type} {Result State Phase : Type}

def start (shared : State) (program : Index → Program Query Answer Result) (fresh : Phase) :
    Pool Index Query Answer Result State Phase where
  shared
  program
  phase _ := fresh

section

variable [DecidableEq Index] (serve : State → (query : Query) → Answer query × State)
  (observe : State → Phase → (query : Query) → Answer query → Phase)

def step (pool : Pool Index Query Answer Result State Phase) (i : Index) :
    Option (Pool Index Query Answer Result State Phase) :=
  match pool.program i with
  | .done _ => none
  | .ask query resume =>
    let served := serve pool.shared query
    some
      { shared := served.2
        program := Function.update pool.program i (resume served.1)
        phase := Function.update pool.phase i
          (observe pool.shared (pool.phase i) query served.1) }

variable {serve observe} {pool next : Pool Index Query Answer Result State Phase} {i : Index}

theorem step_eq_some : pool.step serve observe i = some next ↔
    ∃ query resume, pool.program i = .ask query resume ∧ next =
      { shared := (serve pool.shared query).2
        program := Function.update pool.program i (resume (serve pool.shared query).1)
        phase := Function.update pool.phase i
          (observe pool.shared (pool.phase i) query (serve pool.shared query).1) } := by
  rw [step]
  cases pool.program i with
  | done result => simp
  | ask query resume =>
    constructor
    · intro hnext
      exact ⟨query, resume, rfl, (Option.some.inj hnext).symm⟩
    · rintro ⟨other, resume', hask, rfl⟩
      obtain ⟨rfl, hresume⟩ := Program.ask.inj hask
      obtain rfl := eq_of_heq hresume
      rfl

end

def Tracked (rest : Index → Phase → Program Query Answer Result)
    (pool : Pool Index Query Answer Result State Phase) : Prop :=
  ∀ i, pool.program i = rest i (pool.phase i)

variable [DecidableEq Index] {serve : State → (query : Query) → Answer query × State}
  {observe : State → Phase → (query : Query) → Answer query → Phase}
  {rest : Index → Phase → Program Query Answer Result}
  {pool next : Pool Index Query Answer Result State Phase} {i : Index}

theorem Tracked.step (hrest : ∀ i state phase query resume, rest i phase = .ask query resume →
      resume (serve state query).1 = rest i (observe state phase query (serve state query).1))
    (htracked : Tracked rest pool) (hstep : pool.step serve observe i = some next) :
    Tracked rest next := by
  obtain ⟨query, resume, hprogram, rfl⟩ := step_eq_some.mp hstep
  intro j
  by_cases hsame : j = i
  · subst j
    rw [htracked i] at hprogram
    simp only [Function.update_self]
    exact hrest i _ _ _ _ hprogram
  · simp only [Function.update_of_ne hsame]
    exact htracked j

section AtOnce

variable {View : Type} (serve observe)

/-- Each call acts on a view of the state at one of its steps: there the view changes by the effect
of the call, and at its other steps the call leaves the view. -/
def AtOnce (guard : Pool Index Query Answer Result State Phase → Index → Prop)
    (inv : Pool Index Query Answer Result State Phase → Prop) (view : State → View)
    (effect : Index → View → View) (acted : Index → Phase → Prop) : Prop :=
  ∀ pool i next, inv pool → guard pool i → pool.step serve observe i = some next →
    ((acted i (next.phase i) ↔ acted i (pool.phase i)) ∧ view next.shared = view pool.shared) ∨
    (¬ acted i (pool.phase i) ∧ acted i (next.phase i) ∧
      view next.shared = effect i (view pool.shared))

variable {serve observe} {guard : Pool Index Query Answer Result State Phase → Index → Prop}
  {inv : Pool Index Query Answer Result State Phase → Prop} {view : State → View}
  {effect : Index → View → View} {acted : Index → Phase → Prop}

theorem exists_order (hatonce : AtOnce serve observe guard inv view effect acted)
    (hinv : ∀ pool i next, inv pool → guard pool i → pool.step serve observe i = some next →
      inv next)
    {first last : Pool Index Query Answer Result State Phase} {schedule : List Index}
    (hrun : Run (step serve observe) guard first schedule last) (hfirst : inv first)
    (hfresh : ∀ i, ¬ acted i (first.phase i)) :
    ∃ order : List Index, order.Nodup ∧ (∀ i, i ∈ order ↔ acted i (last.phase i)) ∧
      view last.shared = order.foldl (fun seen i => effect i seen) (view first.shared) := by
  -- the calls that have acted, in the order of the steps at which they did
  let ordered (pool : Pool Index Query Answer Result State Phase) : Prop :=
    inv pool ∧ ∃ order : List Index, order.Nodup ∧ (∀ i, i ∈ order ↔ acted i (pool.phase i)) ∧
      view pool.shared = order.foldl (fun seen i => effect i seen) (view first.shared)
  have hall : ordered last := by
    refine hrun.invariant ?_ ⟨hfirst, [], List.nodup_nil, fun i => ?_, rfl⟩
    · rintro pool i next ⟨hpool, order, hnodup, hacted, hview⟩ hguard hstep
      refine ⟨hinv pool i next hpool hguard hstep, ?_⟩
      have hother : ∀ j, j ≠ i → next.phase j = pool.phase j := by
        obtain ⟨query, resume, -, rfl⟩ := step_eq_some.mp hstep
        intro j hne
        exact Function.update_of_ne hne _ _
      rcases hatonce pool i next hpool hguard hstep with ⟨hsame, hkept⟩ | ⟨hnew, hdone, heffect⟩
      · refine ⟨order, hnodup, fun j => ?_, hkept.trans hview⟩
        by_cases hj : j = i
        · rw [hj, hacted, hsame]
        · rw [hother j hj, hacted]
      · refine ⟨order ++ [i], ?_, fun j => ?_, ?_⟩
        · have hi : i ∉ order := fun hmem => hnew ((hacted i).mp hmem)
          exact hnodup.append (List.nodup_singleton i) (List.disjoint_singleton.mpr hi)
        · by_cases hj : j = i
          · simp [hj, hdone]
          · rw [hother j hj, List.mem_append, hacted, List.mem_singleton, or_iff_left hj]
        · rw [heffect, hview, List.foldl_append, List.foldl_cons, List.foldl_nil]
    · exact iff_of_false List.not_mem_nil (hfresh i)
  exact hall.2

end AtOnce

end Pool

end Difflore.Foundation

import Difflore.Foundation.Text
import Mathlib.Data.List.Sort

/-! # Primitives shared by the two upload queues

`cloud_outbox` and `observation_events` share the retry bound, the backoff
arithmetic and the error truncation; each keeps its own SQL.
-/

namespace Difflore.Cloud

open Foundation

def maxRetryCount : Int := 8

def maxObservationBatch : Nat := 64

inductive RetryDecision
  | retry (nextCount : Int)
  | abandon (nextCount : Int)

/-- Decide whether a row with this many recorded failures is retried. -/
def decideRetry (retryCount : Int) : RetryDecision :=
  let nextCount := retryCount + 1
  if nextCount ≥ maxRetryCount then .abandon nextCount else .retry nextCount

/-- `60_000 * 2 ^ clamp nextCount 0 5`. -/
def backoffDelayMs (nextCount : Int) : Int := 60000 * 2 ^ (max 0 (min nextCount 5)).toNat

/-- Jitter in `[0, baseMs / 4]` taken from the seed. -/
def jitterMs (baseMs seed : Int) : Int :=
  let span := max (baseMs / 4) 1
  seed % span

/-- Keep at most `maxChars` characters of an error text. -/
def truncate (s : Text) (maxChars : Nat) : Text :=
  if s.length ≤ maxChars then s else s.take maxChars

structure DrainSummary where
  total : Nat
  perKind : List (Text × Nat)

/-- `SELECT kind, COUNT(*) … GROUP BY kind`, sorted by kind. -/
def drainSummary (kinds : List Text) : DrainSummary where
  total := kinds.length
  perKind := (kinds.dedup.insertionSort (· ≤ ·)).map fun kind => (kind, kinds.count kind)

theorem decideRetry_eq_retry_iff {retryCount nextCount : Int} :
    decideRetry retryCount = .retry nextCount ↔
      nextCount = retryCount + 1 ∧ nextCount < maxRetryCount := by
  simp only [decideRetry]
  split
  next hbound =>
    simp only [reduceCtorEq, false_iff]
    rintro ⟨rfl, hlt⟩
    omega
  next hbound =>
    simp only [RetryDecision.retry.injEq]
    constructor
    · rintro rfl
      exact ⟨rfl, by omega⟩
    · rintro ⟨rfl, _⟩
      rfl

end Difflore.Cloud

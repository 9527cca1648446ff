import LinkedQueues.Text.Record

/-!
How a thread waits between two attempts: a number of spins first, and something more patient
afterwards.
-/
namespace LinkedQueues

inductive Wait
  | spin
  | yield
  | sleep (micros : Nat)
  deriving DecidableEq

/-- How many attempts spin by default before a thread yields. -/
def defaultSpinCount : Nat := 100

namespace Wait

/-- Spins after the first `spinCount` failed attempts, and yields after the others. -/
def ofAttempt (attempt spinCount : Nat) : Wait := if attempt < spinCount then .spin else .yield

theorem ofAttempt_eq_spin_iff (attempt spinCount : Nat) :
    ofAttempt attempt spinCount = .spin ↔ attempt < spinCount := by
  unfold ofAttempt
  split <;> simp [*]

end Wait

structure Backoff where
  attempt : Nat
  spinCount : Nat
  deriving DecidableEq

namespace Backoff

/-- The count of attempts stays at the largest word once it is reached. -/
def maxAttempt : Nat := UInt64.size - 1

def start (spinCount : Nat) : Backoff := ⟨0, spinCount⟩

def reset (b : Backoff) : Backoff := start b.spinCount

def snooze (b : Backoff) : Wait × Backoff :=
  (.ofAttempt b.attempt b.spinCount, { b with attempt := min (b.attempt + 1) maxAttempt })

def snoozes : Nat → Backoff → Backoff
  | 0, b => b
  | n + 1, b => snoozes n b.snooze.2

def isYielding (b : Backoff) : Bool := b.spinCount ≤ b.attempt

def describe (b : Backoff) : Text.Record :=
  .fields "Backoff"
    [("attempt", .fields "Cell" [("value", .ofNat b.attempt)] false),
      ("spin_count", .ofNat b.spinCount), ("is_yielding", .ofBool b.isYielding)] false

end Backoff

/-- What to do about a failed attempt to lock. -/
inductive Policy
  | busy
  | yielding
  /-- Spins at first, then yields, then sleeps. -/
  | adaptive (busySpins : Nat)
  | idle
  deriving DecidableEq

namespace Policy

/-- No sleep is longer than this. -/
def maxSleep : Nat := 1000

def wait : Policy → Nat → Option Wait
  | busy, _ => some .spin
  | yielding, _ => some .yield
  | adaptive busySpins, attempt =>
    if 2 * busySpins < attempt then some (.sleep (min attempt maxSleep))
    else if busySpins < attempt then some .yield
    else some .spin
  | idle, _ => none

end Policy

end LinkedQueues

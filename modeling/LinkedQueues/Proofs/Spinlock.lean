import LinkedQueues.Spinlock
import Mathlib.Data.List.Basic

/-!
What a thread does while it waits for a lock. All of it is done about attempts that failed, and so
either way of waiting is known from their number (`lockSpinning_contended`,
`lockConsulting_contended`), whether an attempt fails at a look at the word or later.
-/
namespace LinkedQueues

def LockStep.wait? : LockStep → Option Wait
  | report _ => none
  | wait w => some w

namespace Spinlock

/-- How an attempt fails that begins with a look at the word. -/
inductive Miss
  | held
  /-- The word looks free, and another thread takes the lock first. -/
  | overtaken
  deriving DecidableEq

/-- Whether the others hold the lock at each access of the attempt. -/
def Miss.words : Miss → List Bool
  | held => [true]
  | overtaken => [false, true]

/-- A first attempt that fails, and then one look after the other. -/
def missed (misses : List Miss) : List Bool := true :: misses.flatMap Miss.words

/-- What a spinning thread does about its first `n` attempts when they fail. -/
def onFailures (spinCount n : Nat) : List LockStep := (List.range n).flatMap (onFailure spinCount)

theorem onFailures_succ (spinCount n : Nat) :
    onFailures spinCount (n + 1) = onFailures spinCount n ++ onFailure spinCount n := by
  simp [onFailures, List.range_succ]

section Spinning

variable (spinCount attempt : Nat) (others : List Bool)

theorem retry_miss (m : Miss) : retry spinCount attempt (m.words ++ others) =
    (onFailure spinCount attempt ++ (retry spinCount (attempt + 1) others).1,
      (retry spinCount (attempt + 1) others).2) := by
  cases m with
  | held => simp [Miss.words, retry]
  | overtaken => simp [Miss.words, retry, tryLock]

theorem retry_free : retry spinCount attempt (false :: false :: others) =
    (onFailure spinCount attempt, ⟨true⟩) := by
  simp [retry, tryLock]

theorem retry_missed (misses : List Miss) :
    retry spinCount attempt (misses.flatMap Miss.words ++ false :: false :: others) =
      ((List.range' attempt (misses.length + 1)).flatMap (onFailure spinCount), ⟨true⟩) := by
  induction misses generalizing attempt with
  | nil => simp [retry_free]
  | cons m misses ih =>
    rw [List.flatMap_cons, List.append_assoc, retry_miss, List.length_cons, List.range'_succ,
      List.flatMap_cons, ih]

theorem lockSpinning_free : lockSpinning spinCount (false :: others) = ([], ⟨true⟩) := rfl

/-- The first attempt and `misses` fail, and then the lock is free. -/
theorem lockSpinning_contended (misses : List Miss) :
    lockSpinning spinCount (missed misses ++ false :: false :: others) =
      (onFailures spinCount (misses.length + 1), ⟨true⟩) := by
  have hr := retry_missed spinCount 0 others misses
  rw [onFailures, List.range_eq_range', ← hr]
  rfl

end Spinning

theorem lockConsulting_held (attempt n : Nat) (others : List Bool) :
    lockConsulting attempt (List.replicate n true ++ false :: others) =
      (List.range' attempt n, ⟨true⟩) := by
  induction n generalizing attempt with
  | zero => rfl
  | succ n ih =>
    rw [List.replicate_succ, List.cons_append, List.range'_succ, lockConsulting]
    simp [tryLock, ih]

theorem lockConsulting_contended (n : Nat) (others : List Bool) :
    lockConsulting 0 (List.replicate n true ++ false :: others) = (List.range n, ⟨true⟩) := by
  rw [lockConsulting_held, List.range_eq_range']

section Failures

variable (spinCount n : Nat)

theorem filterMap_wait_onFailure (attempt : Nat) :
    (onFailure spinCount attempt).filterMap LockStep.wait? = [.ofAttempt attempt spinCount] := by
  unfold onFailure
  split <;> rfl

theorem filterMap_wait_onFailures : (onFailures spinCount n).filterMap LockStep.wait? =
    (List.range n).map fun attempt => .ofAttempt attempt spinCount := by
  induction n with
  | zero => rfl
  | succ n ih =>
    rw [onFailures_succ, List.filterMap_append, ih, filterMap_wait_onFailure, List.range_succ,
      List.map_append]
    rfl

/-- The spins come first, then the report, then the yields. -/
theorem onFailures_eq : onFailures spinCount n =
    List.replicate (min n spinCount) (.wait .spin) ++
      ((if spinCount < n then [.report (.contended spinCount)] else []) ++
        List.replicate (n - spinCount) (.wait .yield)) := by
  induction n with
  | zero => simp [onFailures]
  | succ n ih =>
    rw [onFailures_succ, ih, onFailure]
    rcases Nat.lt_trichotomy n spinCount with h | rfl | h
    · have hw : Wait.ofAttempt n spinCount = .spin := (Wait.ofAttempt_eq_spin_iff _ _).mpr h
      have hmin : min (n + 1) spinCount = min n spinCount + 1 := by omega
      simp [hw, hmin, Nat.sub_eq_zero_of_le h, Nat.sub_eq_zero_of_le (Nat.le_of_lt h),
        Nat.ne_of_lt h, Nat.lt_asymm h, Nat.not_lt.mpr h, List.replicate_succ']
    · simp [Wait.ofAttempt]
    · have hw : Wait.ofAttempt n spinCount = .yield := if_neg (Nat.lt_asymm h)
      have hmin : min (n + 1) spinCount = min n spinCount := by omega
      have hsub : n + 1 - spinCount = n - spinCount + 1 := by omega
      simp [hw, hmin, hsub, h, Nat.ne_of_gt h, Nat.lt_succ_of_lt h, List.replicate_succ']

end Failures

end Spinlock

end LinkedQueues

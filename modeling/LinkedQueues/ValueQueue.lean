import LinkedQueues.PoolQueue
import LinkedQueues.Text.Record
import LinkedQueues.TwoLockQueue

/-!
The queues that own their values as one type.
-/
namespace LinkedQueues

inductive ValueQueue (α : Type)
  | pool (queue : PoolQueue α)
  | twoLock (queue : TwoLockQueue α)

namespace ValueQueue

variable {α : Type}

def push : ValueQueue α → α → Bool → Pushed × ValueQueue α
  | pool q, v, allocates => let (p, q) := q.push v allocates; (p, pool q)
  | twoLock q, v, allocates => let (p, q) := q.push v allocates; (p, twoLock q)

def pop : ValueQueue α → Option α × ValueQueue α
  | pool q => let (v, q) := q.pop; (v, pool q)
  | twoLock q => let (v, q) := q.pop; (v, twoLock q)

def isEmpty : ValueQueue α → Bool
  | pool q => q.isEmpty
  | twoLock q => q.isEmpty

/-- The values that wait, oldest first. -/
def toList : ValueQueue α → List α
  | pool q => q.toList
  | twoLock q => q.toList

/-- What is left behind when the content moves away: a new queue with the default spin count. -/
def leftBehind (defaultSpinCount : Nat) : ValueQueue α → ValueQueue α
  | pool _ => pool .empty
  | twoLock _ => twoLock (.empty defaultSpinCount)

/-- Only the queue of a single pair of threads can be split between them. -/
def canSplit : ValueQueue α → Bool
  | pool _ => true
  | twoLock _ => false

def nodes? : ValueQueue α → Option Nat
  | pool q => some q.nodes
  | twoLock _ => none

def spinCount? : ValueQueue α → Option Nat
  | pool _ => none
  | twoLock q => some q.spinCount

def describe : ValueQueue α → Text.Record
  | pool _ => .fields "SpscQueue" [("head", .atom "node")] true
  | twoLock q => .fields "ConcurrentQueue" [("spin_count", .ofNat q.spinCount)] true

end ValueQueue

end LinkedQueues

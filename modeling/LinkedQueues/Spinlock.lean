import LinkedQueues.Backoff
import LinkedQueues.Event
import LinkedQueues.Fault

/-!
A lock of one word, and two ways of waiting for it. What the other threads do meanwhile is given
as a list: whether they hold the lock at each access to the word. After the end of the list they
leave it free.
-/
namespace LinkedQueues

structure Spinlock where
  locked : Bool
  deriving DecidableEq

/-- What a thread does while it waits for a lock. -/
inductive LockStep
  | report (e : Event)
  | wait (w : Wait)
  deriving DecidableEq

def LockStep.event? : LockStep → Option Event
  | report e => some e
  | wait _ => none

namespace Spinlock

def free : Spinlock := ⟨false⟩

/-- The word is set in any case. It was free if that changed it. -/
def tryLock (l : Spinlock) : Bool × Spinlock := (!l.locked, ⟨true⟩)

def unlock (l : Spinlock) : Except Fault Spinlock :=
  if l.locked then .ok free else .error .notLocked

/-- What follows a failed attempt: the first attempt that does not spin is reported. -/
def onFailure (spinCount attempt : Nat) : List LockStep :=
  (if attempt = spinCount then [.report (.contended spinCount)] else []) ++
    [.wait (.ofAttempt attempt spinCount)]

/-- Waits after every failed attempt, and tries again only when the word looks free. -/
def retry (spinCount : Nat) : Nat → List Bool → List LockStep × Spinlock
  | attempt, [] => (onFailure spinCount attempt, free.tryLock.2)
  | attempt, [false] => (onFailure spinCount attempt, free.tryLock.2)
  | attempt, true :: others =>
    let (steps, l) := retry spinCount (attempt + 1) others
    (onFailure spinCount attempt ++ steps, l)
  | attempt, false :: held :: others =>
    let (taken, l) := tryLock ⟨held⟩
    if taken then (onFailure spinCount attempt, l)
    else
      let (steps, l) := retry spinCount (attempt + 1) others
      (onFailure spinCount attempt ++ steps, l)

/-- Locks, spinning for the first `spinCount` failed attempts and yielding after the others. -/
def lockSpinning (spinCount : Nat) : List Bool → List LockStep × Spinlock
  | [] => ([], free.tryLock.2)
  | held :: others =>
    let (taken, l) := tryLock ⟨held⟩
    if taken then ([], l) else retry spinCount 0 others

/-- Tries until the lock is taken. The result lists the failed attempts, each of which was handed
to the policy. -/
def lockConsulting : Nat → List Bool → List Nat × Spinlock
  | _, [] => ([], free.tryLock.2)
  | attempt, held :: others =>
    let (taken, l) := tryLock ⟨held⟩
    if taken then ([], l)
    else
      let (attempts, l) := lockConsulting (attempt + 1) others
      (attempt :: attempts, l)

def describe (l : Spinlock) : Text.Record :=
  .fields "RawSpinlock" [("locked", .ofBool l.locked)] false

end Spinlock

/-- A word of data under a lock. -/
structure Mutex where
  lock : Spinlock
  data : Int64
  deriving DecidableEq

namespace Mutex

def start (data : Int64) : Mutex := ⟨.free, data⟩

def add (m : Mutex) (x : Int64) : Mutex := { m with data := m.data + x }

/-- The data is shown only when the lock can be taken. -/
def describe (m : Mutex) : Text.Record :=
  let data := if m.lock.tryLock.1 then toString m.data.toInt else "<locked>"
  .fields "Mutex" [("data", .atom data)] false

end Mutex

end LinkedQueues

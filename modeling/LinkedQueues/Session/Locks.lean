import LinkedQueues.Session.Answer
import LinkedQueues.Spinlock
import LinkedQueues.Store

/-!
A session over locks and backoffs under names. A lock that a command waits for is released by its
holder: when the wait is reported, or after the policy was consulted a given number of times.
-/
namespace LinkedQueues.Locks

inductive Lock
  | raw (lock : Spinlock)
  | mutex (mutex : Mutex)
  | backoff (backoff : Backoff)
  deriving DecidableEq

/-- One command, for the lock under a name. -/
inductive Command
  | create (lock : Lock)
  | tryLock
  | isLocked
  | unlock
  | lock (spinCount : Nat)
  | lockConsulting (policy : Policy) (releaseAt : Nat)
  /-- The lock stays held afterwards if `hold` says so. -/
  | add (x : Int64) (spinCount : Nat) (hold : Bool)
  | tryAdd (x : Int64) (hold : Bool)
  | data
  | reclaim
  | snooze (times : Nat)
  | reset
  | isYielding
  | attempts
  | describe (onLines : Bool)
  deriving DecidableEq

abbrev Session := Store String Lock

namespace Session

abbrev Result := Answer Nat × Session

def start : Session := Store.empty

/-- Nobody waits for a held lock longer than this before the wait is reported. -/
def maxSpin : Nat := 100000

def reply (s : Session) (r : Reply Nat) : Result := (r.quiet, s)

def reject (s : Session) : Result := s.reply .rejected

def set (s : Session) (slot : String) (l : Lock) : Session := s.write slot (some l)

/-- When the holder sees the report, the lock is free from the next access on. -/
def untilReported (l : Spinlock) (spinCount : Nat) : List Bool :=
  if l.locked then List.replicate (spinCount + 1) true else []

/-- The holder releases when the policy is consulted about attempt `releaseAt`. -/
def untilConsulted (l : Spinlock) (releaseAt : Nat) : List Bool :=
  if l.locked then List.replicate (releaseAt + 1) true else []

/-- Takes a lock, waiting for its holder if need be; the events of the wait come along. -/
def acquire (l : Spinlock) (spinCount : Nat) : List Event × Spinlock :=
  let (steps, l) := Spinlock.lockSpinning spinCount (untilReported l spinCount)
  (steps.filterMap LockStep.event?, l)

/-- Unlocks, or says why not. -/
def release (l : Spinlock) : Reply Nat × Spinlock :=
  match l.unlock with
  | .ok l => (.done, l)
  | .error f => (.fault f, l)

def stepRaw (s : Session) (slot : String) (l : Spinlock) : Command → Result
  | .tryLock =>
    let (taken, l) := l.tryLock
    (s.set slot (.raw l)).reply (.flag taken)
  | .isLocked => s.reply (.flag l.locked)
  | .unlock =>
    let (r, l) := release l
    (s.set slot (.raw l)).reply r
  | .lock spinCount =>
    if l.locked ∧ maxSpin < spinCount then s.reject
    else
      let (events, l) := acquire l spinCount
      (⟨.done, events⟩, s.set slot (.raw l))
  | .lockConsulting _ releaseAt =>
    let (attempts, l) := Spinlock.lockConsulting 0 (untilConsulted l releaseAt)
    (s.set slot (.raw l)).reply (.items attempts)
  | .describe onLines => s.reply (.text (l.describe.write onLines))
  | _ => s.reject

def stepMutex (s : Session) (slot : String) (m : Mutex) : Command → Result
  | .add x spinCount hold =>
    if m.lock.locked ∧ maxSpin < spinCount then s.reject
    else
      let (events, l) := acquire m.lock spinCount
      let m := { m with lock := if hold then l else .free }.add x
      (⟨.number m.data.toInt, events⟩, s.set slot (.mutex m))
  | .tryAdd x hold =>
    let (taken, l) := m.lock.tryLock
    if taken then
      let m := { m with lock := if hold then l else .free }.add x
      (s.set slot (.mutex m)).reply (.number m.data.toInt)
    else s.reply (.item none)
  | .unlock =>
    let (r, l) := release m.lock
    (s.set slot (.mutex { m with lock := l })).reply r
  | .isLocked => s.reply (.flag m.lock.locked)
  | .data => s.reply (.number m.data.toInt)
  | .reclaim => Session.reply (s.write slot none) (.number m.data.toInt)
  | .describe onLines => s.reply (.text (m.describe.write onLines))
  | _ => s.reject

def stepBackoff (s : Session) (slot : String) (b : Backoff) : Command → Result
  | .snooze times => (s.set slot (.backoff (b.snoozes times))).reply .done
  | .reset => (s.set slot (.backoff b.reset)).reply .done
  | .isYielding => s.reply (.flag b.isYielding)
  | .attempts => s.reply (.number b.attempt)
  | .describe onLines => s.reply (.text (b.describe.write onLines))
  | _ => s.reject

def step (s : Session) (slot : String) : Command → Result
  | .create l => (s.set slot l).reply .done
  | c =>
    match s.read slot with
    | some (.raw l) => s.stepRaw slot l c
    | some (.mutex m) => s.stepMutex slot m c
    | some (.backoff b) => s.stepBackoff slot b c
    | none => s.reject

end Session

end LinkedQueues.Locks

import LinkedQueues.Backoff
import LinkedQueues.Registry
import LinkedQueues.Session.Answer
import LinkedQueues.ValueQueue

/-!
A session over queues that own their values: queues and handles under names. `Session.step`
carries out one command and lists the values that it disposed of.
-/
namespace LinkedQueues.Values

/-- How a new queue is set up. -/
inductive Setup
  | pool
  /-- Free nodes from the start; the allocation of node `failAt` fails. -/
  | poolWithCapacity (capacity : Nat) (failAt : Option Nat)
  | twoLock (spinCount : Nat)
  deriving DecidableEq

inductive Command (α : Type)
  | create (slot : String) (setup : Setup)
  | push (slot : String) (value : α) (allocates : Bool) (access : Access)
  /-- A missing value stands for one that is not of the element type. -/
  | pushAll (slot : String) (values : List (Option α)) (access : Access)
  | pop (slot : String) (access : Access)
  | drain (slot : String) (limit : Option Nat) (access : Access)
  | isEmpty (slot : String)
  | nodes (slot : String)
  | spinCount (slot : String)
  | describe (slot : String) (onLines : Bool)
  | take (slot into : String)
  | dispose (slot : String)
  | split (slot producer consumer : String)
  | reclaim (slot into : String)
  deriving DecidableEq

structure Session (α : Type) where
  /-- The memory that one node takes. -/
  layout : Layout
  registry : Registry (ValueQueue α)

/-- The answer to a command, the values that were disposed of, and the session afterwards. -/
structure Outcome (α : Type) where
  answer : Answer α
  disposed : List α := []
  session : Session α

namespace Session

variable {α : Type}

def start (layout : Layout) : Session α := ⟨layout, .empty⟩

def reply (s : Session α) (r : Reply α) : Outcome α := { answer := r.quiet, session := s }

def reject (s : Session α) : Outcome α := s.reply .rejected

/-- Answers after some queues are gone together with the values left in them. -/
def settle (s : Session α) (r : Reply α) (change : List (ValueQueue α) × Registry (ValueQueue α)) :
    Outcome α :=
  { answer := r.quiet
    disposed := change.1.flatMap ValueQueue.toList
    session := { s with registry := change.2 } }

def outOfMemory (s : Session α) : Answer α :=
  ⟨.outOfMemory ⟨s.layout⟩, [.allocationFailed s.layout]⟩

def owned? (s : Session α) (slot : String) : Option (ValueQueue α) := s.registry.owned? slot

/-- The interfaces are those of handles and of queues with many producers and consumers. -/
def usable (access : Access) (q : ValueQueue α) : Bool := access = .direct || !q.canSplit

def producing? (s : Session α) (slot : String) (access : Access) : Option (ValueQueue α) :=
  s.registry.producing? slot (usable access)

def consuming? (s : Session α) (slot : String) (access : Access) : Option (ValueQueue α) :=
  s.registry.consuming? slot (usable access)

def update (s : Session α) (slot : String) (q : ValueQueue α) : Session α :=
  { s with registry := s.registry.setQueue slot q }

def create (s : Session α) (slot : String) (setup : Setup) : Outcome α :=
  let place (q : ValueQueue α) := s.settle .done (s.registry.place slot (.owned q))
  match setup with
  | .pool => place (.pool .empty)
  | .twoLock spinCount => place (.twoLock (.empty spinCount))
  | .poolWithCapacity capacity failAt =>
    if failAt.any (· < capacity) then { answer := s.outOfMemory, session := s }
    else place (.pool (.withCapacity capacity))

/-- A value whose node cannot be allocated is disposed of. -/
def push (s : Session α) (slot : String) (v : α) (allocates : Bool) (access : Access) : Outcome α :=
  match s.producing? slot access with
  | none => s.reject
  | some q =>
    let (p, q) := q.push v allocates
    let s := s.update slot q
    match p with
    | .stored => s.reply .done
    | .grown nodes => { answer := ⟨.done, [.poolGrows nodes]⟩, session := s }
    | .failed => { answer := s.outOfMemory, disposed := [v], session := s }

/-- Pushes one value after the other, until one is not accepted. -/
def pushAll (slot : String) (access : Access) : List (Option α) → Session α → Outcome α
  | [], s => s.reply .done
  | none :: _, s => s.reject
  | some v :: vs, s =>
    let o := s.push slot v true access
    match o.answer.reply with
    | .done =>
      let rest := pushAll slot access vs o.session
      { rest with
        answer := ⟨rest.answer.reply, o.answer.events ++ rest.answer.events⟩
        disposed := o.disposed ++ rest.disposed }
    | _ => o

def pop (s : Session α) (slot : String) (access : Access) : Outcome α :=
  match s.consuming? slot access with
  | none => s.reject
  | some q =>
    let (v, q) := q.pop
    (s.update slot q).reply (.items v.toList)

/-- Pops at most `limit` values, until none is left. -/
def drain (slot : String) (access : Access) : Nat → Session α → Outcome α
  | 0, s => s.reply (.items [])
  | limit + 1, s =>
    let o := s.pop slot access
    match o.answer.reply with
    | .items (v :: _) =>
      let rest := drain slot access limit o.session
      match rest.answer.reply with
      | .items vs => rest.session.reply (.items (v :: vs))
      | _ => rest
    | _ => o

/-- How many pops empty the queue and find that it is empty. -/
def exhausting (s : Session α) (slot : String) : Nat :=
  match s.registry.queue? slot with
  | none => 1
  | some q => q.toList.length + 1

/-- The content moves to `into`, and an empty queue of the same kind stays behind. -/
def take (s : Session α) (slot into : String) : Outcome α :=
  match s.owned? slot with
  | none => s.reject
  | some q =>
    let s := s.update slot (q.leftBehind defaultSpinCount)
    s.settle .done (s.registry.place into (.owned q))

def split (s : Session α) (slot producer consumer : String) : Outcome α :=
  match s.owned? slot with
  | none => s.reject
  | some q =>
    if q.canSplit then s.settle .done (s.registry.split slot q producer consumer) else s.reject

/-- A consumer becomes the queue again when the producer is gone. -/
def reclaim (s : Session α) (slot into : String) : Outcome α :=
  match s.registry.holding? slot with
  | some (.consumer id) =>
    match s.registry.unshare slot id into with
    | some change => s.settle (.flag true) change
    | none => s.reply (.flag false)
  | _ => s.reject

def dispose (s : Session α) (slot : String) : Outcome α :=
  match s.registry.holding? slot with
  | none => s.reject
  | some _ => s.settle .done (s.registry.dispose slot)

def nodes? (s : Session α) (slot : String) : Option Nat :=
  match s.registry.holding? slot with
  | some (.consumer _) => none
  | _ => (s.registry.queue? slot).bind ValueQueue.nodes?

def ofOption (s : Session α) : Option (Reply α) → Outcome α
  | some r => s.reply r
  | none => s.reject

def step (s : Session α) : Command α → Outcome α
  | .create slot setup => s.create slot setup
  | .push slot v allocates access => s.push slot v allocates access
  | .pushAll slot vs access =>
    if (s.producing? slot access).isSome then pushAll slot access vs s else s.reject
  | .pop slot access => s.pop slot access
  | .drain slot limit access =>
    if s.registry.isHeld slot then drain slot access (limit.getD (s.exhausting slot)) s
    else s.reject
  | .isEmpty slot => s.ofOption ((s.consuming? slot .direct).map fun q => .flag q.isEmpty)
  | .nodes slot => s.ofOption ((s.nodes? slot).map fun n => .number n)
  | .spinCount slot =>
    s.ofOption ((s.owned? slot).bind fun q => q.spinCount?.map fun n => .number n)
  | .describe slot onLines =>
    s.ofOption ((s.owned? slot).map fun q => .text (q.describe.write onLines))
  | .take slot into => s.take slot into
  | .dispose slot => s.dispose slot
  | .split slot producer consumer => s.split slot producer consumer
  | .reclaim slot into => s.reclaim slot into

/-- Everything goes, name after name. The values left are disposed of. -/
def finish (s : Session α) : List α := s.registry.disposeAll.1.flatMap ValueQueue.toList

end Session

end LinkedQueues.Values

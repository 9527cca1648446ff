import LinkedQueues.Backoff
import LinkedQueues.ChainQueue
import LinkedQueues.Popped
import LinkedQueues.StampQueue
import LinkedQueues.StubQueue
import LinkedQueues.Text.Record

/-!
The intrusive containers as one type, over one heap that holds the hooks of all nodes and the
stubs of all queues.
-/
namespace LinkedQueues

/-- A node has a plain hook and a stamped one. -/
structure Heap where
  links : Links
  stamps : Stamps
  /-- The stub that the next queue gets. -/
  freshStub : Nat

namespace Heap

def empty : Heap := ⟨Links.empty, Stamps.empty, 0⟩

def newStub (h : Heap) : Cell × Heap :=
  let c := .stub h.freshStub
  (c, { h with links := h.links.clear c, freshStub := h.freshStub + 1 })

end Heap

inductive Container
  /-- One consumer at a time. -/
  | mpsc (queue : StubQueue)
  /-- Consumers take turns under a lock; one producer. -/
  | spmc (queue : StubQueue) (spinCount : Nat)
  /-- Consumers take turns under a lock. -/
  | mpmc (queue : StubQueue) (spinCount : Nat)
  | stamped (queue : StampQueue)
  | chain (queue : ChainQueue)
  | stack (stack : ChainStack)
  deriving DecidableEq

namespace Container

inductive Kind
  | mpsc
  | spmc
  | mpmc
  | stamped
  | chain
  | stack
  deriving DecidableEq

/-- Neither side waits for a lock, for the queues that say so. -/
def Kind.isLockFree? : Kind → Option Bool
  | mpsc => some true
  | spmc | mpmc => some false
  | _ => none

def kind : Container → Kind
  | mpsc _ => .mpsc
  | spmc _ _ => .spmc
  | mpmc _ _ => .mpmc
  | stamped _ => .stamped
  | chain _ => .chain
  | stack _ => .stack

/-- Kinds whose consumers take turns under a lock. -/
def Kind.isLocked : Kind → Bool
  | spmc | mpmc => true
  | _ => false

/-- The spin count matters only where consumers wait for each other. -/
def create (k : Kind) (spinCount : Nat) (h : Heap) : Container × Heap :=
  match k with
  | .mpsc => let (c, h) := h.newStub; (mpsc (.empty c), h)
  | .spmc => let (c, h) := h.newStub; (spmc (.empty c) spinCount, h)
  | .mpmc => let (c, h) := h.newStub; (mpmc (.empty c) spinCount, h)
  | .stamped => (stamped .empty, h)
  | .chain => (chain .empty, h)
  | .stack => (stack .empty, h)

def spinCount? : Container → Option Nat
  | spmc _ n | mpmc _ n => some n
  | _ => none

/-- Runs a stub queue operation on the links of the heap. -/
def onLinks {α : Type} (h : Heap) (wrap : StubQueue → Container) (r : α × StubQueue × Links) :
    α × Container × Heap :=
  (r.1, wrap r.2.1, { h with links := r.2.2 })

def push (c : Container) (h : Heap) (n : Nat) : Option Fault × Container × Heap :=
  match c with
  | mpsc q => onLinks h mpsc (q.push h.links (.node n))
  | spmc q s => onLinks h (spmc · s) (q.push h.links (.node n))
  | mpmc q s => onLinks h (mpmc · s) (q.push h.links (.node n))
  | stamped q =>
    let (q, m) := q.push h.stamps n
    (none, stamped q, { h with stamps := m })
  | chain q =>
    match q.push h.links (.node n) with
    | .ok (q, m) => (none, chain q, { h with links := m })
    | .error f => (some f, c, h)
  | stack s =>
    match s.push h.links (.node n) with
    | .ok (s, m) => (none, stack s, { h with links := m })
    | .error f => (some f, c, h)

def pop (c : Container) (h : Heap) : Popped Nat × Container × Heap :=
  let (p, c, h) : Popped Cell × Container × Heap := match c with
    | mpsc q => onLinks h mpsc (q.pop h.links)
    | spmc q s => onLinks h (spmc · s) (q.pop h.links)
    | mpmc q s => onLinks h (mpmc · s) (q.pop h.links)
    | stamped q =>
      match q.pop h.stamps with
      | .ok (n, q, m) => (.ofOption (n.map .node), stamped q, { h with stamps := m })
      | .error f => (.refused f, c, h)
    | chain q =>
      let (n, q, m) := q.pop h.links
      (.ofOption n, chain q, { h with links := m })
    | stack s =>
      let (n, s, m) := s.pop h.links
      (.ofOption n, stack s, { h with links := m })
  (p.filterMap Cell.node?, c, h)

def isEmpty (c : Container) (h : Heap) : Bool :=
  match c with
  | mpsc q | spmc q _ | mpmc q _ => q.isEmpty h.links
  | stamped q => q.isEmpty
  | chain q => q.isEmpty
  | stack s => s.isEmpty

/-- The node on top of a stack. -/
def top? : Container → Option (Option Nat)
  | stack s => some (s.top.bind Cell.node?)
  | _ => none

def describeCell : Option Cell → Text.Record
  | none => .atom "null"
  | some (.node i) => .atom s!"hook{i}"
  | some (.stub _) => .atom "stub"

def describeStamped : Option Nat → Text.Record
  | none => .atom "null"
  | some i => .atom s!"seqhook{i}"

def describeEnd (c : Option Cell) : Text.Record := .ofOption (c.map fun c => describeCell (some c))

def describeStubQueue (q : StubQueue) : Text.Record :=
  .fields "MpscQueue" [("tail", describeCell q.tail), ("stub", describeCell q.stub)] true

def describe : Container → Text.Record
  | mpsc q => describeStubQueue q
  | spmc q s => .fields "SpmcQueue" [("tail", describeCell q.tail), ("spin_count", .ofNat s)] true
  | mpmc q s => .fields "MpmcQueue" [("queue", describeStubQueue q), ("spin_count", .ofNat s)] true
  | stamped q =>
    .fields "SeqQueue" [("tail", describeStamped q.tail), ("seq", .ofNat q.published.toNat)] true
  | chain q =>
    .fields "IntrusiveQueue" [("head", describeEnd q.head), ("tail", describeEnd q.tail)] false
  | stack s => .fields "IntrusiveStack" [("top", describeEnd s.top)] false

end Container

namespace Heap

def describeHook (h : Heap) (n : Nat) : Text.Record :=
  .fields "Hook" [("next", Container.describeCell (h.links.read (.node n)))] false

def describeStampHook (h : Heap) (n : Nat) : Text.Record :=
  let hook := h.stamps.hook n
  .fields "SeqHook"
    [("next", Container.describeStamped hook.next), ("seq", .ofNat hook.stamp.toNat)] false

end Heap

end LinkedQueues

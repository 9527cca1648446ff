import LinkedQueues.Store
import LinkedQueues.Fault

/-!
An intrusive queue of one producer and one consumer. The producer stacks nodes and stamps them
with consecutive numbers. When the consumer runs out of nodes it reverses, in one batch, all
nodes up to the published stamp that it has not taken yet.
-/
namespace LinkedQueues

/-- The hook of a stamped node. -/
structure StampHook where
  next : Option Nat := none
  stamp : UInt32 := 0
  deriving DecidableEq

/-- A memory of stamped hooks, where every node starts cleared. -/
abbrev Stamps := Store Nat StampHook

namespace Stamps

def empty : Stamps := Store.empty

def hook (m : Stamps) (n : Nat) : StampHook := (m.read n).getD {}

def put (m : Stamps) (n : Nat) (h : StampHook) : Stamps := m.write n (some h)

def clear (m : Stamps) (n : Nat) : Stamps := m.put n {}

def relink (m : Stamps) (n : Nat) (next : Option Nat) : Stamps :=
  m.put n { m.hook n with next := next }

@[simp] theorem hook_put (m : Stamps) (n k : Nat) (h : StampHook) :
    (m.put n h).hook k = if n = k then h else m.hook k := by
  by_cases e : n = k <;> simp [hook, put, Store.read_write, e]

end Stamps

structure StampQueue where
  /-- The node that was stacked last, which may be gone already. -/
  tail : Option Nat := none
  /-- The stamp of the newest node that the consumer may take. -/
  published : UInt32 := 0
  /-- The rest of the reversed batch, oldest first. -/
  head : Option Nat := none
  /-- The newest stamp that was ever in a batch. -/
  taken : UInt32 := 0
  deriving DecidableEq

namespace StampQueue

def empty : StampQueue := {}

/-- The first half of a push: `n` gets the next stamp and stands on top of the stack. -/
def stack (q : StampQueue) (m : Stamps) (n : Nat) : StampQueue × Stamps :=
  ({ q with tail := some n }, m.put n ⟨q.tail, q.published + 1⟩)

/-- The second half of a push. -/
def publish (q : StampQueue) : StampQueue := { q with published := q.published + 1 }

def push (q : StampQueue) (m : Stamps) (n : Nat) : StampQueue × Stamps :=
  let (q, m) := q.stack m n
  (q.publish, m)

/-- Stamps come back after this many pushes, so no batch is longer. -/
def batchLimit : Nat := UInt32.size

/-- Walks down the stack to the node with the given stamp. -/
def find (m : Stamps) (stamp : UInt32) : Nat → Nat → Except Fault Nat
  | 0, _ => .error .endlessChain
  | fuel + 1, n =>
    if (m.hook n).stamp = stamp then .ok n
    else
      match (m.hook n).next with
      | none => .error (.notStacked stamp)
      | some older => find m stamp fuel older

/-- Turns the links of the stack around, from `n` down to the oldest stamp, whose node leaves.
The nodes above it are left in `reversed`. -/
def reverse (oldest : UInt32) :
    Nat → Stamps → Nat → Option Nat → Except Fault (Nat × Option Nat × Stamps)
  | 0, _, _, _ => .error .endlessChain
  | fuel + 1, m, n, reversed =>
    if (m.hook n).stamp = oldest then .ok (n, reversed, m)
    else
      match (m.hook n).next with
      | none => .error (.brokenBatch oldest)
      | some older => reverse oldest fuel (m.relink n reversed) older (some n)

/-- Takes every node up to the published stamp off the stack and pops the oldest of them. -/
def popBatch (q : StampQueue) (m : Stamps) : Except Fault (Option Nat × StampQueue × Stamps) :=
  if q.published = q.taken then .ok (none, q, m)
  else
    match q.tail with
    | none => .error (.notStacked q.published)
    | some top => do
      let newest ← find m q.published batchLimit top
      let (n, head, m) ← reverse (q.taken + 1) batchLimit m newest none
      return (some n, { q with head := head, taken := q.published }, m)

def pop (q : StampQueue) (m : Stamps) : Except Fault (Option Nat × StampQueue × Stamps) :=
  match q.head with
  | some n => .ok (some n, { q with head := (m.hook n).next }, m)
  | none => q.popBatch m

def isEmpty (q : StampQueue) : Bool := q.head.isNone && q.published = q.taken

end StampQueue

end LinkedQueues

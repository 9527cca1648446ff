import LinkedQueues.ValueNode

/-!
A queue of values for one producer and one consumer that recycles its nodes. All nodes form one
chain: spare nodes, the sentinel at the head, then the nodes whose values wait. The producer
reuses the nodes in front of the head as far as it has seen the head move.
-/
namespace LinkedQueues

structure PoolQueue (α : Type) where
  cells : ValueNodes α
  /-- The sentinel, which the consumer moves. -/
  head : Nat
  tail : Nat
  /-- The first node of the chain, which is reused first. -/
  spare : Nat
  /-- The head when the producer looked last. Nodes in front of it are free. -/
  seenHead : Nat
  /-- All nodes ever allocated, numbered from zero. -/
  nodes : Nat

namespace PoolQueue

variable {α : Type}

/-- Only the sentinel. -/
def empty : PoolQueue α := ⟨ValueNodes.put Store.empty 0 {}, 0, 0, 0, 0, 1⟩

/-- Puts one more free node in front of the chain. -/
def reserve (q : PoolQueue α) : PoolQueue α :=
  { q with
    cells := q.cells.put q.nodes ⟨some q.spare, none⟩
    spare := q.nodes
    nodes := q.nodes + 1 }

def withCapacity : Nat → PoolQueue α
  | 0 => empty
  | n + 1 => (withCapacity n).reserve

def hasSpare (q : PoolQueue α) : Bool := q.spare ≠ q.seenHead

/-- Looks at the head again when no node is known to be free. -/
def lookAhead (q : PoolQueue α) : PoolQueue α :=
  if q.hasSpare then q else { q with seenHead := q.head }

/-- Takes the first node off the chain. -/
def takeSpare (q : PoolQueue α) : Nat × PoolQueue α :=
  (q.spare, { q with spare := (q.cells.next q.spare).getD q.spare })

/-- Puts a value into node `n` and the node behind the tail. -/
def attach (q : PoolQueue α) (n : Nat) (v : α) : PoolQueue α :=
  { q with cells := (q.cells.put n ⟨none, some v⟩).link q.tail n, tail := n }

/-- Stores a value in a free node, or in a new one if `allocates` says that there is memory. -/
def push (q : PoolQueue α) (v : α) (allocates : Bool) : Pushed × PoolQueue α :=
  let q := q.lookAhead
  if q.hasSpare then
    let (n, q) := q.takeSpare
    (.stored, q.attach n v)
  else if allocates then
    (.grown (q.nodes + 1), { q with nodes := q.nodes + 1 }.attach q.nodes v)
  else (.failed, q)

/-- The node behind the sentinel gives up its value and is the sentinel from now on. -/
def pop (q : PoolQueue α) : Option α × PoolQueue α :=
  match q.cells.next q.head with
  | none => (none, q)
  | some n => (q.cells.value n, { q with cells := q.cells.vacate n, head := n })

def isEmpty (q : PoolQueue α) : Bool := (q.cells.next q.head).isNone

/-- Every node, in the order of the chain. -/
def chain (q : PoolQueue α) : List Nat := q.cells.chain q.nodes (some q.spare)

/-- The nodes behind the sentinel, oldest first. -/
def live (q : PoolQueue α) : List Nat := q.cells.chain q.nodes (q.cells.next q.head)

/-- The values that wait, oldest first. They go in this order when the queue goes. -/
def toList (q : PoolQueue α) : List α := q.live.filterMap q.cells.value

end PoolQueue

end LinkedQueues

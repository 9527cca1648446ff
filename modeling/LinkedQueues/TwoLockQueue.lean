import LinkedQueues.ValueNode

/-!
A queue of values for any number of producers and consumers, who take turns under one lock at
each end. Every push allocates a node, and every pop frees the sentinel that it leaves behind.
-/
namespace LinkedQueues

structure TwoLockQueue (α : Type) where
  cells : ValueNodes α
  /-- The sentinel. -/
  head : Nat
  tail : Nat
  /-- The number of the next allocated node. -/
  fresh : Nat
  spinCount : Nat

namespace TwoLockQueue

variable {α : Type}

def empty (spinCount : Nat) : TwoLockQueue α :=
  ⟨ValueNodes.put Store.empty 0 {}, 0, 0, 1, spinCount⟩

def push (q : TwoLockQueue α) (v : α) (allocates : Bool) : Pushed × TwoLockQueue α :=
  if allocates then
    let n := q.fresh
    let cells := (q.cells.put n ⟨none, some v⟩).link q.tail n
    (.stored, { q with cells := cells, tail := n, fresh := n + 1 })
  else (.failed, q)

def pop (q : TwoLockQueue α) : Option α × TwoLockQueue α :=
  match q.cells.next q.head with
  | none => (none, q)
  | some n => (q.cells.value n, { q with cells := (q.cells.vacate n).free q.head, head := n })

def isEmpty (q : TwoLockQueue α) : Bool := (q.cells.next q.head).isNone

/-- The nodes behind the sentinel, oldest first. -/
def live (q : TwoLockQueue α) : List Nat := q.cells.chain q.fresh (q.cells.next q.head)

/-- The values that wait, oldest first. They go in this order when the queue goes. -/
def toList (q : TwoLockQueue α) : List α := q.live.filterMap q.cells.value

end TwoLockQueue

end LinkedQueues

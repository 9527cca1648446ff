import LinkedQueues.Cell
import LinkedQueues.Fault

/-!
Intrusive containers for a single thread: a queue and a stack of linked cells. A cell that leaves
either of them loses its link.
-/
namespace LinkedQueues

structure ChainQueue where
  head : Option Cell
  tail : Option Cell
  deriving DecidableEq

namespace ChainQueue

def empty : ChainQueue := ⟨none, none⟩

def isEmpty (q : ChainQueue) : Bool := q.head.isNone

/-- Links `c` behind the tail, or makes it the head of an empty queue. -/
def attach (q : ChainQueue) (m : Links) (c : Cell) : Option Cell × Links :=
  match q.tail with
  | some t => (q.head, m.join t c)
  | none => (some c, m)

/-- A cell is refused while it is linked, and while it is the tail. -/
def push (q : ChainQueue) (m : Links) (c : Cell) : Except Fault (ChainQueue × Links) :=
  if q.tail = some c ∨ m.isLinked c then .error .stillLinked
  else
    let (head, m) := q.attach (m.clear c) c
    .ok (⟨head, some c⟩, m)

def pop (q : ChainQueue) (m : Links) : Option Cell × ChainQueue × Links :=
  match q.head with
  | none => (none, q, m)
  | some c =>
    match m.read c with
    | none => (some c, empty, m.clear c)
    | some next => (some c, { q with head := some next }, m.clear c)

/-- All cells of `other` move behind the tail of `q`. -/
def append (q other : ChainQueue) (m : Links) : ChainQueue × ChainQueue × Links :=
  match other.head with
  | none => (q, other, m)
  | some c =>
    let (head, m) := q.attach m c
    (⟨head, other.tail⟩, empty, m)

end ChainQueue

structure ChainStack where
  top : Option Cell
  deriving DecidableEq

namespace ChainStack

def empty : ChainStack := ⟨none⟩

def isEmpty (s : ChainStack) : Bool := s.top.isNone

/-- The cell on top cannot be pushed again. -/
def push (s : ChainStack) (m : Links) (c : Cell) : Except Fault (ChainStack × Links) :=
  if s.top = some c then .error .stillLinked else .ok (⟨some c⟩, m.write c s.top)

def pop (s : ChainStack) (m : Links) : Option Cell × ChainStack × Links :=
  match s.top with
  | none => (none, s, m)
  | some c => (some c, ⟨m.read c⟩, m.clear c)

end ChainStack

end LinkedQueues

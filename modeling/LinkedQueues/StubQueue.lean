import LinkedQueues.Cell
import LinkedQueues.Popped

/-!
An intrusive queue that any number of producers extend at the tail while one consumer at a time
takes from the head. A push replaces the tail first and links the previous tail afterwards, so
between the two halves the chain is broken. A stub cell keeps the chain from being empty.
-/
namespace LinkedQueues

structure StubQueue where
  head : Cell
  tail : Cell
  stub : Cell
  deriving DecidableEq

namespace StubQueue

def empty (stub : Cell) : StubQueue := ⟨stub, stub, stub⟩

/-- The first half of a push: `c` loses its link and becomes the tail. -/
def announce (q : StubQueue) (m : Links) (c : Cell) : StubQueue × Links :=
  ({ q with tail := c }, m.clear c)

/-- Both halves of a push. A cell that is the tail already is refused after the first one. -/
def push (q : StubQueue) (m : Links) (c : Cell) : Option Fault × StubQueue × Links :=
  let (p, n) := q.announce m c
  if q.tail = c then (some .pushedTwice, p, n) else (none, p, n.join q.tail c)

/-- The head leaves and `next` is the head from now on. -/
def advance (q : StubQueue) (next : Cell) : StubQueue := { q with head := next }

/-- Pops a head without a successor: it can leave only once the stub stands behind it. -/
def popLast (q : StubQueue) (m : Links) : Popped Cell × StubQueue × Links :=
  if q.head = q.tail then
    match q.push m q.stub with
    | (some f, q, m) => (.refused f, q, m)
    | (none, q, m) =>
      match m.read q.head with
      | some next => (.item q.head, q.advance next, m)
      | none => (.empty, q, m)
  else (.inFlight, q, m)

/-- The oldest cell leaves the queue; the stub is passed over when it is in front. -/
def pop (q : StubQueue) (m : Links) : Popped Cell × StubQueue × Links :=
  match m.read q.head with
  | none => if q.head = q.stub then (.empty, q, m) else q.popLast m
  | some next =>
    if q.head = q.stub then
      match m.read next with
      | some second => (.item next, q.advance second, m)
      | none => (q.advance next).popLast m
    else (.item q.head, q.advance next, m)

/-- The stub is in front and leads nowhere. -/
def isEmpty (q : StubQueue) (m : Links) : Bool :=
  q.head = q.stub && !m.isLinked q.stub

theorem push_tail (q : StubQueue) (m : Links) :
    q.push m q.tail = (some .pushedTwice, q, m.clear q.tail) := by
  simp [push, announce]

theorem push_of_ne (q : StubQueue) (m : Links) {c : Cell} (h : q.tail ≠ c) :
    q.push m c = (none, { q with tail := c }, (m.clear c).join q.tail c) := by
  simp [push, announce, h]

end StubQueue

end LinkedQueues

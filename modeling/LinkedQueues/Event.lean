import LinkedQueues.Layout

/-!
What the containers and locks report while they work.
-/
namespace LinkedQueues

inductive Event
  | pushInFlight
  | contended (spinCount : Nat)
  | poolGrows (nodes : Nat)
  | allocationFailed (layout : Layout)
  deriving DecidableEq

namespace Event

inductive Level
  | trace
  | debug
  | warn
  deriving DecidableEq

def Level.name : Level → String
  | trace => "TRACE"
  | debug => "DEBUG"
  | warn => "WARN"

def level : Event → Level
  | pushInFlight => .trace
  | contended _ => .trace
  | poolGrows _ => .debug
  | allocationFailed _ => .warn

def message : Event → String
  | pushInFlight => "a push is in flight, reporting the queue as empty"
  | contended _ => "spinlock is contended, yielding"
  | poolGrows _ => "SPSC queue node pool grows"
  | allocationFailed _ => "failed to allocate a queue node"

/-- The numbers that the event carries, by name. -/
def fields : Event → List (String × Nat)
  | pushInFlight => []
  | contended n => [("spin_count", n)]
  | poolGrows n => [("nodes", n)]
  | allocationFailed l => [("size", l.size), ("align", l.align)]

end Event

end LinkedQueues

import LinkedQueues.Event
import LinkedQueues.Fault

/-!
The outcome of taking one element out of a container.
-/
namespace LinkedQueues

inductive Popped (α : Type)
  | item (a : α)
  | empty
  /-- The next element cannot be reached yet, because its push is unfinished. -/
  | inFlight
  | refused (f : Fault)
  deriving DecidableEq

namespace Popped

variable {α β : Type}

def ofOption : Option α → Popped α
  | some a => item a
  | none => empty

def item? : Popped α → Option α
  | item a => some a
  | _ => none

/-- Elements outside the domain of `f` count as absent. -/
def filterMap (f : α → Option β) : Popped α → Popped β
  | item a => ofOption (f a)
  | empty => empty
  | inFlight => inFlight
  | refused e => refused e

/-- Only an unfinished push is reported. -/
def events : Popped α → List Event
  | inFlight => [.pushInFlight]
  | _ => []

@[simp] theorem item?_ofOption (o : Option α) : (ofOption o).item? = o := by cases o <;> rfl

@[simp] theorem events_ofOption (o : Option α) : (ofOption o).events = [] := by cases o <;> rfl

end Popped

end LinkedQueues

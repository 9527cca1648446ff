import LinkedQueues.Event
import LinkedQueues.Fault

/-!
What sessions have in common: how an operation is called, and the answer to one command.
-/
namespace LinkedQueues

/-- An operation is called on the type itself, or through the interface that it shares with the
other producers or consumers. -/
inductive Access
  | direct
  | interface
  deriving DecidableEq

inductive Reply (α : Type)
  | done
  | flag (b : Bool)
  | number (n : Int)
  | item (a : Option α)
  | items (as : List α)
  | text (s : String)
  | fault (f : Fault)
  | outOfMemory (e : AllocFailure)
  /-- The command does not fit what the session holds. -/
  | rejected
  deriving DecidableEq

/-- An answer with the events that the command caused, in order. -/
structure Answer (α : Type) where
  reply : Reply α
  events : List Event := []
  deriving DecidableEq

def Reply.quiet {α : Type} (r : Reply α) : Answer α := ⟨r, []⟩

def Reply.ofFault? {α : Type} : Option Fault → Reply α
  | none => done
  | some f => fault f

end LinkedQueues

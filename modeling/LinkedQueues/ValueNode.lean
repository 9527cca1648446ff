import LinkedQueues.Store

/-!
Nodes that a queue allocates itself, each with a link and room for one value.
-/
namespace LinkedQueues

structure ValueNode (α : Type) where
  next : Option Nat := none
  /-- Nothing while the room is not initialised. -/
  value : Option α := none
  deriving DecidableEq

/-- The allocated nodes of a queue. -/
abbrev ValueNodes (α : Type) := Store Nat (ValueNode α)

namespace ValueNodes

variable {α : Type}

def next (m : ValueNodes α) (n : Nat) : Option Nat := (m.read n).bind ValueNode.next

def value (m : ValueNodes α) (n : Nat) : Option α := (m.read n).bind ValueNode.value

def put (m : ValueNodes α) (n : Nat) (v : ValueNode α) : ValueNodes α := m.write n (some v)

def link (m : ValueNodes α) (n k : Nat) : ValueNodes α := m.put n ⟨some k, m.value n⟩

/-- Moves the value out. -/
def vacate (m : ValueNodes α) (n : Nat) : ValueNodes α := m.put n ⟨m.next n, none⟩

def free (m : ValueNodes α) (n : Nat) : ValueNodes α := m.write n none

/-- At most `limit` nodes from `n` on, in the order of their links. -/
def chain (m : ValueNodes α) : Nat → Option Nat → List Nat
  | 0, _ => []
  | _ + 1, none => []
  | limit + 1, some n => n :: chain m limit (m.next n)

@[simp] theorem next_put (m : ValueNodes α) (n k : Nat) (v : ValueNode α) :
    (m.put n v).next k = if n = k then v.next else m.next k := by
  by_cases h : n = k <;> simp [next, put, Store.read_write, h]

@[simp] theorem value_put (m : ValueNodes α) (n k : Nat) (v : ValueNode α) :
    (m.put n v).value k = if n = k then v.value else m.value k := by
  by_cases h : n = k <;> simp [value, put, Store.read_write, h]

theorem next_link (m : ValueNodes α) (n k l : Nat) :
    (m.link n k).next l = if n = l then some k else m.next l := next_put m n l _

@[simp] theorem value_link (m : ValueNodes α) (n k l : Nat) : (m.link n k).value l = m.value l := by
  by_cases h : n = l <;> simp [link, h]

@[simp] theorem next_vacate (m : ValueNodes α) (n l : Nat) : (m.vacate n).next l = m.next l := by
  by_cases h : n = l <;> simp [vacate, h]

theorem value_vacate (m : ValueNodes α) (n l : Nat) :
    (m.vacate n).value l = if n = l then none else m.value l := value_put m n l _

end ValueNodes

/-- What a push of a value came to. -/
inductive Pushed
  | stored
  /-- A node was allocated for it; the queue owns `nodes` now. -/
  | grown (nodes : Nat)
  /-- The node that it needs could not be allocated. -/
  | failed
  deriving DecidableEq

end LinkedQueues

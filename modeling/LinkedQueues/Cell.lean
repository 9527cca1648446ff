import LinkedQueues.Store

/-!
Link cells and the memory they share. Every node that a caller lends to a container carries one
cell, and a queue that needs a dummy element owns a stub cell. The link of a cell is the cell
it leads to, or nothing.
-/
namespace LinkedQueues

inductive Cell
  | node (index : Nat)
  | stub (id : Nat)
  deriving DecidableEq

namespace Cell

/-- Nodes have the even keys and stubs the odd ones. -/
def key : Cell → Nat
  | node i => 2 * i
  | stub k => 2 * k + 1

theorem key_inj {a b : Cell} : a.key = b.key ↔ a = b := by
  cases a <;> cases b <;> simp [key] <;> omega

instance : Ord Cell := ⟨fun a b => compare a.key b.key⟩

instance : Std.TransOrd Cell where
  eq_swap := Std.OrientedOrd.eq_swap (α := Nat)
  isLE_trans := Std.TransOrd.isLE_trans (α := Nat)

instance : Std.LawfulEqOrd Cell where
  compare_self := Std.ReflOrd.compare_self (α := Nat)
  eq_of_compare h := key_inj.1 (Std.LawfulEqOrd.eq_of_compare (α := Nat) h)

def node? : Cell → Option Nat
  | node i => some i
  | stub _ => none

end Cell

/-- A link memory: the cell that each linked cell leads to. -/
abbrev Links := Store Cell Cell

namespace Links

def empty : Links := Store.empty

def isLinked (m : Links) (c : Cell) : Bool := (m.read c).isSome

def clear (m : Links) (c : Cell) : Links := m.write c none

def join (m : Links) (c d : Cell) : Links := m.write c (some d)

theorem isLinked_iff (m : Links) (c : Cell) : m.isLinked c = true ↔ ∃ d, m.read c = some d :=
  Option.isSome_iff_exists

@[simp] theorem read_clear (m : Links) (c d : Cell) :
    (m.clear c).read d = if c = d then none else m.read d := m.read_write c d none

@[simp] theorem read_join (m : Links) (c d e : Cell) :
    (m.join c d).read e = if c = e then some d else m.read e := m.read_write c e (some d)

end Links

end LinkedQueues

import Std.Data.ExtTreeMap

/-!
Memories of cells. A cell of a `Store` holds one value or nothing, and a store is determined
by what can be read from it (`Store.ext_read`).
-/
namespace LinkedQueues

structure Store (κ ν : Type) [Ord κ] where
  cells : Std.ExtTreeMap κ ν

namespace Store

variable {κ ν : Type} [Ord κ] [Std.TransOrd κ]

def empty : Store κ ν := ⟨∅⟩

def read (s : Store κ ν) (k : κ) : Option ν := s.cells[k]?

/-- Writing `none` vacates the cell. -/
def write (s : Store κ ν) (k : κ) : Option ν → Store κ ν
  | some v => ⟨s.cells.insert k v⟩
  | none => ⟨s.cells.erase k⟩

/-- The occupied cells in ascending order of their keys. -/
def toList (s : Store κ ν) : List (κ × ν) := s.cells.toList

def keys (s : Store κ ν) : List κ := s.toList.map Prod.fst

@[simp] theorem read_empty (k : κ) : (empty : Store κ ν).read k = none := by
  simp [read, empty]

variable [Std.LawfulEqOrd κ]

theorem read_write [DecidableEq κ] (s : Store κ ν) (k l : κ) (o : Option ν) :
    (s.write k o).read l = if k = l then o else s.read l := by
  cases o <;> simp [read, write, Std.ExtTreeMap.getElem?_insert, Std.ExtTreeMap.getElem?_erase]

@[simp] theorem read_write_self (s : Store κ ν) (k : κ) (o : Option ν) :
    (s.write k o).read k = o := by
  classical simp [read_write]

theorem read_write_of_ne (s : Store κ ν) {k l : κ} (h : k ≠ l) (o : Option ν) :
    (s.write k o).read l = s.read l := by
  classical simp [read_write, h]

theorem ext_read {s t : Store κ ν} (h : ∀ k, s.read k = t.read k) : s = t := by
  cases s
  cases t
  exact congrArg Store.mk (Std.ExtTreeMap.ext_getElem? h)

@[simp] theorem write_read_self (s : Store κ ν) (k : κ) : s.write k (s.read k) = s := by
  classical
  apply ext_read
  intro l
  by_cases h : k = l <;> simp [read_write, h]

theorem mem_toList_iff (s : Store κ ν) (k : κ) (v : ν) : (k, v) ∈ s.toList ↔ s.read k = some v :=
  Std.ExtTreeMap.mem_toList_iff_getElem?_eq_some

end Store

end LinkedQueues

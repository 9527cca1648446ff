import LinkedQueues.Layout

/-!
The kinds of values that a queue of values is filled with.
-/
namespace LinkedQueues

inductive Element
  | int (n : Int)
  | unit
  | text (s : String)
  deriving DecidableEq

inductive ElementKind
  | int
  | byte
  | unit
  | text
  /-- A block of `blockLength` copies of one byte. -/
  | block
  /-- A byte that is alone on its cache line. -/
  | aligned
  /-- An integer whose disposal is recorded. -/
  | tracked
  deriving DecidableEq

namespace ElementKind

def blockLength : Nat := 100

def layout : ElementKind → Layout
  | int => ⟨8, 8⟩
  | byte => ⟨1, 1⟩
  | unit => ⟨0, 1⟩
  | text => ⟨24, 8⟩
  | block => ⟨blockLength, 1⟩
  | aligned => ⟨64, 64⟩
  | tracked => ⟨8, 8⟩

def nodeLayout (k : ElementKind) : Layout := k.layout.besideLink

def isByte (n : Int) : Bool := 0 ≤ n && n < 256

/-- The range of a signed word. -/
def isWord (n : Int) : Bool := Int64.minValue.toInt ≤ n && n ≤ Int64.maxValue.toInt

def admits : ElementKind → Element → Bool
  | int, .int n | tracked, .int n => isWord n
  | byte, .int n | block, .int n | aligned, .int n => isByte n
  | unit, .unit => true
  | text, .text _ => true
  | _, _ => false

/-- How a value is shown: a block by the sum of its bytes. -/
def shown : ElementKind → Element → Element
  | block, .int n => .int (blockLength * n)
  | _, e => e

def recordsDisposal : ElementKind → Bool
  | tracked => true
  | _ => false

end ElementKind

end LinkedQueues

/-!
Sizes and alignments in memory, for a machine whose words have 64 bits, and the error of a node
that could not be allocated.
-/
namespace LinkedQueues

structure Layout where
  size : Nat
  align : Nat
  deriving DecidableEq

/-- The least multiple of `a` that is at least `n`. -/
def roundUp (n a : Nat) : Nat := (n + a - 1) / a * a

namespace Layout

/-- The size and the alignment of one word. -/
def word : Layout := ⟨8, 8⟩

/-- An allocation may span at most this many bytes. -/
def maxSize : Nat := 0x8000000000000000

/-- The alignment is a power of two, and the size rounded up to it is not above `maxSize`. -/
def isValid (l : Layout) : Bool :=
  l.align != 0 && l.align &&& (l.align - 1) == 0 && l.align ≤ maxSize && l.size ≤ maxSize - l.align

/-- A value stored beside a link word, so that only the end is padded. -/
def besideLink (value : Layout) : Layout :=
  let align := max word.align value.align
  ⟨roundUp (word.size + value.size) align, align⟩

/-- The length of a cache line, counting the neighbour that is fetched with it. -/
def cacheLine : Nat := 128

/-- A value of the given size alone on its cache lines. -/
def padded (size : Nat) : Layout := ⟨roundUp size cacheLine, cacheLine⟩

end Layout

structure AllocFailure where
  layout : Layout
  deriving DecidableEq

def AllocFailure.message (e : AllocFailure) : String :=
  s!"failed to allocate a queue node of {e.layout.size} bytes (align {e.layout.align})"

end LinkedQueues

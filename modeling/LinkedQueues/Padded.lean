import LinkedQueues.Text.Quoted
import LinkedQueues.Text.Record

/-!
A value that is alone on its cache lines.
-/
namespace LinkedQueues

structure Padded (α : Type) where
  value : α
  deriving DecidableEq

namespace Padded

def modify {α : Type} (p : Padded α) (f : α → α) : Padded α := ⟨f p.value⟩

def describe (p : Padded String) : Text.Record :=
  .fields "CachePadded" [("value", .atom (Text.quote p.value))] false

end Padded

end LinkedQueues

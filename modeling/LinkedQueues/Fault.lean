/-!
The ways in which a caller can break the contract of a container or a lock so that it is noticed.
-/
namespace LinkedQueues

inductive Fault
  /-- The pushed node is linked, or it is the newest element already. -/
  | stillLinked
  /-- The pushed cell is the tail already. -/
  | pushedTwice
  | notLocked
  /-- No node with the published stamp is reachable from the tail. -/
  | notStacked (stamp : UInt32)
  /-- A batch ends before its oldest stamp. -/
  | brokenBatch (oldest : UInt32)
  /-- A chain does not end. -/
  | endlessChain
  deriving DecidableEq

def Fault.message : Fault → String
  | stillLinked => "the node is still linked"
  | pushedTwice => "assertion `left != right` failed: the same node is pushed twice in a row"
  | notLocked => "unlocking a spinlock that isn't locked"
  | notStacked stamp => s!"the node stamped {stamp} is not on the stack"
  | brokenBatch oldest => s!"the node stamped {oldest} is not in the batch"
  | endlessChain => "the chain of nodes has no end"

end LinkedQueues

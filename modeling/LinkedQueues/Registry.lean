import LinkedQueues.Store

/-!
Who owns which queue. A name holds a queue of its own, or one of the handles of a queue that was
split. The handles of a split queue are counted, and the queue goes away with the last of them.
-/
namespace LinkedQueues

inductive Holding (Q : Type)
  | owned (queue : Q)
  | producer (id : Nat)
  | consumer (id : Nat)
  deriving DecidableEq

/-- A split queue and the number of its handles. -/
structure Shared (Q : Type) where
  queue : Q
  handles : Nat
  deriving DecidableEq

structure Registry (Q : Type) where
  slots : Store String (Holding Q)
  shared : Store Nat (Shared Q)
  /-- The number that the next split queue gets. -/
  fresh : Nat

namespace Registry

variable {Q : Type}

def empty : Registry Q := ⟨.empty, .empty, 0⟩

def holding? (r : Registry Q) (name : String) : Option (Holding Q) := r.slots.read name

def isHeld (r : Registry Q) (name : String) : Bool := (r.holding? name).isSome

def resolve? (r : Registry Q) : Holding Q → Option Q
  | .owned q => some q
  | .producer id | .consumer id => (r.shared.read id).map Shared.queue

/-- The queue that a name leads to, through a handle if need be. -/
def queue? (r : Registry Q) (name : String) : Option Q := (r.holding? name).bind r.resolve?

def owned? (r : Registry Q) (name : String) : Option Q :=
  match r.holding? name with
  | some (.owned q) => some q
  | _ => none

/-- The queue that a name may push to. Whether an owner may is up to `usable`. -/
def producing? (r : Registry Q) (name : String) (usable : Q → Bool) : Option Q :=
  match r.holding? name with
  | some (.owned q) => if usable q then some q else none
  | some (.producer id) => r.resolve? (.producer id)
  | _ => none

/-- The queue that a name may pop from. Whether an owner may is up to `usable`. -/
def consuming? (r : Registry Q) (name : String) (usable : Q → Bool) : Option Q :=
  match r.holding? name with
  | some (.owned q) => if usable q then some q else none
  | some (.consumer id) => r.resolve? (.consumer id)
  | _ => none

/-- Replaces the queue that a name leads to. -/
def setQueue (r : Registry Q) (name : String) (q : Q) : Registry Q :=
  match r.holding? name with
  | none => r
  | some (.owned _) => { r with slots := r.slots.write name (some (.owned q)) }
  | some (.producer id) | some (.consumer id) =>
    match r.shared.read id with
    | none => r
    | some s => { r with shared := r.shared.write id (some { s with queue := q }) }

/-- One handle goes; with the last one the queue goes too. -/
def releaseHandle (r : Registry Q) (id : Nat) : List Q × Registry Q :=
  match r.shared.read id with
  | none => ([], r)
  | some s =>
    if s.handles = 1 then ([s.queue], { r with shared := r.shared.write id none })
    else ([], { r with shared := r.shared.write id (some { s with handles := s.handles - 1 }) })

/-- Gives up what a name held. The result lists the queues that are gone. -/
def release (r : Registry Q) : Holding Q → List Q × Registry Q
  | .owned q => ([q], r)
  | .producer id | .consumer id => r.releaseHandle id

/-- Takes the name out of use without giving up what it held. -/
def vacate (r : Registry Q) (name : String) : Registry Q :=
  { r with slots := r.slots.write name none }

/-- Stores a holding under a name and gives up the previous one. -/
def place (r : Registry Q) (name : String) (h : Holding Q) : List Q × Registry Q :=
  let placed := { r with slots := r.slots.write name (some h) }
  match r.holding? name with
  | none => ([], placed)
  | some old => placed.release old

def dispose (r : Registry Q) (name : String) : List Q × Registry Q :=
  match r.holding? name with
  | none => ([], r)
  | some h => (r.vacate name).release h

/-- Shares the queue `q`, which `name` owned, between two handles. The producer is stored first. -/
def split (r : Registry Q) (name : String) (q : Q) (producer consumer : String) :
    List Q × Registry Q :=
  let id := r.fresh
  let r := { r.vacate name with shared := r.shared.write id (some ⟨q, 2⟩), fresh := id + 1 }
  let (gone, r) := r.place producer (.producer id)
  let (gone', r) := r.place consumer (.consumer id)
  (gone ++ gone', r)

/-- One more producer handle of the shared queue `id`. -/
def clone (r : Registry Q) (id : Nat) (into : String) : List Q × Registry Q :=
  match r.shared.read id with
  | none => ([], r)
  | some s =>
    let r := { r with shared := r.shared.write id (some { s with handles := s.handles + 1 }) }
    r.place into (.producer id)

/-- Turns the only handle of a shared queue, held by `name`, back into the queue. -/
def unshare (r : Registry Q) (name : String) (id : Nat) (into : String) :
    Option (List Q × Registry Q) :=
  match r.shared.read id with
  | none => none
  | some s =>
    if s.handles = 1 then
      some (place { r.vacate name with shared := r.shared.write id none } into (.owned s.queue))
    else none

def names (r : Registry Q) : List String := r.slots.keys

/-- Gives up everything, name after name. -/
def disposeAll (r : Registry Q) : List Q × Registry Q :=
  r.names.foldl (fun (gone, r) name => let (gone', r) := r.dispose name; (gone ++ gone', r)) ([], r)

end Registry

end LinkedQueues

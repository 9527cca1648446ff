import LinkedQueues.Container
import LinkedQueues.Registry
import LinkedQueues.Session.Answer

/-!
A session over caller-owned nodes: containers and handles under names, all of them linking the
same nodes. `Session.step` carries out one command.
-/
namespace LinkedQueues.Linked

inductive Command
  | create (slot : String) (kind : Container.Kind) (byDefault : Bool) (spinCount : Option Nat)
  | push (slot : String) (node : Nat) (access : Access)
  | pushRange (slot : String) (first last : Nat) (access : Access)
  | pop (slot : String) (access : Access)
  | drain (slot : String) (limit : Option Nat) (access : Access)
  | isEmpty (slot : String)
  | spinCount (slot : String)
  | isLockFree (kind : Container.Kind)
  | top (slot : String)
  | describe (slot : String) (onLines : Bool)
  | take (slot into : String)
  | append (slot other : String)
  | dispose (slot : String)
  | split (slot producer consumer : String)
  | clone (slot into : String)
  | reclaim (slot into : String)
  | toMpmc (slot into : String)
  | clear (node : Nat)
  | clearStamp (node : Nat)
  | isLinked (node : Nat)
  | stamp (node : Nat)
  | describeHook (node : Nat) (onLines : Bool)
  | describeStampHook (node : Nat) (onLines : Bool)
  deriving DecidableEq

structure Session where
  /-- The nodes are numbered from zero. -/
  nodes : Nat
  heap : Heap
  registry : Registry Container

namespace Session

def start (nodes : Nat) : Session := ⟨nodes, .empty, .empty⟩

abbrev Result := Answer Nat × Session

def reject (s : Session) : Result := (Reply.rejected.quiet, s)

def reply (s : Session) (r : Reply Nat) : Result := (r.quiet, s)

/-- The interfaces are those of handles and of queues whose consumers take turns. -/
def usable (access : Access) (c : Container) : Bool := access = .direct || c.kind.isLocked

def producing? (s : Session) (slot : String) (access : Access) : Option Container :=
  s.registry.producing? slot (usable access)

def consuming? (s : Session) (slot : String) (access : Access) : Option Container :=
  s.registry.consuming? slot (usable access)

def owned? (s : Session) (slot : String) : Option Container := s.registry.owned? slot

def update (s : Session) (slot : String) (c : Container) (h : Heap) : Session :=
  { s with heap := h, registry := s.registry.setQueue slot c }

/-- Stores a container under a name; what the name held is given up. -/
def place (s : Session) (slot : String) (c : Container) : Session :=
  { s with registry := (s.registry.place slot (.owned c)).2 }

def create (s : Session) (slot : String) (kind : Container.Kind) (byDefault : Bool)
    (spinCount : Option Nat) : Result :=
  if spinCount.isSome ∧ (byDefault ∨ ¬ kind.isLocked) then s.reject
  else
    let (c, h) := Container.create kind (spinCount.getD defaultSpinCount) s.heap
    ({ s with heap := h }.place slot c).reply .done

def push (s : Session) (slot : String) (node : Nat) (access : Access) : Result :=
  if node < s.nodes then
    match s.producing? slot access with
    | none => s.reject
    | some c =>
      let (f, c, h) := c.push s.heap node
      (s.update slot c h).reply (.ofFault? f)
  else s.reject

/-- Pushes `count` nodes from `first` on, until one is refused. -/
def pushRange (slot : String) (access : Access) : Nat → Nat → Session → Result
  | 0, _, s => s.reply .done
  | count + 1, first, s =>
    let (a, s) := s.push slot first access
    if a.reply = .done then pushRange slot access count (first + 1) s else (a, s)

def pop (s : Session) (slot : String) (access : Access) : Result :=
  match s.consuming? slot access with
  | none => s.reject
  | some c =>
    let (p, c, h) := c.pop s.heap
    let reply := match p with
      | .refused f => .fault f
      | p => .item p.item?
    (⟨reply, p.events⟩, s.update slot c h)

/-- Pops at most `limit` nodes, until none is left. -/
def drain (slot : String) (access : Access) : Nat → Session → Result
  | 0, s => s.reply (.items [])
  | limit + 1, s =>
    let (a, s) := s.pop slot access
    match a.reply with
    | .item (some n) =>
      let (b, s) := drain slot access limit s
      let reply := match b.reply with
        | .items ns => .items (n :: ns)
        | r => r
      (⟨reply, a.events ++ b.events⟩, s)
    | .item none => (⟨.items [], a.events⟩, s)
    | _ => (a, s)

def isEmpty (s : Session) (slot : String) : Result :=
  match s.consuming? slot .direct with
  | none => s.reject
  | some c => s.reply (.flag (c.isEmpty s.heap))

/-- The content moves to `into`, and an empty container of the same kind stays behind. -/
def take (s : Session) (slot into : String) : Result :=
  match s.owned? slot with
  | none => s.reject
  | some c =>
    let (fresh, h) := Container.create c.kind defaultSpinCount s.heap
    ((s.update slot fresh h).place into c).reply .done

def append (s : Session) (slot other : String) : Result :=
  if slot = other then s.reject
  else
    match s.owned? slot, s.owned? other with
    | some (.chain q), some (.chain p) =>
      let (q, p, m) := q.append p s.heap.links
      let h := { s.heap with links := m }
      ((s.update slot (.chain q) h).update other (.chain p) h).reply .done
    | _, _ => s.reject

def dispose (s : Session) (slot : String) : Result :=
  match s.registry.holding? slot with
  | none => s.reject
  | some _ => { s with registry := (s.registry.dispose slot).2 }.reply .done

def split (s : Session) (slot producer consumer : String) : Result :=
  match s.owned? slot with
  | some (.mpsc q) =>
    { s with registry := (s.registry.split slot (.mpsc q) producer consumer).2 }.reply .done
  | some (.stamped q) =>
    { s with registry := (s.registry.split slot (.stamped q) producer consumer).2 }.reply .done
  | _ => s.reject

/-- Only producers of a queue with many producers can be multiplied. -/
def clone (s : Session) (slot into : String) : Result :=
  match s.registry.holding? slot with
  | some (.producer id) =>
    match s.registry.resolve? (.producer id) with
    | some (.mpsc _) => { s with registry := (s.registry.clone id into).2 }.reply .done
    | _ => s.reject
  | _ => s.reject

/-- A consumer becomes the queue again when no other handle is left; a queue whose consumers take
turns gives up the lock. -/
def reclaim (s : Session) (slot into : String) : Result :=
  match s.registry.holding? slot with
  | some (.consumer id) =>
    match s.registry.unshare slot id into with
    | some (_, r) => { s with registry := r }.reply (.flag true)
    | none => s.reply (.flag false)
  | some (.owned (.mpmc q _)) =>
    ({ s with registry := s.registry.vacate slot }.place into (.mpsc q)).reply (.flag true)
  | _ => s.reject

def toMpmc (s : Session) (slot into : String) : Result :=
  match s.owned? slot with
  | some (.mpsc q) =>
    let s := { s with registry := s.registry.vacate slot }
    (s.place into (.mpmc q defaultSpinCount)).reply .done
  | _ => s.reject

def onNode (s : Session) (node : Nat) (f : Heap → Reply Nat × Heap) : Result :=
  if node < s.nodes then
    let (r, h) := f s.heap
    { s with heap := h }.reply r
  else s.reject

def ofOption (s : Session) : Option (Reply Nat) → Result
  | some r => s.reply r
  | none => s.reject

def step (s : Session) : Command → Result
  | .create slot kind byDefault spinCount => s.create slot kind byDefault spinCount
  | .push slot node access => s.push slot node access
  | .pushRange slot first last access =>
    if s.registry.isHeld slot ∧ first ≤ last ∧ last ≤ s.nodes then
      pushRange slot access (last - first) first s
    else s.reject
  | .pop slot access => s.pop slot access
  | .drain slot limit access =>
    if s.registry.isHeld slot then drain slot access (limit.getD s.nodes) s else s.reject
  | .isEmpty slot => s.isEmpty slot
  | .spinCount slot =>
    s.ofOption ((s.owned? slot).bind fun c => c.spinCount?.map fun n => .number n)
  | .isLockFree kind => s.ofOption (kind.isLockFree?.map .flag)
  | .top slot => s.ofOption ((s.owned? slot).bind fun c => c.top?.map .item)
  | .describe slot onLines =>
    s.ofOption ((s.owned? slot).map fun c => .text (c.describe.write onLines))
  | .take slot into => s.take slot into
  | .append slot other => s.append slot other
  | .dispose slot => s.dispose slot
  | .split slot producer consumer => s.split slot producer consumer
  | .clone slot into => s.clone slot into
  | .reclaim slot into => s.reclaim slot into
  | .toMpmc slot into => s.toMpmc slot into
  | .clear node => s.onNode node fun h => (.done, { h with links := h.links.clear (.node node) })
  | .clearStamp node => s.onNode node fun h => (.done, { h with stamps := h.stamps.clear node })
  | .isLinked node => s.onNode node fun h => (.flag (h.links.isLinked (.node node)), h)
  | .stamp node => s.onNode node fun h => (.number (h.stamps.hook node).stamp.toNat, h)
  | .describeHook node onLines =>
    s.onNode node fun h => (.text ((h.describeHook node).write onLines), h)
  | .describeStampHook node onLines =>
    s.onNode node fun h => (.text ((h.describeStampHook node).write onLines), h)

/-- One bit for every node: whether its hook is linked. -/
def linked (s : Session) : List Bool :=
  (List.range s.nodes).map fun n => s.heap.links.isLinked (.node n)

def stamps (s : Session) : List UInt32 :=
  (List.range s.nodes).map fun n => (s.heap.stamps.hook n).stamp

end Session

end LinkedQueues.Linked

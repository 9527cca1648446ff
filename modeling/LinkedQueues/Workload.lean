import LinkedQueues.Container
import LinkedQueues.Spinlock
import LinkedQueues.ValueQueue

/-!
Work for many threads at once: producers that push their items in order, consumers that pop until
everything is out, and a tally of what the consumers saw.
-/
namespace LinkedQueues

structure Workload where
  producers : Nat
  consumers : Nat
  /-- Every producer has this many items. -/
  items : Nat
  spinCount : Nat
  deriving DecidableEq

namespace Workload

def maxThreads : Nat := 8

def maxItems : Nat := 5000

def maxSpin : Nat := 1000

inductive Kind
  | linked (kind : Container.Kind)
  | pool
  | twoLock
  /-- Producers that count under one lock, and nothing to pop. -/
  | counter
  deriving DecidableEq

namespace Kind

def manyProducers : Kind → Bool
  | linked .mpsc | linked .mpmc | twoLock | counter => true
  | _ => false

def manyConsumers : Kind → Bool
  | linked .spmc | linked .mpmc | twoLock => true
  | _ => false

/-- Containers for a single thread have no workload. -/
def isShared : Kind → Bool
  | linked .chain | linked .stack => false
  | _ => true

end Kind

/-- The numbers are in range, and there are no more threads than the kind allows. -/
def fits (w : Workload) (k : Kind) : Bool :=
  k.isShared && 1 ≤ w.producers && w.producers ≤ (if k.manyProducers then maxThreads else 1) &&
    1 ≤ w.consumers && w.consumers ≤ (if k.manyConsumers then maxThreads else 1) &&
    w.items ≤ maxItems && w.spinCount ≤ maxSpin

def total (w : Workload) : Nat := w.producers * w.items

/-- Items are numbered producer by producer. -/
def number (w : Workload) (producer index : Nat) : Nat := producer * w.items + index

/-- The producer and the index of an item. -/
def origin (w : Workload) (item : Nat) : Nat × Nat := (item / w.items, item % w.items)

/-- Something that the producers fill and the consumers empty. -/
structure Channel (σ : Type) where
  push : σ → Nat → σ
  pop : σ → Option Nat × σ

def containerChannel : Channel (Container × Heap) where
  push s n := (s.1.push s.2 n).2
  pop s := let r := s.1.pop s.2; (r.1.item?, r.2)

def queueChannel : Channel (ValueQueue Nat) where
  push q n := (q.push n true).2
  pop q := q.pop

/-- A channel under way, with the items that came out and who popped them, latest first. -/
structure Run (σ : Type) where
  state : σ
  log : List (Nat × Nat) := []

variable {σ : Type}

def popBy (ch : Channel σ) (r : Run σ) (consumer : Nat) : Run σ :=
  match ch.pop r.state with
  | (some item, s) => ⟨s, (consumer, item) :: r.log⟩
  | (none, s) => { r with state := s }

/-- Every producer pushes its item of this round, then every consumer pops once. -/
def round (w : Workload) (ch : Channel σ) (r : Run σ) (index : Nat) : Run σ :=
  let pushed := (List.range w.producers).foldl (fun s p => ch.push s (w.number p index)) r.state
  (List.range w.consumers).foldl (popBy ch) { r with state := pushed }

/-- All rounds, and then as many pops as there are items, the consumers taking turns. -/
def runChannel (w : Workload) (ch : Channel σ) (s : σ) : List (Nat × Nat) :=
  let r := (List.range w.items).foldl (w.round ch) ⟨s, []⟩
  let r := (List.range w.total).foldl (fun r k => popBy ch r (k % w.consumers)) r
  r.log.reverse

/-- Who popped which item, in the order of the pops. -/
def pops (w : Workload) : Kind → List (Nat × Nat)
  | .linked k => w.runChannel containerChannel (Container.create k w.spinCount .empty)
  | .pool => w.runChannel queueChannel (.pool .empty)
  | .twoLock => w.runChannel queueChannel (.twoLock (.empty w.spinCount))
  | .counter => []

structure Tally where
  popped : Nat
  lost : Nat
  duplicated : Nat
  ordered : Bool
  first : Option (Nat × Nat)
  last : Option (Nat × Nat)
  deriving DecidableEq

def isAscending : List Nat → Bool
  | a :: b :: rest => a < b && isAscending (b :: rest)
  | _ => true

/-- How often each item came out. -/
def counts (w : Workload) (log : List (Nat × Nat)) : Array Nat :=
  log.foldl (fun counts (_, item) => counts.modify item (· + 1)) (Array.replicate w.total 0)

/-- Each consumer saw the items of each producer in ascending order. -/
def isOrdered (w : Workload) (log : List (Nat × Nat)) : Bool :=
  (List.range w.consumers).all fun c =>
    let seen := (log.filter fun (who, _) => who = c).map Prod.snd
    (List.range w.producers).all fun p => isAscending (seen.filter fun item => item / w.items = p)

/-- With one thread on either side the ends are those of the log, else the least and the greatest
item. -/
def ends (w : Workload) (log : List (Nat × Nat)) : Option Nat × Option Nat :=
  let items := log.map Prod.snd
  if w.producers = 1 ∧ w.consumers = 1 then (items.head?, items.getLast?)
  else (items.min?, items.max?)

def tally (w : Workload) (log : List (Nat × Nat)) : Tally :=
  let counts := w.counts log
  let (first, last) := w.ends log
  { popped := log.length
    lost := counts.count 0
    duplicated := (counts.filter (1 < ·)).size
    ordered := w.isOrdered log
    first := first.map w.origin
    last := last.map w.origin }

/-- Every producer adds one as often as it has items. -/
def count (w : Workload) : Mutex :=
  (List.range w.total).foldl
    (fun m _ =>
      let m := { m with lock := (Spinlock.lockSpinning w.spinCount [m.lock.locked]).2 }.add 1
      { m with lock := .free })
    (.start 0)

end Workload

end LinkedQueues

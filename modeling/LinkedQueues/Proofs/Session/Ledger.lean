import LinkedQueues.Proofs.Separate
import LinkedQueues.Session.Linked

/-!
A session without a heap. The ledger has a list of nodes for every container and answers from these
lists alone. The callers' contract is stated in its terms: who pushes a node asks in which lists it
is, not where its links lead.
-/
namespace LinkedQueues.Linked

def answerAll {σ : Type} (step : σ → Command → Answer Nat × σ) (s : σ) :
    List Command → List (Answer Nat) × σ
  | [] => ([], s)
  | c :: cs =>
    let (a, s) := step s c
    let (as, s) := answerAll step s cs
    (a :: as, s)

/-- One roster for every container. -/
structure Ledger where
  nodes : Nat
  registry : Registry Roster

namespace Ledger

def start (nodes : Nat) : Ledger := ⟨nodes, .empty⟩

abbrev Result := Answer Nat × Ledger

def reject (l : Ledger) : Result := (Reply.rejected.quiet, l)

def reply (l : Ledger) (r : Reply Nat) : Result := (r.quiet, l)

def usable (access : Access) (r : Roster) : Bool := access = .direct || r.kind.isLocked

def producing? (l : Ledger) (slot : String) (access : Access) : Option Roster :=
  l.registry.producing? slot (usable access)

def consuming? (l : Ledger) (slot : String) (access : Access) : Option Roster :=
  l.registry.consuming? slot (usable access)

def owned? (l : Ledger) (slot : String) : Option Roster := l.registry.owned? slot

def update (l : Ledger) (slot : String) (r : Roster) : Ledger :=
  { l with registry := l.registry.setQueue slot r }

def place (l : Ledger) (slot : String) (r : Roster) : Ledger :=
  { l with registry := (l.registry.place slot (.owned r)).2 }

def create (l : Ledger) (slot : String) (kind : Container.Kind) (byDefault : Bool)
    (spinCount : Option Nat) : Result :=
  if spinCount.isSome ∧ (byDefault ∨ ¬ kind.isLocked) then l.reject
  else (l.place slot { kind := kind }).reply .done

def push (l : Ledger) (slot : String) (node : Nat) (access : Access) : Result :=
  if node < l.nodes then
    match l.producing? slot access with
    | none => l.reject
    | some r => (l.update slot (r.push node)).reply .done
  else l.reject

def pop (l : Ledger) (slot : String) (access : Access) : Result :=
  match l.consuming? slot access with
  | none => l.reject
  | some r => (l.update slot r.pop).reply (.item r.waiting.head?)

def isEmpty (l : Ledger) (slot : String) : Result :=
  match l.consuming? slot .direct with
  | none => l.reject
  | some r => l.reply (.flag r.waiting.isEmpty)

def top (l : Ledger) (slot : String) : Result :=
  match (l.owned? slot).bind Roster.top? with
  | none => l.reject
  | some o => l.reply (.item o)

def take (l : Ledger) (slot into : String) : Result :=
  match l.owned? slot with
  | none => l.reject
  | some r => ((l.update slot { kind := r.kind }).place into r).reply .done

def append (l : Ledger) (slot other : String) : Result :=
  if slot = other then l.reject
  else
    match l.owned? slot, l.owned? other with
    | some r, some t =>
      if r.kind = .chain ∧ t.kind = .chain then
        ((l.update slot (r.append t)).update other { kind := .chain }).reply .done
      else l.reject
    | _, _ => l.reject

def dispose (l : Ledger) (slot : String) : Result :=
  match l.registry.holding? slot with
  | none => l.reject
  | some _ => { l with registry := (l.registry.dispose slot).2 }.reply .done

def split (l : Ledger) (slot producer consumer : String) : Result :=
  match l.owned? slot with
  | some r =>
    if r.kind = .mpsc ∨ r.kind = .stamped then
      { l with registry := (l.registry.split slot r producer consumer).2 }.reply .done
    else l.reject
  | none => l.reject

def clone (l : Ledger) (slot into : String) : Result :=
  match l.registry.holding? slot with
  | some (.producer id) =>
    match l.registry.resolve? (.producer id) with
    | some r =>
      if r.kind = .mpsc then { l with registry := (l.registry.clone id into).2 }.reply .done
      else l.reject
    | none => l.reject
  | _ => l.reject

def reclaim (l : Ledger) (slot into : String) : Result :=
  match l.registry.holding? slot with
  | some (.consumer id) =>
    match l.registry.unshare slot id into with
    | some (_, t) => { l with registry := t }.reply (.flag true)
    | none => l.reply (.flag false)
  | some (.owned r) =>
    if r.kind = .mpmc then
      ({ l with registry := l.registry.vacate slot }.place into { r with kind := .mpsc }).reply
        (.flag true)
    else l.reject
  | _ => l.reject

def toMpmc (l : Ledger) (slot into : String) : Result :=
  match l.owned? slot with
  | some r =>
    if r.kind = .mpsc then
      ({ l with registry := l.registry.vacate slot }.place into { r with kind := .mpmc }).reply .done
    else l.reject
  | none => l.reject

/-- A hook changes nothing here. -/
def onNode (l : Ledger) (node : Nat) (r : Reply Nat) : Result :=
  if node < l.nodes then l.reply r else l.reject

/-- Commands that look at a hook, a spin count or a text form have no meaning here. -/
def step (l : Ledger) : Command → Result
  | .create slot kind byDefault spinCount => l.create slot kind byDefault spinCount
  | .push slot node access => l.push slot node access
  | .pop slot access => l.pop slot access
  | .isEmpty slot => l.isEmpty slot
  | .top slot => l.top slot
  | .take slot into => l.take slot into
  | .append slot other => l.append slot other
  | .dispose slot => l.dispose slot
  | .split slot producer consumer => l.split slot producer consumer
  | .clone slot into => l.clone slot into
  | .reclaim slot into => l.reclaim slot into
  | .toMpmc slot into => l.toMpmc slot into
  | .clear node => l.onNode node .done
  | .clearStamp node => l.onNode node .done
  | _ => l.reject

/-- An answer without a fault, that reports nothing on the side. -/
def Uneventful (a : Answer Nat) : Prop := a.events = [] ∧ ∀ f, a.reply ≠ .fault f

theorem uneventful_quiet {r : Reply Nat} (h : ∀ f, r ≠ .fault f) : Uneventful r.quiet := ⟨rfl, h⟩

theorem step_uneventful (l : Ledger) (c : Command) : Uneventful (l.step c).1 := by
  have hrejected : Uneventful l.reject.1 := uneventful_quiet fun _ => by simp
  cases c <;> simp only [step, create, push, pop, isEmpty, top, take, append, dispose, split, clone,
    reclaim, toMpmc, onNode, reply]
  all_goals repeat' split
  all_goals first | exact hrejected | exact uneventful_quiet fun _ => by simp

/-- The node is in no container that keeps nodes at this kind of site. -/
def Outside (l : Ledger) (x : Site) : Prop := ∀ r ∈ l.registry.queues, x ∉ r.sites

instance (l : Ledger) (x : Site) : Decidable (l.Outside x) :=
  inferInstanceAs (Decidable (∀ _ ∈ _, _))

/-- A node may enter a list when it is in none, a chain only with a clear link, and a stamped queue
only while a stamp is left. -/
structure Admits (l : Ledger) (h : Heap) (r : Roster) (n : Nat) : Prop where
  outside : l.Outside (r.kind.site n)
  clear : r.kind = .chain → h.links.isLinked (.node n) = false
  stamps : r.kind = .stamped → r.pushed.length + 1 < UInt32.size

instance (l : Ledger) (h : Heap) (r : Roster) (n : Nat) : Decidable (l.Admits h r n) :=
  decidable_of_iff (l.Outside (r.kind.site n) ∧
    (r.kind = .chain → h.links.isLinked (.node n) = false) ∧
    (r.kind = .stamped → r.pushed.length + 1 < UInt32.size))
    ⟨fun ⟨a, b, c⟩ => ⟨a, b, c⟩, fun ⟨a, b, c⟩ => ⟨a, b, c⟩⟩

/-- What callers promise about a command. -/
def Permits (l : Ledger) (h : Heap) : Command → Prop
  | .push slot node access => ∀ r ∈ l.producing? slot access, l.Admits h r node
  | .clear node => l.Outside (.cell (.node node))
  | .clearStamp node => l.Outside (.hook node)
  | .create .. | .pop .. | .isEmpty _ | .top _ | .take .. | .append .. | .dispose _ | .split ..
  | .clone .. | .reclaim .. | .toMpmc .. => True
  | _ => False

instance decidablePermits (l : Ledger) (h : Heap) : (c : Command) → Decidable (l.Permits h c)
  | .push slot node access =>
    inferInstanceAs (Decidable (∀ r ∈ l.producing? slot access, l.Admits h r node))
  | .clear node => inferInstanceAs (Decidable (l.Outside (.cell (.node node))))
  | .clearStamp node => inferInstanceAs (Decidable (l.Outside (.hook node)))
  | .create .. | .pop .. | .isEmpty _ | .top _ | .take .. | .append .. | .dispose _ | .split ..
  | .clone .. | .reclaim .. | .toMpmc .. => isTrue trivial
  | .pushRange .. | .drain .. | .spinCount _ | .isLockFree _ | .describe .. | .isLinked _
  | .stamp _ | .describeHook .. | .describeStampHook .. => isFalse id

def run (l : Ledger) (cs : List Command) : List (Answer Nat) × Ledger := answerAll step l cs

theorem run_uneventful (l : Ledger) (cs : List Command) : ∀ a ∈ (l.run cs).1, Uneventful a := by
  induction cs generalizing l with
  | nil => simp [run, answerAll]
  | cons c cs ih =>
    intro a ha
    rcases List.mem_cons.mp ha with rfl | ha
    · exact l.step_uneventful c
    · exact ih (l.step c).2 a ha

end Ledger

namespace Session

def onHeap (nodes : Nat) (heap : Heap) : Session := ⟨nodes, heap, .empty⟩

def run (s : Session) (cs : List Command) : List (Answer Nat) × Session := answerAll step s cs

/-- The callers keep their promises all along, while the ledger keeps the lists. -/
def Obeys (s : Session) (l : Ledger) : List Command → Prop
  | [] => True
  | c :: cs => l.Permits s.heap c ∧ (s.step c).2.Obeys (l.step c).2 cs

instance decidableObeys (s : Session) (l : Ledger) : (cs : List Command) → Decidable (s.Obeys l cs)
  | [] => isTrue trivial
  | c :: cs =>
    have := decidableObeys (s.step c).2 (l.step c).2 cs
    inferInstanceAs (Decidable (_ ∧ _))

end Session

end LinkedQueues.Linked

import LinkedQueues.Proofs.Registry.All
import LinkedQueues.Proofs.Session.Agreement
import LinkedQueues.Proofs.Session.Bookkeeping
import LinkedQueues.Proofs.Session.Fates

/-!
Split queues and their handles, in sessions of both kinds. A shared queue knows how many handles it
has, ends once, and comes out of its last handle with what it would hold without having been split.
-/
namespace LinkedQueues

structure Book.Tallies {A Q : Type} (number : A → Nat) (r : Registry Q) (b : Book A) : Prop where
  /-- The number that is kept for a shared queue is that of the names with a handle of it. -/
  count : ∀ id, (r.shared.read id).map Shared.handles =
    if r.holders id = [] then none else some (r.holders id).length
  nodup : ∀ id, (r.holders id).Nodup
  /-- Names and handles lead to the same queues in the registry and in the book. -/
  shape : r.map (fun _ => ()) = b.registry.map fun _ => ()
  /-- Every queue has one account. -/
  numbers : (b.accounts.map number).Perm (List.range b.opened)
  /-- When everything goes, every queue goes once. -/
  finish : b.registry.disposeAll.1.Perm b.registry.queues ∧ b.registry.disposeAll.2.queues = []

theorem Book.Covers.tallies {A Q : Type} {number : A → Nat} {p : Registry (Q × A)} {r : Registry Q}
    {b : Book A} (hc : b.Covers number p r) : b.Tallies number r := by
  refine ⟨hc.counted_queues.tally, r.nodup_holders, ?_, hc.numbers,
    Registry.disposeAll_spec hc.counted_accounts⟩
  rw [hc.queues, hc.accounts, Registry.map_map, Registry.map_map]
  rfl

namespace Linked

namespace Ledger

def SharesQueues (l : Ledger) : Prop :=
  l.registry.All fun o r => o.isShared → r.kind = .mpsc ∨ r.kind = .stamped

variable {l : Ledger} {slot into : String}

theorem SharesQueues.onNode {node : Nat} (hl : l.SharesQueues) (r : Reply Nat) :
    (l.onNode node r).2.SharesQueues := by
  rw [Ledger.onNode]
  split <;> exact hl

theorem SharesQueues.place (hl : l.SharesQueues) (r : Roster) (slot : String) :
    ({ l with registry := (l.registry.place slot (.owned r)).2 } : Ledger).SharesQueues :=
  Registry.All.place hl fun hs => absurd hs Bool.false_ne_true

theorem SharesQueues.vacate (hl : l.SharesQueues) (slot : String) :
    ({ l with registry := l.registry.vacate slot } : Ledger).SharesQueues :=
  Registry.All.vacate hl slot

theorem SharesQueues.update {r t : Roster} (hl : l.SharesQueues)
    (hr : l.registry.queue? slot = some r) (hk : t.kind = r.kind) :
    (l.update slot t).SharesQueues :=
  Registry.All.setQueue hl hr fun _ h hs => hk ▸ h hs

theorem SharesQueues.append {other : String} (hl : l.SharesQueues) :
    (l.append slot other).2.SharesQueues := by
  rw [Ledger.append]
  split
  · exact hl
  · next hne =>
    split
    · next r t hr ht =>
      split
      · next hk =>
        have hset := hl.update (t := r.append t) (Registry.queue?_of_owned? hr) rfl
        have ht' : (l.update slot (r.append t)).owned? other = some t :=
          (Registry.owned?_setQueue_of_ne hr hne _).trans ht
        exact hset.update (Registry.queue?_of_owned? ht') hk.2.symm
      · exact hl
    · exact hl

theorem SharesQueues.reclaim (hl : l.SharesQueues) : (l.reclaim slot into).2.SharesQueues := by
  rw [Ledger.reclaim]
  split
  · next id hh =>
    cases hu : l.registry.unshare slot id into with
    | none => exact hl
    | some change =>
      exact Registry.All.unshare hl hu fun _ _ hs => absurd hs Bool.false_ne_true
  · split
    · exact (hl.vacate slot).place _ into
    · exact hl
  · exact hl

theorem SharesQueues.step (hl : l.SharesQueues) (c : Command) : (l.step c).2.SharesQueues := by
  cases c with
  | create slot kind byDefault spinCount =>
    rw [Ledger.step, create]
    split
    · exact hl
    · exact hl.place _ slot
  | push slot node access =>
    rw [Ledger.step, push]
    split
    · cases hq : l.producing? slot access with
      | none => exact hl
      | some r => exact hl.update (Registry.queue?_of_producing? hq) rfl
    · exact hl
  | pop slot access =>
    rw [Ledger.step, pop]
    cases hq : l.consuming? slot access with
    | none => exact hl
    | some r => exact hl.update (Registry.queue?_of_consuming? hq) rfl
  | isEmpty slot =>
    rw [Ledger.step, isEmpty]
    cases l.consuming? slot .direct <;> exact hl
  | top slot =>
    rw [Ledger.step, top]
    cases (l.owned? slot).bind Roster.top? <;> exact hl
  | take slot into =>
    rw [Ledger.step, take]
    cases hq : l.owned? slot with
    | none => exact hl
    | some r =>
      have hset := hl.update (t := { kind := r.kind }) (Registry.queue?_of_owned? hq) rfl
      exact hset.place r into
  | append slot other => exact hl.append
  | dispose slot =>
    rw [Ledger.step, dispose]
    cases l.registry.holding? slot with
    | none => exact hl
    | some h => exact Registry.All.dispose hl slot
  | split slot producer consumer =>
    rw [Ledger.step, split]
    split
    · split
      · next hk => exact Registry.All.split hl (fun _ => hk) slot producer consumer
      · exact hl
    · exact hl
  | clone slot into =>
    rw [Ledger.step, clone]
    split
    · split
      · split
        · exact Registry.All.clone hl _ into
        · exact hl
      · exact hl
    · exact hl
  | reclaim slot into => exact hl.reclaim
  | toMpmc slot into =>
    rw [Ledger.step, toMpmc]
    split
    · split
      · exact (hl.vacate slot).place _ into
      · exact hl
    · exact hl
  | clear node => exact hl.onNode _
  | clearStamp node => exact hl.onNode _
  | _ => exact hl

theorem SharesQueues.run (hl : l.SharesQueues) (cs : List Command) : (l.run cs).2.SharesQueues := by
  induction cs generalizing l with
  | nil => exact hl
  | cons c cs ih => exact ih (hl.step c)

end Ledger

namespace Session

variable {s : Session} {e : Entry} {slot into : String} {id : Nat}

theorem pop_eq (hq : s.registry.owned? slot = some e.container) (he : e.Holds s.heap) :
    ∃ (d : Entry) (h : Heap),
    s.pop slot .direct =
      ((Reply.item e.roster.waiting.head?).quiet, s.update slot d.container h) ∧
        d.roster = e.roster.pop ∧ d.Holds h := by
  obtain ⟨d, h, hpop, hr, hout⟩ := he.pop
  have hcons : s.consuming? slot .direct = some e.container :=
    Registry.consuming?_of_owned? hq rfl
  refine ⟨d, h, ?_, hr, hout.holds⟩
  simp only [pop, hcons, hpop]
  cases e.roster.waiting.head? <;> rfl

theorem drain_eq (hq : s.registry.owned? slot = some e.container) (he : e.Holds s.heap) (n : Nat) :
    (drain slot .direct n s).1 = (Reply.items (e.roster.waiting.take n)).quiet := by
  induction n generalizing s e with
  | zero => rfl
  | succ n ih =>
    obtain ⟨d, h, hpop, hr, hd⟩ := pop_eq hq he
    have hnext : (drain slot .direct n (s.update slot d.container h)).1 =
        (Reply.items (d.roster.waiting.take n)).quiet :=
      ih (Registry.owned?_setQueue hq d.container) hd
    rw [hr, Roster.pop] at hnext
    rw [drain, hpop]
    cases hw : e.roster.waiting with
    | nil => rfl
    | cons k ks =>
      rw [hw] at hnext
      simp only [List.head?_cons, Reply.quiet, hnext]
      rfl

theorem reclaim_eq (hh : s.registry.holding? slot = some (.consumer id)) (into : String) :
    s.step (.reclaim slot into) =
      ({ s with registry := ((s.registry.unshare slot id into).getD ([], s.registry)).2 }).reply
        (.flag (s.registry.unshare slot id into).isSome) := by
  rw [step, reclaim, hh]
  simp only
  cases s.registry.unshare slot id into <;> rfl

/-- Asked for the queue, the last handle gives it with the nodes that were pushed and did not leave,
whether the queue was split or not. -/
theorem drain_reclaimed {p : Registry Entry} {l : Ledger} {c : Container}
    {change : List Container × Registry Container} (ha : Agree p s l) (hl : l.SharesQueues)
    (hc : s.registry.at? (.shared id) = some c) (ho : change.2.owned? into = some c) : ∃ r,
      l.registry.at? (.shared id) = some r ∧ r.pushed = r.popped ++ r.waiting ∧
        ∀ n, (step { s with registry := change.2 } (.drain into (some n) .direct)).1 =
          (Reply.items (r.waiting.take n)).quiet := by
  rw [ha.containers, Registry.at?_map, Option.map_eq_some_iff] at hc
  obtain ⟨e, he, rfl⟩ := hc
  have hr : l.registry.at? (.shared id) = some e.roster := by
    rw [ha.rosters, Registry.at?_map, he, Option.map_some]
  have hk : e.roster.kind ≠ .stack := by
    rcases hl (.shared id) e.roster hr rfl with hk | hk <;> simp [hk]
  refine ⟨e.roster, hr, (ha.separate.holds he).inOrder hk, fun n => ?_⟩
  have hheld : change.2.isHeld into = true := by
    rw [Registry.isHeld, Registry.owned?_eq_some.mp ho]
    rfl
  rw [step, if_pos hheld]
  exact drain_eq (s := { s with registry := change.2 }) ho (ha.separate.holds he) n

end Session

end Linked

namespace Values.Session

variable {α : Type} {s : Session α} {q : ValueQueue α} {vs : List α} {slot into : String} {id : Nat}

theorem pop_eq (hq : s.registry.owned? slot = some q) (hh : q.Holds vs) :
    s.pop slot .direct = (s.update slot q.pop.2).reply (.items vs.head?.toList) := by
  have hcons : s.consuming? slot .direct = some q := Registry.consuming?_of_owned? hq rfl
  simp only [pop, hcons, hh.pop.1]

theorem drain_eq (hq : s.registry.owned? slot = some q) (hh : q.Holds vs) (n : Nat) :
    (drain slot .direct n s).answer = (Reply.items (vs.take n)).quiet := by
  induction n generalizing s q vs with
  | zero => rfl
  | succ n ih =>
    have hnext : (drain slot .direct n (s.update slot q.pop.2)).answer =
        (Reply.items (vs.tail.take n)).quiet := ih (Registry.owned?_setQueue hq q.pop.2) hh.pop.2
    rw [drain, pop_eq hq hh]
    cases vs with
    | nil => rfl
    | cons v vs =>
      simp only [reply, Reply.quiet, List.head?_cons, Option.toList_some, hnext]
      rfl

theorem reclaim_eq (hh : s.registry.holding? slot = some (.consumer id)) (into : String) :
    s.step (.reclaim slot into) = s.settle (.flag (s.registry.unshare slot id into).isSome)
      ((s.registry.unshare slot id into).getD ([], s.registry)) := by
  rw [step, reclaim, hh]
  simp only
  cases s.registry.unshare slot id into <;> rfl

theorem drain_reclaimed {p : Registry (ValueQueue α × Account α)} {b : Book (Account α)}
    {change : List (ValueQueue α) × Registry (ValueQueue α)} (ha : Agree p s b)
    (hc : s.registry.at? (.shared id) = some q) (ho : change.2.owned? into = some q) : ∃ a,
      b.registry.at? (.shared id) = some a ∧ a.stored = a.returned ++ a.left ∧
        ∀ n, (step { s with registry := change.2 } (.drain into (some n) .direct)).answer =
          (Reply.items (a.left.take n)).quiet := by
  obtain ⟨hr, hb⟩ := ha.covers.at?_eq (.shared id)
  rw [hr, Option.map_eq_some_iff] at hc
  obtain ⟨e, he, rfl⟩ := hc
  obtain ⟨vs, hh, hs⟩ := ha.balanced e (Registry.mem_queues_iff.mpr ⟨_, he⟩)
  have hleft : e.2.left = vs := Balanced.left_eq hs
  refine ⟨e.2, by rw [hb, he, Option.map_some], by rw [hleft, hs], fun n => ?_⟩
  have hheld : change.2.isHeld into = true := by
    rw [Registry.isHeld, Registry.owned?_eq_some.mp ho]
    rfl
  rw [step, if_pos hheld, hleft]
  exact drain_eq (s := { s with registry := change.2 }) ho hh n

end Values.Session

namespace Linked

structure CountsHandles (s : Session) (b : Book Nat) : Prop where
  tallies : b.Tallies id s.registry
  passage : ∀ c : Command, b.Passage id (c.post b (s.step c).1.reply)
  reclaims : ∀ slot into k, s.registry.holding? slot = some (.consumer k) → ∃ flag change,
    s.step (.reclaim slot into) =
      ({ s with registry := change.2 } : Session).reply (.flag flag) ∧
    s.registry.Reclaims slot into k flag change

/-- A queue that comes out of its last handle has the nodes that were pushed and not popped. -/
def Restores (s : Session) (l : Ledger) : Prop :=
  ∀ slot into k, s.registry.holding? slot = some (.consumer k) → s.registry.holders k = [slot] →
    ∃ r, l.registry.at? (.shared k) = some r ∧ r.pushed = r.popped ++ r.waiting ∧
      ∀ n, ((s.step (.reclaim slot into)).2.step (.drain into (some n) .direct)).1 =
        (Reply.items (r.waiting.take n)).quiet

theorem countsHandles {p : Registry (Container × Nat)} {s : Session} {b : Book Nat}
    (hc : b.Covers id p s.registry) : CountsHandles s b := by
  refine ⟨hc.tallies, fun c => (Booked.step hc c).passage, fun slot into k hh => ?_⟩
  exact ⟨_, _, Session.reclaim_eq hh into, hc.counted_queues.reclaims hh into⟩

theorem restores {p : Registry Entry} {s : Session} {l : Ledger} (ha : Agree p s l)
    (hl : l.SharesQueues) {b : Book Nat} (hc : CountsHandles s b) : Restores s l := by
  intro slot into k hh hone
  obtain ⟨flag, change, hstep, hreclaims⟩ := hc.reclaims slot into k hh
  obtain ⟨-, c, hat, ho, -⟩ := hreclaims.1 hone
  rw [hstep]
  exact Session.drain_reclaimed ha hl hat ho

end Linked

namespace Values

variable {α : Type}

structure CountsHandles (h : History α) : Prop where
  tallies : h.book.Tallies Account.id h.session.registry
  passage : ∀ c, c.isSingle → h.book.Passage Account.id (h.step c).book
  reclaims : ∀ slot into k, h.session.registry.holding? slot = some (.consumer k) →
    ∃ flag change, h.session.step (.reclaim slot into) = h.session.settle (.flag flag) change ∧
      h.session.registry.Reclaims slot into k flag change
  restores : ∀ slot into k, h.session.registry.holding? slot = some (.consumer k) →
    h.session.registry.holders k = [slot] → ∃ a, h.book.registry.at? (.shared k) = some a ∧
      a.stored = a.returned ++ a.left ∧ ∀ n, ((h.session.step (.reclaim slot into)).session.step
        (.drain into (some n) .direct)).answer = (Reply.items (a.left.take n)).quiet

theorem countsHandles {h : History α} (hk : h.Kept) : CountsHandles h := by
  obtain ⟨p, ha⟩ := hk.agree
  have hr := ha.covers.counted_queues
  refine ⟨ha.covers.tallies, fun c hc => (hk.posts hc).passage, fun slot into k hh => ?_,
    fun slot into k hh hone => ?_⟩
  · exact ⟨_, _, Session.reclaim_eq hh into, hr.reclaims hh into⟩
  · obtain ⟨-, q, hat, ho, -⟩ := (hr.reclaims hh into).1 hone
    rw [Session.reclaim_eq hh into]
    exact Session.drain_reclaimed ha hat ho

end Values

/-- In sessions over caller-owned nodes, whatever the hooks are at the start, and in sessions over
queues of values: the number kept for a shared queue is that of its handles. A consumer turns into
the queue exactly when it is the last handle, and stays as it is otherwise. A shared queue ends
once, in the hands of its last handle or when that is gone, and comes out with what it would hold
without having been split. -/
theorem handles_are_counted {α : Type} (nodes : Nat) (heap : Heap) (cs : List Linked.Command)
    (layout : Layout) (ds : List (Values.Command α)) (hds : ∀ d ∈ ds, d.isSingle) :
    (let s := (Linked.Session.onHeap nodes heap).run cs
     Linked.CountsHandles s.2 (Linked.postAll {} cs s.1) ∧
      ((Linked.Session.onHeap nodes heap).Obeys (.start nodes) cs →
        Linked.Restores s.2 ((Linked.Ledger.start nodes).run cs).2)) ∧
    Values.CountsHandles ((Values.History.start layout).run ds) := by
  have hstart : Book.Covers id .empty (Linked.Session.onHeap nodes heap).registry {} := .empty
  obtain ⟨p, hc⟩ := Linked.Booked.run hstart cs
  have hcounts := Linked.countsHandles hc
  refine ⟨⟨hcounts, fun ho => ?_⟩,
    Values.countsHandles ((Values.History.Kept.start layout).run hds)⟩
  obtain ⟨-, q, ha⟩ := (Linked.Agree.start nodes heap).run ho
  have hshares : (Linked.Ledger.start nodes).SharesQueues := Registry.All.empty
  exact Linked.restores ha (hshares.run cs) hcounts

/-- Producers are multiplied and go one after the other, and the consumer is asked too early. -/
def reclaiming : List Linked.Command :=
  [.create "many" .mpsc false none, .push "many" 0 .direct, .split "many" "in" "out",
   .clone "in" "too", .push "too" 1 .interface, .reclaim "out" "whole", .dispose "in",
   .push "too" 2 .direct, .pop "out" .interface, .create "too" .stamped false none]

def reclaimingValues : List (Values.Command Nat) :=
  [.create "pool" (.poolWithCapacity 1 none), .push "pool" 7 false .direct,
   .split "pool" "in" "out", .push "in" 8 true .interface, .reclaim "out" "whole",
   .pop "out" .interface, .push "in" 9 false .direct, .dispose "in"]

theorem handles_are_counted_reclaiming :
    (Linked.Session.onHeap 3 Linked.Session.strayHeap).Obeys (.start 3) reclaiming ∧
      (∀ d ∈ reclaimingValues, d.isSingle) ∧
      (let s := ((Linked.Session.onHeap 3 Linked.Session.strayHeap).run reclaiming).2
       ((s.step (.reclaim "out" "whole")).2.step (.drain "whole" (some 5) .direct)).1 =
        ⟨.items [1, 2], []⟩) ∧
      (let h := (Values.History.start ⟨16, 8⟩).run reclaimingValues
       ((h.session.step (.reclaim "out" "whole")).session.step
        (.drain "whole" (some 1) .direct)).answer = ⟨.items [8], []⟩) := by
  have ho : (Linked.Session.onHeap 3 Linked.Session.strayHeap).Obeys (.start 3) reclaiming := by
    decide +kernel
  have hds : ∀ d ∈ reclaimingValues, d.isSingle := by decide
  obtain ⟨⟨-, hnodes⟩, hvalues⟩ :=
    handles_are_counted 3 Linked.Session.strayHeap reclaiming ⟨16, 8⟩ reclaimingValues hds
  obtain ⟨r, hr, -, hdrain⟩ :=
    hnodes ho "out" "whole" 0 (by decide +kernel) (by decide +kernel)
  obtain ⟨a, ha, -, hdrain'⟩ :=
    hvalues.restores "out" "whole" 0 rfl (by decide +kernel)
  have hr' : ((Linked.Ledger.start 3).run reclaiming).2.registry.at? (.shared 0) =
      some ⟨.mpsc, [1, 2], [0, 1, 2], [0]⟩ := by decide +kernel
  have ha' : ((Values.History.start ⟨16, 8⟩).run reclaimingValues).book.registry.at? (.shared 0) =
      some ⟨0, [7, 8, 9], [7]⟩ := by decide +kernel
  obtain rfl := Option.some.inj (hr'.symm.trans hr)
  obtain rfl := Option.some.inj (ha'.symm.trans ha)
  exact ⟨ho, hds, hdrain 5, hdrain' 1⟩

end LinkedQueues

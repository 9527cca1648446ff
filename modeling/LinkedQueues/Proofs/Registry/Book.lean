import LinkedQueues.Proofs.Registry.Moves
import Mathlib.Data.List.Nodup

/-!
Books of queues. A book has an account for every queue of a registry, under the same names and
handles, and keeps the accounts of the queues that are gone. The invariant pairs every queue with
its account in a third registry.
-/
namespace LinkedQueues

open scoped List

variable {A Q : Type}

structure Book (A : Type) where
  registry : Registry A := .empty
  /-- So many accounts were opened. -/
  opened : Nat := 0
  /-- The accounts of the queues that are gone, in the order in which they went. -/
  closed : List A := []

namespace Book

def accounts (b : Book A) : List A := b.closed ++ b.registry.queues

def settle (b : Book A) (c : List A × Registry A) : Book A :=
  { b with registry := c.2, closed := b.closed ++ c.1 }

def opening (b : Book A) (n : Nat) : Book A := { b with opened := b.opened + n }

def update (b : Book A) (slot : String) (a : A) : Book A :=
  { b with registry := b.registry.setQueue slot a }

def enter (b : Book A) (slot : String) (f : A → A) : Book A :=
  match b.registry.queue? slot with
  | none => b
  | some a => b.update slot (f a)

def place (blank : Nat → A) (b : Book A) (slot : String) : Book A :=
  (b.opening 1).settle (b.registry.place slot (.owned (blank b.opened)))

def take (blank : Nat → A) (b : Book A) (slot into : String) : Book A :=
  match b.registry.owned? slot with
  | none => b
  | some a =>
    (b.opening 1).settle ((b.registry.setQueue slot (blank b.opened)).place into (.owned a))

def move (b : Book A) (slot into : String) : Book A :=
  match b.registry.owned? slot with
  | none => b
  | some a => b.settle ((b.registry.vacate slot).place into (.owned a))

def dispose (b : Book A) (slot : String) : Book A := b.settle (b.registry.dispose slot)

def split (b : Book A) (slot producer consumer : String) : Book A :=
  match b.registry.owned? slot with
  | none => b
  | some a => b.settle (b.registry.split slot a producer consumer)

def clone (b : Book A) (slot into : String) : Book A :=
  match b.registry.holding? slot with
  | some (.producer id) => b.settle (b.registry.clone id into)
  | _ => b

def reclaim (b : Book A) (slot into : String) : Book A :=
  match b.registry.holding? slot with
  | some (.consumer id) =>
    match b.registry.unshare slot id into with
    | some c => b.settle c
    | none => b
  | some (.owned _) => b.move slot into
  | _ => b

/-- The queues of `r` and the accounts of `b` are those of `p`. -/
structure Covers (number : A → Nat) (p : Registry (Q × A)) (r : Registry Q) (b : Book A) :
    Prop where
  queues : r = p.map Prod.fst
  accounts : b.registry = p.map Prod.snd
  counted : p.Counted []
  numbers : (b.accounts.map number).Perm (List.range b.opened)

/-- The book follows a change `d` of the registry. -/
structure Follows (number : A → Nat) (p : Registry (Q × A)) (b : Book A) (new : List (Q × A))
    (c : List (Q × A) × Registry (Q × A)) (d : List Q × Registry Q) (b' : Book A) : Prop where
  passes : p.Passes new c
  queues : d = Registry.mapChange Prod.fst c
  book : b' = (b.opening new.length).settle (Registry.mapChange Prod.snd c)
  numbers : new.map (fun e => number e.2) = (List.range new.length).map (b.opened + ·)

/-- What becomes of accounts from one moment to the next. The number of a shared queue is never used
again. When the queue ends nobody has a handle, and the queue is given up, unless some name owns it
from then on. -/
structure Passage (number : A → Nat) (b b' : Book A) : Prop where
  fresh : b.registry.fresh ≤ b'.registry.fresh
  dead : ∀ id, id < b.registry.fresh → b.registry.at? (.shared id) = none →
    b'.registry.at? (.shared id) = none
  fate : ∃ gone, b'.closed = b.closed ++ gone ∧ ∀ id a, b.registry.at? (.shared id) = some a →
    (∃ a', b'.registry.at? (.shared id) = some a' ∧ number a' = number a) ∨
      (b'.registry.at? (.shared id) = none ∧ b'.registry.holders id = [] ∧
        ((∃ into, b'.registry.owned? into = some a) ∨ a ∈ gone))

theorem Passage.refl (number : A → Nat) (b : Book A) : Passage number b b :=
  ⟨Nat.le_refl _, fun _ _ h => h, [], (List.append_nil _).symm, fun _ a ha =>
    Or.inl ⟨a, ha, rfl⟩⟩

variable {number : A → Nat} {p : Registry (Q × A)} {r : Registry Q} {b b' : Book A} {e d : Q × A}
  {slot into : String} {new : List (Q × A)} {c : List (Q × A) × Registry (Q × A)}
  {change : List Q × Registry Q} {id : Nat}

theorem accounts_eq (h : b.registry = p.map Prod.snd) :
    b.accounts = b.closed ++ p.queues.map Prod.snd := by
  rw [accounts, h, Registry.queues_map]

namespace Covers

theorem empty : Covers (Q := Q) number .empty .empty ({} : Book A) :=
  ⟨(Registry.map_empty _).symm, (Registry.map_empty _).symm, .empty, .refl _⟩

theorem queue?_eq (hc : Covers number p r b) (hq : p.queue? slot = some e) :
    r.queue? slot = some e.1 ∧ b.registry.queue? slot = some e.2 := by
  rw [hc.queues, hc.accounts, Registry.queue?_map, Registry.queue?_map, hq]
  exact ⟨rfl, rfl⟩

theorem owned?_eq (hc : Covers number p r b) (slot : String) :
    r.owned? slot = (p.owned? slot).map Prod.fst ∧
      b.registry.owned? slot = (p.owned? slot).map Prod.snd := by
  rw [hc.queues, hc.accounts]
  exact ⟨Registry.owned?_map .., Registry.owned?_map ..⟩

theorem at?_eq (hc : Covers number p r b) (o : Owner) :
    r.at? o = (p.at? o).map Prod.fst ∧ b.registry.at? o = (p.at? o).map Prod.snd := by
  rw [hc.queues, hc.accounts]
  exact ⟨Registry.at?_map .., Registry.at?_map ..⟩

theorem holders_eq (hc : Covers number p r b) (id : Nat) :
    r.holders id = b.registry.holders id := by
  rw [hc.queues, hc.accounts, Registry.holders_map, Registry.holders_map]

theorem isHeld_eq (hc : Covers number p r b) (slot : String) :
    r.isHeld slot = b.registry.isHeld slot := by
  simp [Registry.isHeld, hc.queues, hc.accounts]

theorem counted_accounts (hc : Covers number p r b) : b.registry.Counted [] :=
  hc.accounts ▸ hc.counted.map Prod.snd

theorem counted_queues (hc : Covers number p r b) : r.Counted [] :=
  hc.queues ▸ hc.counted.map Prod.fst

theorem exists_owned {q : Q} (hc : Covers number p r b) (hq : r.owned? slot = some q) :
    ∃ a, p.owned? slot = some (q, a) ∧ b.registry.owned? slot = some a := by
  obtain ⟨hr, hb⟩ := hc.owned?_eq slot
  rw [hq, eq_comm, Option.map_eq_some_iff] at hr
  obtain ⟨e, he, rfl⟩ := hr
  exact ⟨e.2, he, by rw [hb, he, Option.map_some]⟩

theorem producer_eq (hc : Covers number p r b) (hh : r.holding? slot = some (.producer id)) :
    b.registry.holding? slot = some (.producer id) := by
  rw [hc.queues, Registry.producer_map_iff] at hh
  rwa [hc.accounts, Registry.producer_map_iff]

theorem consumer_eq (hc : Covers number p r b) (hh : r.holding? slot = some (.consumer id)) :
    p.holding? slot = some (.consumer id) ∧ b.registry.holding? slot = some (.consumer id) := by
  rw [hc.queues, Registry.consumer_map_iff] at hh
  rw [hc.accounts, Registry.consumer_map_iff]
  exact ⟨hh, hh⟩

theorem place (hc : Covers number p r b) (blank : Nat → A) (hb : ∀ n, number (blank n) = n)
    (slot : String) (q : Q) :
    ∃ c, Follows number p b [(q, blank b.opened)] c (r.place slot (.owned q))
      (b.place blank slot) := by
  refine ⟨_, .place hc.counted slot (q, blank b.opened), ?_, ?_, by simp [hb]⟩
  · rw [hc.queues]
    exact Registry.place_map Prod.fst p slot (.owned (q, blank b.opened))
  · rw [Book.place, hc.accounts]
    exact congrArg _ (Registry.place_map Prod.snd p slot (.owned (q, blank b.opened)))

theorem take {q : Q} (hc : Covers number p r b) (blank : Nat → A)
    (hb : ∀ n, number (blank n) = n) (hq : r.owned? slot = some q) (fresh : Q) (into : String) :
    ∃ c, Follows number p b [(fresh, blank b.opened)] c
      ((r.setQueue slot fresh).place into (.owned q)) (b.take blank slot into) := by
  obtain ⟨a, he, ha⟩ := hc.exists_owned hq
  refine ⟨_, .take hc.counted he (fresh, blank b.opened) into, ?_, ?_, by simp [hb]⟩
  · rw [← Registry.place_map, ← Registry.setQueue_map, ← hc.queues]
    rfl
  · rw [Book.take, ha, ← Registry.place_map, ← Registry.setQueue_map, ← hc.accounts]
    rfl

theorem move {q : Q} (hc : Covers number p r b) (hq : r.owned? slot = some q) (into : String) :
    ∃ c, Follows number p b [] c ((r.vacate slot).place into (.owned q)) (b.move slot into) := by
  obtain ⟨a, he, ha⟩ := hc.exists_owned hq
  refine ⟨_, .move hc.counted he into, ?_, ?_, rfl⟩
  · rw [← Registry.place_map, ← Registry.vacate_map, ← hc.queues]
    rfl
  · rw [Book.move, ha, ← Registry.place_map, ← Registry.vacate_map, ← hc.accounts]
    rfl

theorem dispose (hc : Covers number p r b) (slot : String) :
    ∃ c, Follows number p b [] c (r.dispose slot) (b.dispose slot) := by
  refine ⟨_, .dispose hc.counted slot, ?_, ?_, rfl⟩
  · rw [← Registry.dispose_map, ← hc.queues]
  · rw [Book.dispose, ← Registry.dispose_map, ← hc.accounts]
    rfl

theorem split {q : Q} (hc : Covers number p r b) (hq : r.owned? slot = some q)
    (producer consumer : String) :
    ∃ c, Follows number p b [] c (r.split slot q producer consumer)
      (b.split slot producer consumer) := by
  obtain ⟨a, he, ha⟩ := hc.exists_owned hq
  refine ⟨_, .split hc.counted he producer consumer, ?_, ?_, rfl⟩
  · rw [← Registry.split_map, ← hc.queues]
  · rw [Book.split, ha, ← Registry.split_map, ← hc.accounts]
    rfl

theorem clone (hc : Covers number p r b) (hh : r.holding? slot = some (.producer id))
    (into : String) :
    ∃ c, Follows number p b [] c (r.clone id into) (b.clone slot into) := by
  refine ⟨_, .clone hc.counted id into, ?_, ?_, rfl⟩
  · rw [← Registry.clone_map, ← hc.queues]
  · rw [Book.clone, hc.producer_eq hh, ← Registry.clone_map, ← hc.accounts]
    rfl

theorem reclaim (hc : Covers number p r b) (hh : r.holding? slot = some (.consumer id))
    (hu : r.unshare slot id into = some change) :
    ∃ c, Follows number p b [] c change (b.reclaim slot into) := by
  obtain ⟨hp, hb⟩ := hc.consumer_eq hh
  rw [hc.queues, Registry.unshare_map, Option.map_eq_some_iff] at hu
  obtain ⟨c, hc', rfl⟩ := hu
  have hb' : b.registry.unshare slot id into = some (Registry.mapChange Prod.snd c) := by
    rw [hc.accounts, Registry.unshare_map, hc', Option.map_some]
  refine ⟨c, .unshare hc.counted hp hc', rfl, ?_, rfl⟩
  simp only [Book.reclaim, hb, hb']
  rfl

theorem accounts_setQueue (hc : Covers number p r b) (hq : p.queue? slot = some e) (d : Q × A) :
    (e.2 :: (b.update slot d.2).accounts).Perm (d.2 :: b.accounts) := by
  have hp := (Registry.setQueue_perm hq d).map Prod.snd
  have hset : (b.update slot d.2).registry = (p.setQueue slot d).map Prod.snd := by
    rw [update, hc.accounts, Registry.setQueue_map]
  rw [accounts_eq hset, accounts_eq hc.accounts]
  calc e.2 :: (b.closed ++ (p.setQueue slot d).queues.map Prod.snd)
    _ ~ b.closed ++ (e :: (p.setQueue slot d).queues).map Prod.snd := List.perm_middle.symm
    _ ~ b.closed ++ (d :: p.queues).map Prod.snd := hp.append_left _
    _ ~ d.2 :: (b.closed ++ p.queues.map Prod.snd) := List.perm_middle

theorem setQueue (hc : Covers number p r b) (hq : p.queue? slot = some e)
    (hn : number d.2 = number e.2) :
    Covers number (p.setQueue slot d) (r.setQueue slot d.1) (b.update slot d.2) := by
  refine ⟨?_, ?_, hc.counted.setQueue slot d, ?_⟩
  · rw [hc.queues, Registry.setQueue_map]
  · rw [update, hc.accounts, Registry.setQueue_map]
  · have hids := (hc.accounts_setQueue hq d).map number
    rw [List.map_cons, List.map_cons, hn, List.perm_cons] at hids
    exact hids.trans hc.numbers

theorem eq_of_number {f : Q × A} (hc : Covers number p r b) (he : e ∈ p.queues) (hf : f ∈ p.queues)
    (hn : number f.2 = number e.2) : f = e := by
  have hnodup := hc.numbers.nodup_iff.mpr List.nodup_range
  rw [accounts_eq hc.accounts, List.map_append, List.nodup_append, List.map_map] at hnodup
  exact List.inj_on_of_nodup_map hnodup.2.1 hf he hn

/-- After a queue and its account changed, the other ones are found again by their numbers. -/
theorem eq_or_of_setQueue {f g : Q × A} (hc : Covers number p r b) (hq : p.queue? slot = some e)
    (hn : number d.2 = number e.2) (hf : f ∈ p.queues) (hg : g ∈ (p.setQueue slot d).queues)
    (hnumber : number g.2 = number f.2) : g = f ∨ (f = e ∧ g = d) := by
  have hm := (Registry.setQueue_perm hq d).mem_iff.mp (List.mem_cons_of_mem e hg)
  rcases List.mem_cons.mp hm with rfl | hm
  · exact Or.inr
      ⟨hc.eq_of_number (Registry.queue?_mem_queues hq) hf (hnumber.symm.trans hn), rfl⟩
  · exact Or.inl (hc.eq_of_number hf hm hnumber)

theorem passage_setQueue (hc : Covers number p r b) (hq : p.queue? slot = some e)
    (hn : number d.2 = number e.2) : Passage number b (b.update slot d.2) := by
  obtain ⟨o, howner, ho⟩ := Registry.exists_owner (hc.queue?_eq hq).2
  have hat := Registry.at?_setQueue howner ho d.2
  refine ⟨?_, fun id _ hd => ?_, [], (List.append_nil _).symm, fun id a ha => Or.inl ?_⟩
  · exact Nat.le_of_eq (Registry.fresh_setQueue ..).symm
  · rw [update, hat]
    by_cases he : Owner.shared id = o
    · rw [← he, hd] at ho
      cases ho
    · rw [Function.update_of_ne he, hd]
  · rw [update, hat]
    by_cases he : Owner.shared id = o
    · rw [← he, ha, Option.some.injEq] at ho
      exact ⟨d.2, by rw [he, Function.update_self], by rw [hn, ho]⟩
    · exact ⟨a, by rw [Function.update_of_ne he, ha], rfl⟩

/-- An account may stay as it is when the content of its queue changes. -/
theorem refill {q : Q} (hc : Covers number p r b) (hq : r.queue? slot = some q) (q' : Q) :
    ∃ p', Covers number p' (r.setQueue slot q') b := by
  rw [hc.queues, Registry.queue?_map, Option.map_eq_some_iff] at hq
  obtain ⟨e, he, rfl⟩ := hq
  have hset := hc.setQueue he (d := (q', e.2)) rfl
  rw [update, Registry.setQueue_self (hc.queue?_eq he).2] at hset
  exact ⟨_, hset⟩

end Covers

namespace Follows

theorem closed_eq (hf : Follows number p b new c change b') :
    b'.closed = b.closed ++ c.1.map Prod.snd := by
  rw [hf.book]
  rfl

theorem accounts_perm (hf : Follows number p b new c change b') (hc : Covers number p r b) :
    b'.accounts.Perm (new.map Prod.snd ++ b.accounts) := by
  have hp := hf.passes.perm.map Prod.snd
  have hb : b'.registry = c.2.map Prod.snd := by
    rw [hf.book]
    rfl
  rw [List.map_append, List.map_append] at hp
  rw [accounts_eq hb, accounts_eq hc.accounts, hf.closed_eq]
  calc b.closed ++ c.1.map Prod.snd ++ c.2.queues.map Prod.snd
    _ = b.closed ++ (c.1.map Prod.snd ++ c.2.queues.map Prod.snd) := List.append_assoc ..
    _ ~ b.closed ++ (new.map Prod.snd ++ p.queues.map Prod.snd) := hp.append_left _
    _ ~ new.map Prod.snd ++ (b.closed ++ p.queues.map Prod.snd) :=
      List.perm_append_comm_assoc _ _ _

theorem covers (hf : Follows number p b new c change b') (hc : Covers number p r b) :
    Covers number c.2 change.2 b' := by
  refine ⟨by rw [hf.queues]; rfl, by rw [hf.book]; rfl, hf.passes.counted, ?_⟩
  have hids := (hf.accounts_perm hc).map number
  rw [List.map_append, List.map_map] at hids
  calc b'.accounts.map number
    _ ~ new.map (fun e => number e.2) ++ b.accounts.map number := hids
    _ ~ new.map (fun e => number e.2) ++ List.range b.opened := hc.numbers.append_left _
    _ ~ List.range b.opened ++ new.map (fun e => number e.2) := List.perm_append_comm
    _ = List.range (b.opened + new.length) := by rw [hf.numbers, List.range_add]
    _ = List.range b'.opened := by rw [hf.book]; rfl

theorem opened_le (hf : Follows number p b new c change b') (he : e ∈ new) :
    b.opened ≤ number e.2 := by
  have hin := List.mem_map_of_mem (f := fun e : Q × A => number e.2) he
  rw [hf.numbers] at hin
  obtain ⟨k, -, hk⟩ := List.mem_map.mp hin
  omega

/-- An account that was there before still belongs to the same queue. -/
theorem eq_of_number {f : Q × A} (hf : Follows number p b new c change b')
    (hc : Covers number p r b) (he : e ∈ p.queues) (hm : f ∈ c.2.queues)
    (hn : number f.2 = number e.2) : f = e := by
  rcases List.mem_append.mp (hf.passes.perm.mem_iff.mp (List.mem_append_right c.1 hm)) with hm | hm
  · -- The number of a new account is none of those in use.
    have hnew := hf.opened_le hm
    have hold : number e.2 ∈ List.range b.opened := by
      rw [← hc.numbers.mem_iff, accounts_eq hc.accounts]
      exact List.mem_map_of_mem (List.mem_append_right _ (List.mem_map_of_mem he))
    rw [List.mem_range, ← hn] at hold
    omega
  · exact hc.eq_of_number he hm hn

theorem passage (hf : Follows number p b new c change b') (hc : Covers number p r b) :
    Passage number b b' := by
  have hb := hf.covers hc
  have hp : b.registry.fresh = p.fresh := by rw [hc.accounts]; rfl
  have hp' : b'.registry.fresh = c.2.fresh := by rw [hb.accounts]; rfl
  refine ⟨hp ▸ hp' ▸ hf.passes.fresh, fun id hid hd => ?_, c.1.map Prod.snd, hf.closed_eq,
    fun id a ha => ?_⟩
  · rw [(hc.at?_eq _).2, Option.map_eq_none_iff] at hd
    rw [(hb.at?_eq _).2, hf.passes.dead id (hp ▸ hid) hd, Option.map_none]
  · rw [(hc.at?_eq _).2, Option.map_eq_some_iff] at ha
    obtain ⟨e, he, rfl⟩ := ha
    rcases hf.passes.fate id e he with hk | ⟨hd, hout⟩
    · exact Or.inl ⟨e.2, by rw [(hb.at?_eq _).2, hk, Option.map_some], rfl⟩
    · -- Handles are counted, so none of them is left.
      have hend : b'.registry.at? (.shared id) = none := by
        rw [(hb.at?_eq _).2, hd, Option.map_none]
      refine Or.inr ⟨hend, hb.counted_accounts.holders_eq_nil_iff.mpr hend,
        hout.imp ?_ List.mem_map_of_mem⟩
      rintro ⟨into, ho⟩
      exact ⟨into, by rw [(hb.owned?_eq into).2, ho, Option.map_some]⟩

end Follows

end Book

end LinkedQueues

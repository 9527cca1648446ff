import LinkedQueues.Session.Values
import LinkedQueues.Proofs.Registry.Book
import LinkedQueues.Proofs.ValueQueue

/-!
Accounts of values. The account of a queue says which values went in and which came out, in order,
and is kept from the commands and the replies alone.
-/
namespace LinkedQueues.Values

open scoped List

variable {α : Type}

/-- What went into one queue and what came out of it, in order. -/
structure Account (α : Type) where
  id : Nat
  stored : List α := []
  returned : List α := []
  deriving DecidableEq

namespace Account

def blank (id : Nat) : Account α := { id := id }

def store (a : Account α) (v : α) : Account α := { a with stored := a.stored ++ [v] }

def give (a : Account α) (vs : List α) : Account α := { a with returned := a.returned ++ vs }

def left (a : Account α) : List α := a.stored.drop a.returned.length

end Account

namespace Command

/-- What a reply to a command says about the accounts. -/
def post (b : Book (Account α)) : Command α → Reply α → Book (Account α)
  | .create slot _, .done => b.place Account.blank slot
  | .push slot v _ _, .done => b.enter slot (·.store v)
  | .pop slot _, .items vs => b.enter slot (·.give vs)
  | .take slot into, .done => b.take Account.blank slot into
  | .dispose slot, .done => b.dispose slot
  | .split slot producer consumer, .done => b.split slot producer consumer
  | .reclaim slot into, .flag true => b.reclaim slot into
  | _, _ => b

def offered : Command α → Reply α → List α
  | .push .., .rejected => []
  | .push _ v _ _, _ => [v]
  | _, _ => []

def stored : Command α → Reply α → List α
  | .push _ v _ _, .done => [v]
  | _, _ => []

def refused : Command α → Reply α → List α
  | .push _ v _ _, .outOfMemory _ => [v]
  | _, _ => []

def returned : Command α → Reply α → List α
  | .pop _ _, .items vs => vs
  | _, _ => []

/-- The command is not a shorthand for several pushes or pops. -/
def isSingle : Command α → Bool
  | .pushAll .. | .drain .. => false
  | _ => true

theorem offered_eq (s : Session α) (c : Command α) :
    c.offered (s.step c).answer.reply =
      c.refused (s.step c).answer.reply ++ c.stored (s.step c).answer.reply := by
  cases c with
  | push slot v allocates access =>
    rw [Session.step, Session.push]
    cases s.producing? slot access with
    | none => rfl
    | some q =>
      cases hp : (q.push v allocates).1 with
      | stored => simp only [hp]; rfl
      | grown nodes => simp only [hp]; rfl
      | failed => simp only [hp]; rfl
  | _ => rfl

end Command

def Balanced (e : ValueQueue α × Account α) : Prop :=
  ∃ vs, e.1.Holds vs ∧ e.2.stored = e.2.returned ++ vs

namespace Balanced

variable {e : ValueQueue α × Account α}

theorem left_eq {vs : List α} {a : Account α} (hs : a.stored = a.returned ++ vs) :
    a.left = vs := by
  rw [Account.left, hs, List.drop_left]

theorem inOrder (h : Balanced e) : e.2.stored = e.2.returned ++ e.2.left := by
  obtain ⟨vs, -, hs⟩ := h
  rw [left_eq hs, hs]

theorem toList_eq (h : Balanced e) : e.1.toList = e.2.left := by
  obtain ⟨vs, hh, hs⟩ := h
  rw [hh.toList_eq, left_eq hs]

end Balanced

/-- The queues of the session and the accounts of the book are those of `p`, and balanced. -/
structure Agree (p : Registry (ValueQueue α × Account α)) (s : Session α) (b : Book (Account α)) :
    Prop where
  covers : b.Covers Account.id p s.registry
  balanced : ∀ e ∈ p.queues, Balanced e
  closed : ∀ a ∈ b.closed, a.stored = a.returned ++ a.left

/-- After one command that stored, returned and refused the listed values: the accounts of the
queues that went were closed, and what was left in these queues was disposed of. Each of them was
open before, or has come with the same command and holds nothing. -/
structure Posted (b : Book (Account α)) (o : Outcome α) (b' : Book (Account α))
    (stored returned refused : List α) : Prop where
  agree : ∃ p, Agree p o.session b'
  passage : Book.Passage Account.id b b'
  stored : (b'.accounts.flatMap Account.stored).Perm (b.accounts.flatMap Account.stored ++ stored)
  returned : (b'.accounts.flatMap Account.returned).Perm
    (b.accounts.flatMap Account.returned ++ returned)
  gone : ∃ gone, b'.closed = b.closed ++ gone ∧ o.disposed = refused ++ gone.flatMap Account.left ∧
    ∀ a ∈ gone, a ∈ b.registry.queues ∨ (b.opened ≤ a.id ∧ a.stored = [])

def Posts (s : Session α) (b : Book (Account α)) (c : Command α) : Prop :=
  let o := s.step c
  Posted b o (c.post b o.answer.reply) (c.stored o.answer.reply) (c.returned o.answer.reply)
    (c.refused o.answer.reply)

theorem flatMap_perm_of_replaced {as as' : List (Account α)} {a a' : Account α}
    {f : Account α → List α} {vs : List α} (hp : (a :: as').Perm (a' :: as))
    (hf : f a' = f a ++ vs) : (as'.flatMap f).Perm (as.flatMap f ++ vs) := by
  have hall := hp.flatMap_right f
  rw [List.flatMap_cons, List.flatMap_cons, hf, List.append_assoc, List.perm_append_left_iff]
    at hall
  exact hall.trans List.perm_append_comm

namespace Agree

variable {p : Registry (ValueQueue α × Account α)} {s : Session α} {b b' : Book (Account α)}
  {e : ValueQueue α × Account α} {slot into : String} {new : List (ValueQueue α × Account α)}
  {c : List (ValueQueue α × Account α) × Registry (ValueQueue α × Account α)}
  {change : List (ValueQueue α) × Registry (ValueQueue α)}

theorem start (layout : Layout) : Agree (α := α) .empty (.start layout) {} := by
  have hq : (Registry.empty : Registry (ValueQueue α × Account α)).queues = [] := rfl
  refine ⟨.empty, ?_, ?_⟩
  · simp [hq]
  · simp

theorem still (ha : Agree p s b) (a : Answer α) : Posted b ⟨a, [], s⟩ b [] [] [] where
  agree := ⟨p, ha⟩
  passage := .refl _ _
  stored := by simp
  returned := by simp
  gone := ⟨[], by simp⟩

theorem query (ha : Agree p s b) (r : Option (Reply α)) : Posted b (s.ofOption r) b [] [] [] := by
  cases r with
  | none => exact ha.still _
  | some r => exact ha.still _

/-- A command that changes who holds which queue. New queues are empty. -/
theorem settle (ha : Agree p s b) (hf : Book.Follows Account.id p b new c change b')
    (hnew : ∀ e ∈ new, e.1.Holds [] ∧ e.2.stored = [] ∧ e.2.returned = []) (r : Reply α) :
    Posted b (s.settle r change) b' [] [] [] := by
  have hbalanced (e : ValueQueue α × Account α) (he : e ∈ c.1 ++ c.2.queues) : Balanced e := by
    rcases List.mem_append.mp (hf.passes.perm.mem_iff.mp he) with he | he
    · obtain ⟨hh, hs, hr⟩ := hnew e he
      exact ⟨[], hh, by rw [hs, hr]; rfl⟩
    · exact ha.balanced e he
  have hkept {f : Account α → List α} (hnil : ∀ e ∈ new, f e.2 = []) :
      (b'.accounts.flatMap f).Perm (b.accounts.flatMap f ++ []) := by
    have hempty : (new.map Prod.snd).flatMap f = [] := by
      rw [List.flatMap_map]
      exact List.flatMap_eq_nil_iff.mpr hnil
    have h := (hf.accounts_perm ha.covers).flatMap_right f
    rwa [List.flatMap_append, hempty, List.nil_append, ← List.append_nil (b.accounts.flatMap f)]
      at h
  refine ⟨⟨c.2, hf.covers ha.covers, fun e he => hbalanced e (List.mem_append_right _ he),
    fun a hm => ?_⟩, hf.passage ha.covers, hkept fun e he => (hnew e he).2.1,
    hkept fun e he => (hnew e he).2.2, c.1.map Prod.snd, hf.closed_eq, ?_, fun a hm => ?_⟩
  · rw [hf.closed_eq] at hm
    rcases List.mem_append.mp hm with hm | hm
    · exact ha.closed a hm
    · obtain ⟨e, he, rfl⟩ := List.mem_map.mp hm
      exact (hbalanced e (List.mem_append_left _ he)).inOrder
  · rw [Session.settle, hf.queues, Registry.mapChange, List.nil_append, List.flatMap_map,
      List.flatMap_map]
    exact List.flatMap_congr fun e he => (hbalanced e (List.mem_append_left _ he)).toList_eq
  · obtain ⟨e, he, rfl⟩ := List.mem_map.mp hm
    rcases List.mem_append.mp (hf.passes.perm.mem_iff.mp (List.mem_append_left _ he)) with he | he
    · exact Or.inr ⟨hf.opened_le he, (hnew e he).2.1⟩
    · rw [ha.covers.accounts, Registry.queues_map]
      exact Or.inl (List.mem_map_of_mem he)

/-- A command that changes a queue and its account. -/
theorem setQueue (ha : Agree p s b) (hq : p.queue? slot = some e) {q : ValueQueue α}
    {a : Account α} (hbal : Balanced (q, a)) (hid : a.id = e.2.id) {stored returned : List α}
    (hstored : a.stored = e.2.stored ++ stored) (hreturned : a.returned = e.2.returned ++ returned)
    (answer : Answer α) (refused : List α) :
    Posted b ⟨answer, refused, s.update slot q⟩ (b.update slot a) stored returned refused := by
  have hall := ha.covers.accounts_setQueue hq (q, a)
  have hp := Registry.setQueue_perm hq (q, a)
  refine ⟨⟨p.setQueue slot (q, a), ha.covers.setQueue hq hid, fun d hd => ?_, ha.closed⟩,
    ha.covers.passage_setQueue hq (d := (q, a)) hid, flatMap_perm_of_replaced hall hstored,
    flatMap_perm_of_replaced hall hreturned, [], by simp [Book.update], by simp, by simp⟩
  rcases List.mem_cons.mp (hp.mem_iff.mp (List.mem_cons_of_mem e hd)) with rfl | hd
  · exact hbal
  · exact ha.balanced d hd

theorem enter_eq (ha : Agree p s b) (hq : p.queue? slot = some e) (f : Account α → Account α) :
    b.enter slot f = b.update slot (f e.2) := by
  rw [Book.enter, (ha.covers.queue?_eq hq).2]

theorem create {setup : Setup} (ha : Agree p s b) : Posts s b (.create slot setup) := by
  have hplace {q : ValueQueue α} (hq : q.Holds []) :
      Posted b (s.settle .done (s.registry.place slot (.owned q))) (b.place Account.blank slot)
        [] [] [] := by
    obtain ⟨c, hf⟩ := ha.covers.place Account.blank (fun _ => rfl) slot q
    exact ha.settle hf (by simp [hq, Account.blank]) .done
  cases setup with
  | pool => exact hplace .empty
  | twoLock spinCount => exact hplace (.twoLock spinCount)
  | poolWithCapacity capacity failAt =>
    rw [Posts, Session.step, Session.create]
    by_cases hf : failAt.any (· < capacity) = true
    · simp only [if_pos hf]
      exact ha.still _
    · simp only [if_neg hf]
      exact hplace (.withCapacity capacity)

theorem push {v : α} {allocates : Bool} {access : Access} (ha : Agree p s b) :
    Posts s b (.push slot v allocates access) := by
  have hproducing : s.producing? slot access =
      (p.producing? slot fun e => Session.usable access e.1).map Prod.fst := by
    rw [Session.producing?, ha.covers.queues, Registry.producing?_map]
  rw [Posts, Session.step, Session.push, hproducing]
  cases he : p.producing? slot fun e => Session.usable access e.1 with
  | none => exact ha.still _
  | some e =>
    have hq := Registry.queue?_of_producing? he
    have hslot := (ha.covers.queue?_eq hq).2
    obtain ⟨vs, hh, hs⟩ := ha.balanced e (Registry.queue?_mem_queues hq)
    simp only [Option.map_some]
    rcases hh.push v allocates with ⟨hf, hh'⟩ | ⟨hf, hh'⟩
    · have hset := ha.setQueue hq ⟨vs, hh', hs⟩ rfl (List.append_nil _).symm
        (List.append_nil _).symm s.outOfMemory [v]
      rw [Book.update, Registry.setQueue_self hslot] at hset
      rw [hf]
      exact hset
    · have hstore : (e.2.store v).stored = (e.2.store v).returned ++ (vs ++ [v]) := by
        rw [Account.store, hs, List.append_assoc]
      have hset (answer : Answer α) : Posted b ⟨answer, [], s.update slot (e.1.push v allocates).2⟩
          (b.enter slot (·.store v)) [v] [] [] := by
        rw [ha.enter_eq hq]
        exact ha.setQueue hq ⟨vs ++ [v], hh', hstore⟩ rfl rfl (List.append_nil _).symm answer []
      cases hpushed : (e.1.push v allocates).1 with
      | stored => exact hset _
      | grown nodes => exact hset _
      | failed => exact absurd hpushed hf

theorem pop {access : Access} (ha : Agree p s b) : Posts s b (.pop slot access) := by
  have hconsuming : s.consuming? slot access =
      (p.consuming? slot fun e => Session.usable access e.1).map Prod.fst := by
    rw [Session.consuming?, ha.covers.queues, Registry.consuming?_map]
  rw [Posts, Session.step, Session.pop, hconsuming]
  cases he : p.consuming? slot fun e => Session.usable access e.1 with
  | none => exact ha.still _
  | some e =>
    have hq := Registry.queue?_of_consuming? he
    obtain ⟨vs, hh, hs⟩ := ha.balanced e (Registry.queue?_mem_queues hq)
    obtain ⟨hpop, hh'⟩ := hh.pop
    have hvs : vs.head?.toList ++ vs.tail = vs := by cases vs <;> rfl
    have hgive : (e.2.give vs.head?.toList).stored =
        (e.2.give vs.head?.toList).returned ++ vs.tail := by
      rw [Account.give, hs, List.append_assoc, hvs]
    have hset (answer : Answer α) : Posted b ⟨answer, [], s.update slot e.1.pop.2⟩
        (b.enter slot (·.give vs.head?.toList)) [] vs.head?.toList [] := by
      rw [ha.enter_eq hq]
      exact ha.setQueue hq ⟨vs.tail, hh', hgive⟩ rfl (List.append_nil _).symm rfl answer []
    simp only [Option.map_some, hpop]
    exact hset _

theorem take (ha : Agree p s b) : Posts s b (.take slot into) := by
  rw [Posts, Session.step, Session.take]
  cases hq : s.owned? slot with
  | none => exact ha.still _
  | some q =>
    have hnew := ValueQueue.Holds.leftBehind defaultSpinCount q
    obtain ⟨c, hf⟩ := ha.covers.take Account.blank (fun _ => rfl) hq
      (q.leftBehind defaultSpinCount) into
    exact ha.settle hf (by simp [hnew, Account.blank]) .done

theorem dispose (ha : Agree p s b) : Posts s b (.dispose slot) := by
  rw [Posts, Session.step, Session.dispose]
  cases s.registry.holding? slot with
  | none => exact ha.still _
  | some h =>
    obtain ⟨c, hf⟩ := ha.covers.dispose slot
    exact ha.settle hf (by simp) .done

theorem split {producer consumer : String} (ha : Agree p s b) :
    Posts s b (.split slot producer consumer) := by
  rw [Posts, Session.step, Session.split]
  cases hq : s.owned? slot with
  | none => exact ha.still _
  | some q =>
    by_cases hsplit : q.canSplit = true
    · obtain ⟨c, hf⟩ := ha.covers.split hq producer consumer
      simp only [if_pos hsplit]
      exact ha.settle hf (by simp) .done
    · simp only [if_neg hsplit]
      exact ha.still _

theorem reclaim (ha : Agree p s b) : Posts s b (.reclaim slot into) := by
  rw [Posts, Session.step, Session.reclaim]
  split
  · next id hh =>
    cases hu : s.registry.unshare slot id into with
    | none => exact ha.still _
    | some change =>
      obtain ⟨c, hf⟩ := ha.covers.reclaim hh hu
      exact ha.settle hf (by simp) (.flag true)
  · exact ha.still _

/-- Every single command is posted. -/
theorem step {c : Command α} (ha : Agree p s b) (hc : c.isSingle) : Posts s b c := by
  cases c with
  | create slot setup => exact ha.create
  | push slot v allocates access => exact ha.push
  | pushAll => cases hc
  | pop slot access => exact ha.pop
  | drain => cases hc
  | isEmpty slot => exact ha.query _
  | nodes slot => exact ha.query _
  | spinCount slot => exact ha.query _
  | describe slot onLines => exact ha.query _
  | take slot into => exact ha.take
  | dispose slot => exact ha.dispose
  | split slot producer consumer => exact ha.split
  | reclaim slot into => exact ha.reclaim

theorem inOrder (ha : Agree p s b) {a : Account α} (hm : a ∈ b.accounts) :
    a.stored = a.returned ++ a.left := by
  rw [Book.accounts_eq ha.covers.accounts] at hm
  rcases List.mem_append.mp hm with hm | hm
  · exact ha.closed a hm
  · obtain ⟨e, he, rfl⟩ := List.mem_map.mp hm
    exact (ha.balanced e he).inOrder

/-- What went in came out, or was left in a queue that is gone, or is left. -/
theorem stored_perm (ha : Agree p s b) : (b.accounts.flatMap Account.stored).Perm
    (b.accounts.flatMap Account.returned ++
      (b.closed.flatMap Account.left ++ b.registry.queues.flatMap Account.left)) := by
  calc b.accounts.flatMap Account.stored
    _ = b.accounts.flatMap fun a => a.returned ++ a.left := List.flatMap_congr fun a => ha.inOrder
    _ ~ b.accounts.flatMap Account.returned ++ b.accounts.flatMap Account.left :=
      (List.flatMap_append_perm ..).symm
    _ = _ := by rw [Book.accounts, List.flatMap_append (f := Account.left)]

theorem content (ha : Agree p s b) :
    s.registry.map ValueQueue.toList = b.registry.map Account.left := by
  rw [ha.covers.queues, ha.covers.accounts, Registry.map_map, Registry.map_map]
  exact Registry.map_congr fun e he => (ha.balanced e he).toList_eq

theorem held (ha : Agree p s b) {a : Account α} (hm : a ∈ b.registry.queues) :
    ∃ slot, b.registry.queue? slot = some a := by
  rw [ha.covers.accounts, Registry.queues_map] at hm
  obtain ⟨e, he, rfl⟩ := List.mem_map.mp hm
  obtain ⟨slot, hslot⟩ := ha.covers.counted.exists_name he
  exact ⟨slot, (ha.covers.queue?_eq hslot).2⟩

/-- A name in use leads to an open account, and so no handle outlives its queue. -/
theorem reached (ha : Agree p s b) (hh : s.registry.isHeld slot = true) :
    ∃ a, b.registry.queue? slot = some a :=
  ha.covers.counted_accounts.exists_queue (ha.covers.isHeld_eq slot ▸ hh)

/-- Only a push without memory is refused its value. -/
theorem refused_eq (ha : Agree p s b) (c : Command α) (v : α)
    (hv : v ∈ c.refused (s.step c).answer.reply) :
    ∃ slot access, c = .push slot v false access := by
  cases c with
  | push slot w allocates access =>
    rw [Session.step, Session.push] at hv
    cases hp : s.producing? slot access with
    | none => simp [hp, Session.reject, Session.reply, Reply.quiet, Command.refused] at hv
    | some q =>
      have hq := Registry.queue?_of_producing? hp
      rw [ha.covers.queues, Registry.queue?_map, Option.map_eq_some_iff] at hq
      obtain ⟨e, he, rfl⟩ := hq
      obtain ⟨vs, hh, -⟩ := ha.balanced e (Registry.queue?_mem_queues he)
      cases hpushed : (e.1.push w allocates).1 with
      | stored => simp [hp, hpushed, Session.reply, Reply.quiet, Command.refused] at hv
      | grown nodes => simp [hp, hpushed, Command.refused] at hv
      | failed =>
        obtain rfl : v = w := by
          simpa [hp, hpushed, Session.outOfMemory, Command.refused] using hv
        obtain rfl := ((hh.push_failed_iff v allocates).mp hpushed).2
        exact ⟨slot, access, rfl⟩
  | _ => cases hv

theorem lost (ha : Agree p s b) {a a' : Account α} (hm : a ∈ b.closed)
    (hslot : b.registry.queue? slot = some a') : a'.id ≠ a.id := by
  have hnodup := ha.covers.numbers.nodup_iff.mpr List.nodup_range
  rw [Book.accounts, List.map_append, List.nodup_append] at hnodup
  have hopen := List.mem_map_of_mem (f := Account.id) (Registry.queue?_mem_queues hslot)
  exact (hnodup.2.2 a.id (List.mem_map_of_mem hm) a'.id hopen).symm

/-- When everything goes, every open account is closed with what is left. -/
theorem finish_eq (ha : Agree p s b) : ∃ last : List (Account α),
    last.Perm b.registry.queues ∧ s.finish = last.flatMap Account.left := by
  obtain ⟨hp, -⟩ := Registry.disposeAll_spec ha.covers.counted
  refine ⟨p.disposeAll.1.map Prod.snd, ?_, ?_⟩
  · rw [ha.covers.accounts, Registry.queues_map]
    exact hp.map _
  · have hgone : s.registry.disposeAll.1 = p.disposeAll.1.map Prod.fst := by
      rw [ha.covers.queues, Registry.disposeAll_map, Registry.mapChange]
    rw [Session.finish, hgone, List.flatMap_map, List.flatMap_map]
    exact List.flatMap_congr fun e he => (ha.balanced e (hp.mem_iff.mp he)).toList_eq

end Agree

end LinkedQueues.Values

import LinkedQueues.Proofs.StampQueue
import Mathlib.Logic.Relation

/-!
A consumer that knows less than the producer has done. The stack has nodes on top that are newer
than the published stamp. The consumer passes them, takes the batch below them, and finds them when
their stamps are published, whatever was done with the nodes of the batch meanwhile.
-/
namespace LinkedQueues

namespace Stamps

/-- Stamps tell numbers apart that are not too far from each other. -/
theorem eq_of_ofNat_eq {a b : Nat} (h : UInt32.ofNat a = UInt32.ofNat b) (hab : a ≤ b)
    (hlt : b < a + UInt32.size) : a = b := by
  have hmod := congrArg UInt32.toNat h
  rw [UInt32.toNat_ofNat', UInt32.toNat_ofNat'] at hmod
  have hsize : UInt32.size = 2 ^ 32 := rfl
  omega

theorem ofNat_succ (k : Nat) : UInt32.ofNat k + 1 = .ofNat (k + 1) := by
  rw [UInt32.ofNat_add]
  rfl

/-- The nodes carry consecutive stamps from `j + 1` on, after which stamps come back. -/
def Counted (m : Stamps) (j : Nat) (ns : List Nat) : Prop :=
  ∀ i n, ns[i]? = some n → (m.hook n).stamp = .ofNat (j + 1 + i)

namespace Counted

variable {m m' : Stamps} {ns ks : List Nat} {n j c : Nat}

theorem congr (h : m.Counted j ns) (hs : ∀ n ∈ ns, (m'.hook n).stamp = (m.hook n).stamp) :
    m'.Counted j ns := fun i n hi => (hs n (List.mem_of_getElem? hi)).trans (h i n hi)

theorem left (h : m.Counted j (ns ++ ks)) : m.Counted j ns := fun i n hi => by
  have hlt := (List.getElem?_eq_some_iff.mp hi).1
  exact h i n (by rwa [List.getElem?_append_left hlt])

theorem right (h : m.Counted j (ns ++ ks)) : m.Counted (j + ns.length) ks := fun i n hi => by
  have hat : (ns ++ ks)[ns.length + i]? = some n := by
    rwa [List.getElem?_append_right (by omega), Nat.add_sub_cancel_left]
  rw [h (ns.length + i) n hat]
  congr 1
  omega

theorem tail (h : m.Counted j (n :: ns)) : m.Counted (j + 1) ns :=
  right (show m.Counted j ([n] ++ ns) from h)

theorem head (h : m.Counted j (n :: ns)) : (m.hook n).stamp = .ofNat (j + 1) := h 0 n rfl

theorem getLast? (h : m.Counted j ns) (hn : ns.getLast? = some n) :
    (m.hook n).stamp = .ofNat (j + ns.length) := by
  obtain ⟨front, rfl⟩ := List.getLast?_eq_some_iff.mp hn
  rw [h.right.head, List.length_append]
  rfl

theorem snoc (h : m.Counted j ns) (hn : (m.hook n).stamp = .ofNat (j + ns.length + 1)) :
    m.Counted j (ns ++ [n]) := fun i k hi => by
  rcases Nat.lt_or_ge i ns.length with hlt | hge
  · rw [List.getElem?_append_left hlt] at hi
    exact h i k hi
  · rw [List.getElem?_append_right hge, List.getElem?_singleton] at hi
    split at hi
    · obtain rfl := Option.some.inj hi
      rw [hn]
      congr 1
      omega
    · cases hi

theorem ne (h : m.Counted j ns) (hn : n ∈ ns) (hc : c ≤ j ∧ j + ns.length < c + UInt32.size) :
    (m.hook n).stamp ≠ .ofNat c := by
  obtain ⟨i, hi⟩ := List.mem_iff_getElem?.mp hn
  have hlt := (List.getElem?_eq_some_iff.mp hi).1
  rw [h i n hi]
  intro he
  have hcj := eq_of_ofNat_eq he.symm (by omega) (by omega)
  omega

theorem nodup (h : m.Counted j ns) (hl : ns.length < UInt32.size) : ns.Nodup := by
  induction ns generalizing j with
  | nil => exact List.nodup_nil
  | cons n ns ih =>
    rw [List.length_cons] at hl
    refine List.nodup_cons.mpr ⟨fun hn => ?_, ih h.tail (by omega)⟩
    exact h.tail.ne hn ⟨Nat.le_refl _, by omega⟩ h.head

end Counted

end Stamps

namespace StampQueue

variable {q : StampQueue} {m m' : Stamps} {ns : List Nat} {n j : Nat}

/-- The queue holds the nodes `ns` after `j` others: first the rest of the batch, then the stacked
nodes whose stamps are published, and then those that the consumer does not know of. -/
structure Lags (q : StampQueue) (m : Stamps) (j : Nat) (ns : List Nat) : Prop where
  parts : ∃ batch ready late, ns = batch ++ (ready ++ late) ∧ q.taken = .ofNat (j + batch.length) ∧
    q.published = .ofNat (j + batch.length + ready.length) ∧ Trail m.next q.head batch none ∧
    ∃ o, Trail m.next q.tail (ready ++ late).reverse o
  counted : m.Counted j ns
  room : ns.length < UInt32.size

namespace Lags

theorem congr (h : q.Lags m j ns) (hn : ∀ n ∈ ns, m'.hook n = m.hook n) : q.Lags m' j ns := by
  obtain ⟨⟨batch, ready, late, rfl, ht, hp, hb, o, hs⟩, hi, hr⟩ := h
  have same (n : Nat) (hm : n ∈ batch ++ (ready ++ late)) : m'.next n = m.next n := by
    rw [Stamps.next, hn n hm, Stamps.next]
  refine ⟨⟨batch, ready, late, rfl, ht, hp, ?_, o, ?_⟩, hi.congr fun n hm => ?_, hr⟩
  · exact hb.congr fun n hm => same n (List.mem_append_left _ hm)
  · exact hs.congr fun n hm => same n (List.mem_append_right _ (List.mem_reverse.mp hm))
  · rw [hn n hm]

/-- The producer stamps a node from outside when it has published all others. -/
theorem stack (h : q.Lags m j ns) (hp : q.published = .ofNat (j + ns.length)) (hn : n ∉ ns)
    (hl : ns.length + 1 < UInt32.size) : (q.stack m n).1.Lags (q.stack m n).2 j (ns ++ [n]) := by
  have hsame (k : Nat) (hk : k ≠ n) : (q.stack m n).2.hook k = m.hook k := by
    simp [StampQueue.stack, Ne.symm hk]
  have hself : (q.stack m n).2.hook n = ⟨q.tail, q.published + 1⟩ := by
    simp [StampQueue.stack]
  have h' : q.Lags (q.stack m n).2 j ns := h.congr fun k hk => hsame k fun he => hn (he ▸ hk)
  refine ⟨?_, h'.counted.snoc ?_, by simpa using hl⟩
  · obtain ⟨batch, ready, late, rfl, ht, hq, hb, o, hs⟩ := h'.parts
    have hlate : late = [] := by
      have hroom := h.room
      simp only [List.length_append] at hp hroom
      have hlen := Stamps.eq_of_ofNat_eq (hq.symm.trans hp) (by omega) (by omega)
      exact List.length_eq_zero_iff.mp (by omega)
    subst hlate
    refine ⟨batch, ready, [n], by simp, ht, hq, hb, o, ?_⟩
    rw [List.reverse_append]
    refine ⟨rfl, ?_⟩
    rw [Stamps.next, hself]
    simpa using hs
  · rw [hself, hp]
    exact Stamps.ofNat_succ _

theorem publish (h : q.Lags m j ns) (hp : q.published ≠ .ofNat (j + ns.length)) :
    q.publish.Lags m j ns := by
  obtain ⟨⟨batch, ready, late, rfl, ht, hq, hb, o, hs⟩, hi, hr⟩ := h
  cases late with
  | nil =>
    refine absurd ?_ hp
    rw [hq]
    congr 1
    simp
    omega
  | cons x late =>
    have hs' : Trail m.next q.publish.tail (ready ++ [x] ++ late).reverse o := by
      rwa [List.append_assoc]
    refine ⟨⟨batch, ready ++ [x], late, by simp, ht, ?_, hb, o, hs'⟩, hi, hr⟩
    rw [StampQueue.publish, hq, List.length_append]
    exact Stamps.ofNat_succ _

/-- A pop without a batch takes the nodes with published stamps. The newer ones stay stacked. -/
theorem popBatch {ready late : List Nat} {o : Option Nat} (ht : q.taken = .ofNat j)
    (hp : q.published = .ofNat (j + (n :: ready).length))
    (hs : Trail m.next q.tail ((n :: ready) ++ late).reverse o)
    (hi : m.Counted j ((n :: ready) ++ late)) (hr : ((n :: ready) ++ late).length < UInt32.size) :
    ∃ m', q.popBatch m = .ok (some n, { q with head := ready.head?, taken := q.published }, m') ∧
      Trail m'.next ready.head? ready none ∧ (∀ k, k ∉ ready → m'.hook k = m.hook k) ∧
      (∀ k, (m'.hook k).stamp = (m.hook k).stamp) ∧
      Lags { q with head := ready.head?, taken := q.published } m' (j + 1) (ready ++ late) := by
  have hone : q.taken + 1 = .ofNat (j + 1) := by
    rw [ht, Stamps.ofNat_succ]
  have hl := hr
  rw [List.length_append, List.length_cons] at hl
  have hlen : (n :: ready).length = ready.length + 1 := rfl
  have hd := hi.nodup hr
  have hbatch := hi.left
  rw [List.reverse_append] at hs
  obtain ⟨m', hpop, htrail, hother, hkeep⟩ : ∃ m',
      q.popBatch m = .ok (some n, { q with head := ready.head?, taken := q.published }, m') ∧
        Trail m'.next ready.head? ready none ∧ (∀ k, k ∉ ready → m'.hook k = m.hook k) ∧
        ∀ k, (m'.hook k).stamp = (m.hook k).stamp := by
    refine popBatch_of_stack hs (List.nodup_append.mp hd).1 ?_ (fun u hu => ?_)
      (fun top htop => ?_) ?_ (fun u hu => ?_) (show _ < UInt32.size by omega)
      (show _ < UInt32.size by omega)
    · rw [hp, ht]
      intro he
      have hj := Stamps.eq_of_ofNat_eq he.symm (by omega) (by omega)
      omega
    · rw [hp]
      exact hi.right.ne hu ⟨Nat.le_refl _, by omega⟩
    · rw [hp]
      exact hbatch.getLast? htop
    · rw [hone]
      exact hbatch.head
    · rw [hone]
      exact hbatch.tail.ne hu ⟨Nat.le_refl _, by omega⟩
  refine ⟨m', hpop, htrail, hother, hkeep, ⟨ready, [], late, rfl, ?_, ?_, htrail, ?_⟩, ?_, ?_⟩
  · refine hp.trans (congrArg UInt32.ofNat ?_)
    omega
  · refine hp.trans (congrArg UInt32.ofNat ?_)
    rw [List.length_nil]
    omega
  · obtain ⟨c, hlate, -⟩ := Trail.append_iff.mp hs
    refine ⟨c, hlate.congr fun k hk => ?_⟩
    have hk' : k ∉ ready := fun hm =>
      (List.nodup_append.mp hd).2.2 k (List.mem_cons_of_mem n hm) k (List.mem_reverse.mp hk) rfl
    rw [Stamps.next, hother k hk', Stamps.next]
  · exact hi.tail.congr fun k _ => hkeep k
  · rw [List.length_append]
    omega

theorem pop (h : q.Lags m j ns) : ∃ o q' m', q.pop m = .ok (o, q', m') ∧
    ((o = none ∧ q' = q ∧ m' = m ∧ q.published = .ofNat j) ∨
      ∃ n ns', ns = n :: ns' ∧ o = some n ∧ q'.published = q.published ∧
        q'.Lags m' (j + 1) ns') := by
  obtain ⟨⟨batch, ready, late, rfl, ht, hp, hb, o, hs⟩, hi, hr⟩ := h
  cases batch with
  | nil =>
    have hh : q.head = none := hb
    cases ready with
    | nil =>
      have he : q.published = q.taken := hp.trans ht.symm
      exact ⟨none, q, m, by simp [StampQueue.pop, StampQueue.popBatch, hh, he],
        Or.inl ⟨rfl, rfl, rfl, hp⟩⟩
    | cons x ready =>
      have hp' : q.published = .ofNat (j + (x :: ready).length) := hp
      obtain ⟨m', hpop, -, -, -, hlags⟩ := popBatch ht hp' hs hi hr
      exact ⟨some x, { q with head := ready.head?, taken := q.published }, m',
        by simpa [StampQueue.pop, hh] using hpop, Or.inr ⟨x, ready ++ late, rfl, rfl, rfl, hlags⟩⟩
  | cons x batch =>
    obtain ⟨hh, hb⟩ := hb
    refine ⟨some x, { q with head := m.next x }, m, by simp [StampQueue.pop, hh, Stamps.next],
      Or.inr ⟨x, batch ++ (ready ++ late), rfl, rfl, rfl,
        ⟨batch, ready, late, rfl, ?_, ?_, hb, o, hs⟩, hi.tail, ?_⟩⟩
    · refine ht.trans (congrArg UInt32.ofNat ?_)
      rw [List.length_cons]
      omega
    · refine hp.trans (congrArg UInt32.ofNat ?_)
      rw [List.length_cons]
      omega
    · rw [List.cons_append, List.length_cons] at hr
      omega

end Lags

/-- A queue in use. After some others the nodes `came` were stacked, and of these `left` went. -/
structure Relay where
  queue : StampQueue
  stamps : Stamps
  came : List Nat
  left : List Nat

namespace Relay

def waiting (r : Relay) : List Nat := r.came.drop r.left.length

/-- The halves of a push in turn, of any node that does not wait, and pops at any time. The hooks of
nodes that do not wait may change. `base` nodes have come before. -/
inductive Step (base : Nat) : Relay → Relay → Prop
  | stack (r : Relay) (n : Nat) (idle : r.queue.published = .ofNat (base + r.came.length))
      (free : n ∉ r.waiting) (room : r.waiting.length + 1 < UInt32.size) :
      Step base r { r with
        queue := (r.queue.stack r.stamps n).1
        stamps := (r.queue.stack r.stamps n).2
        came := r.came ++ [n] }
  | publish (r : Relay) (owes : r.queue.published ≠ .ofNat (base + r.came.length)) :
      Step base r { r with queue := r.queue.publish }
  | pop (r : Relay) (o : Option Nat) (q : StampQueue) (m : Stamps)
      (h : r.queue.pop r.stamps = .ok (o, q, m)) :
      Step base r { r with queue := q, stamps := m, left := r.left ++ o.toList }
  | elsewhere (r : Relay) (m : Stamps) (same : ∀ n ∈ r.waiting, m.hook n = r.stamps.hook n) :
      Step base r { r with stamps := m }

structure Kept (base : Nat) (r : Relay) : Prop where
  inOrder : r.came = r.left ++ r.waiting
  lags : r.queue.Lags r.stamps (base + r.left.length) r.waiting

variable {base : Nat} {r r' r'' : Relay} {n : Nat}

namespace Kept

theorem length_eq (h : Kept base r) :
    base + r.came.length = base + r.left.length + r.waiting.length := by
  rw [congrArg List.length h.inOrder, List.length_append]
  omega

theorem of_append {q : StampQueue} {m : Stamps} {left ns : List Nat}
    (h : q.Lags m (base + left.length) ns) : Kept base ⟨q, m, left ++ ns, left⟩ := by
  have hw : waiting ⟨q, m, left ++ ns, left⟩ = ns := List.drop_left
  exact ⟨by rw [hw], by rwa [hw]⟩

theorem step (h : Kept base r) (st : Step base r r') : Kept base r' := by
  have hlags := h.lags
  cases st with
  | stack n idle free room =>
    rw [h.inOrder, List.append_assoc]
    exact of_append (hlags.stack (h.length_eq ▸ idle) free room)
  | publish owes =>
    have hpub := of_append (hlags.publish (h.length_eq ▸ owes))
    rwa [← h.inOrder] at hpub
  | elsewhere m same =>
    have helse := of_append (hlags.congr same)
    rwa [← h.inOrder] at helse
  | pop o q m hpop =>
    obtain ⟨o', q', m', hpop', hcases⟩ := hlags.pop
    rw [hpop, Except.ok.injEq, Prod.mk.injEq, Prod.mk.injEq] at hpop'
    obtain ⟨rfl, rfl, rfl⟩ := hpop'
    rcases hcases with ⟨rfl, rfl, rfl, -⟩ | ⟨n, ns, hw, rfl, -, hlags'⟩
    · simpa using h
    · have hcame : r.came = (r.left ++ [n]) ++ ns := by
        rw [h.inOrder, hw, List.append_assoc]
        rfl
      rw [hcame]
      refine of_append ?_
      rw [List.length_append]
      exact hlags'

/-- A pop gives out the node whose turn it is, as soon as its stamp is published. -/
theorem pop_next (h : Kept base r) (hn : r.came[r.left.length]? = some n)
    (hp : base + r.left.length < r.queue.published.toNat) :
    ∃ q m, r.queue.pop r.stamps = .ok (some n, q, m) := by
  obtain ⟨o, q, m, hpop, ⟨-, -, -, hnone⟩ | ⟨k, ns, hw, rfl, -⟩⟩ := h.lags.pop
  · rw [hnone, UInt32.toNat_ofNat'] at hp
    omega
  · rw [h.inOrder, hw, List.getElem?_append_right (Nat.le_refl _), Nat.sub_self] at hn
    obtain rfl : k = n := Option.some.inj hn
    exact ⟨q, m, hpop⟩

end Kept

def Reaches (base : Nat) : Relay → Relay → Prop := Relation.ReflTransGen (Step base)

theorem Reaches.step (hr : Reaches base r r') (st : Step base r' r'') : Reaches base r r'' :=
  Relation.ReflTransGen.tail hr st

theorem Reaches.kept (hr : Reaches base r r') (h : Kept base r) : Kept base r' := by
  have hsteps : Relation.ReflTransGen (Step base) r r' := hr
  induction hsteps with
  | refl => exact h
  | tail _ st ih => exact (ih ‹_›).step st

theorem Step.came_prefix (st : Step base r r') : r.came <+: r'.came := by
  cases st with
  | stack n => exact List.prefix_append ..
  | publish | pop | elsewhere => exact List.prefix_refl _

theorem Reaches.came_prefix (hr : Reaches base r r') : r.came <+: r'.came := by
  have hsteps : Relation.ReflTransGen (Step base) r r' := hr
  induction hsteps with
  | refl => exact List.prefix_refl _
  | tail _ st ih => exact (ih ‹_›).trans st.came_prefix

end Relay

end StampQueue

def stamped (node : Nat → Nat) (a b : Nat) : List Nat := (List.range' a (b + 1 - a)).map node

section Stamped

variable {node : Nat → Nat} {a b c i n : Nat}

theorem length_stamped : (stamped node a b).length = b + 1 - a := by simp [stamped]

theorem mem_stamped : n ∈ stamped node a b ↔ ∃ k, a ≤ k ∧ k ≤ b ∧ node k = n := by
  simp only [stamped, List.mem_map, List.mem_range'_1]
  constructor
  · rintro ⟨k, ⟨hak, hkb⟩, rfl⟩
    exact ⟨k, hak, by omega, rfl⟩
  · rintro ⟨k, hak, hkb, rfl⟩
    exact ⟨k, ⟨hak, by omega⟩, rfl⟩

theorem stamped_append (hab : a ≤ b + 1) (hbc : b ≤ c) :
    stamped node a b ++ stamped node (b + 1) c = stamped node a c := by
  have hstart : b + 1 = a + (b + 1 - a) := by omega
  have hlen : (b + 1 - a) + (c + 1 - (b + 1)) = c + 1 - a := by omega
  rw [stamped, stamped, stamped, ← List.map_append, ← hlen, ← List.range'_append_1, ← hstart]

theorem stamped_self (node : Nat → Nat) (a : Nat) : stamped node a a = [node a] := by
  rw [stamped, Nat.add_sub_cancel_left]
  rfl

theorem stamped_snoc (hab : a ≤ b + 1) :
    stamped node a b ++ [node (b + 1)] = stamped node a (b + 1) := by
  rw [← stamped_self, stamped_append hab (Nat.le_succ b)]

theorem stamped_cons (hab : a ≤ b) : stamped node a b = node a :: stamped node (a + 1) b := by
  rw [← stamped_append (Nat.le_succ a) hab, stamped_self]
  rfl

theorem getElem?_stamped (h : a + i ≤ b) : (stamped node a b)[i]? = some (node (a + i)) := by
  rw [stamped, List.getElem?_map, List.getElem?_range' (by omega), Nat.one_mul]
  rfl

end Stamped

namespace Stamps

/-- The nodes that are stamped from `l + 1` to `t` are linked from newer to older ones. Where the
oldest of them leads does not matter. -/
structure Stacked (m : Stamps) (node : Nat → Nat) (l t : Nat) : Prop where
  stamp : ∀ k, l < k → k ≤ t → (m.hook (node k)).stamp.toNat = k
  link : ∀ k, l < k → k < t → m.next (node (k + 1)) = some (node k)

namespace Stacked

variable {m m' : Stamps} {node : Nat → Nat} {l s t : Nat}

theorem trail (h : m.Stacked node l t) (hlt : l < t) : Trail m.next (some (node t))
    (stamped node (l + 1) t).reverse (m.next (node (l + 1))) := by
  have hle : l + 1 ≤ t := hlt
  induction hle with
  | refl =>
    rw [stamped_self]
    exact ⟨rfl, rfl⟩
  | @step t hle ih =>
    have hshort : m.Stacked node l t :=
      ⟨fun k hk hkt => h.stamp k hk (by omega), fun k hk hkt => h.link k hk (by omega)⟩
    rw [← stamped_snoc (Nat.le_succ_of_le hle), List.reverse_append]
    exact ⟨rfl, h.link t hle (Nat.lt_succ_self t) ▸ ih hshort hle⟩

theorem counted (h : m.Stacked node l t) : m.Counted l (stamped node (l + 1) t) := by
  intro i n hi
  have hlt := (List.getElem?_eq_some_iff.mp hi).1
  rw [length_stamped] at hlt
  rw [getElem?_stamped (by omega), Option.some.injEq] at hi
  have hstamp := h.stamp (l + 1 + i) (by omega) (by omega)
  rw [← hi]
  exact UInt32.ofNat_toNat.symm.trans (congrArg UInt32.ofNat hstamp)

theorem node_inj (h : m.Stacked node l t) {a b : Nat} (ha : l < a ∧ a ≤ t) (hb : l < b ∧ b ≤ t)
    (he : node a = node b) : a = b := by
  rw [← h.stamp a ha.1 ha.2, he, h.stamp b hb.1 hb.2]

/-- The oldest node may be linked to anything. -/
theorem relink (h : m.Stacked node l t) (hlt : l < t) (o : Option Nat) :
    (m.relink (node (l + 1)) o).Stacked node l t := by
  refine ⟨fun k hk hkt => by rw [stamp_relink, h.stamp k hk hkt], fun k hk hkt => ?_⟩
  have hne : node (l + 1) ≠ node (k + 1) := fun he => by
    have hlk := h.node_inj ⟨by omega, by omega⟩ ⟨by omega, by omega⟩ he
    omega
  rw [next, hook_relink, if_neg hne]
  exact h.link k hk hkt

theorem popBatch {q : StampQueue} (h : m.Stacked node l t) (hls : l < s) (hst : s ≤ t)
    (htail : q.tail = some (node t)) (hpublished : q.published.toNat = s)
    (htaken : q.taken.toNat = l) : ∃ m',
      q.popBatch m = .ok (some (node (l + 1)),
        { q with head := (stamped node (l + 2) s).head?, taken := q.published }, m') ∧
      Trail m'.next (stamped node (l + 2) s).head? (stamped node (l + 2) s) none ∧
      (∀ n, n ∉ stamped node (l + 2) s → m'.hook n = m.hook n) ∧
      (∀ n, (m'.hook n).stamp = (m.hook n).stamp) ∧
      StampQueue.Lags { q with head := (stamped node (l + 2) s).head?, taken := q.published } m'
        (l + 1) (stamped node (l + 2) t) := by
  have hbatch : stamped node (l + 1) s = node (l + 1) :: stamped node (l + 2) s :=
    stamped_cons (by omega)
  have hall : stamped node (l + 1) t =
      (node (l + 1) :: stamped node (l + 2) s) ++ stamped node (s + 1) t := by
    rw [← hbatch, stamped_append (by omega) hst]
  have hroom : ((node (l + 1) :: stamped node (l + 2) s) ++ stamped node (s + 1) t).length <
      UInt32.size := by
    have ht := (m.hook (node t)).stamp.toNat_lt_size
    rw [h.stamp t (by omega) (Nat.le_refl t)] at ht
    rw [← hall, length_stamped]
    omega
  have htrail := h.trail (Nat.lt_of_lt_of_le hls hst)
  rw [← htail, hall] at htrail
  have hj : q.taken = .ofNat l := by rw [← htaken, UInt32.ofNat_toNat]
  have hp : q.published = .ofNat (l + (node (l + 1) :: stamped node (l + 2) s).length) := by
    have hs : l + (s + 1 - (l + 1)) = s := by omega
    rw [← hbatch, length_stamped, hs, ← hpublished, UInt32.ofNat_toNat]
  have hpop := StampQueue.Lags.popBatch hj hp htrail (hall ▸ h.counted) hroom
  rwa [stamped_append (by omega) hst] at hpop

end Stacked

end Stamps

namespace StampQueue

/-- The stack holds newer nodes than the consumer knows of, as their stamps are published later. The
walk passes them, and the reversal ends at the oldest node, whose link is not looked at. The batch
is what it would be without the newer nodes, which keep their hooks. When their stamps are published
and the batch is gone they come out in turn, even if nodes that left were pushed again. -/
theorem popBatch_below_newer_nodes {q : StampQueue} {m : Stamps} {node : Nat → Nat} {l s t : Nat}
    (hm : m.Stacked node l t) (hls : l < s) (hst : s ≤ t) (htail : q.tail = some (node t))
    (hpublished : q.published.toNat = s) (htaken : q.taken.toNat = l) :
    let batch := stamped node (l + 2) s
    let q' : StampQueue := { q with head := batch.head?, taken := q.published }
    ∃ m', q.popBatch m = .ok (some (node (l + 1)), q', m') ∧
      Trail m'.next q'.head batch none ∧
      (∀ n, (m'.hook n).stamp = (m.hook n).stamp) ∧
      (∀ n, n ∉ batch → m'.hook n = m.hook n) ∧
      (∀ k, s < k → k ≤ t → m'.hook (node k) = m.hook (node k)) ∧
      (∀ o, ∃ m₂, q.popBatch (m.relink (node (l + 1)) o) = .ok (some (node (l + 1)), q', m₂) ∧
        ∀ n, n ≠ node (l + 1) → m₂.hook n = m'.hook n) ∧
      ∀ r, Relay.Reaches (l + 1) ⟨q', m', stamped node (l + 2) t, []⟩ r →
        r.left <+: r.came ∧ (∃ o q₂ m₂, r.queue.pop r.stamps = .ok (o, q₂, m₂)) ∧
        ∀ k, k = l + 2 + r.left.length → k ≤ t → k ≤ r.queue.published.toNat →
          ∃ q₂ m₂, r.queue.pop r.stamps = .ok (some (node k), q₂, m₂) := by
  intro batch q'
  have hlt : l < t := Nat.lt_of_lt_of_le hls hst
  obtain ⟨m', hpop, htrail, hother, hkeep, hlags⟩ :=
    hm.popBatch hls hst htail hpublished htaken
  refine ⟨m', hpop, htrail, hkeep, hother, fun k hsk hkt => hother _ fun hk => ?_, fun o => ?_,
    fun r hr => ?_⟩
  · obtain ⟨i, hli, his, he⟩ := mem_stamped.mp hk
    have hik := hm.node_inj ⟨by omega, by omega⟩ ⟨by omega, hkt⟩ he
    omega
  · obtain ⟨m₂, hpop₂, htrail₂, hother₂, hkeep₂, -⟩ :=
      (hm.relink hlt o).popBatch hls hst htail hpublished htaken
    refine ⟨m₂, hpop₂, fun n hn => ?_⟩
    by_cases hb : n ∈ batch
    · refine Stamps.hook_ext (htrail.next_eq htrail₂ hb) ?_
      rw [hkeep₂, hkeep, Stamps.stamp_relink]
    · rw [hother₂ n hb, hother n hb, Stamps.hook_relink, if_neg (Ne.symm hn)]
  · have hstart : Relay.Kept (l + 1) ⟨q', m', [] ++ stamped node (l + 2) t, []⟩ :=
      Relay.Kept.of_append hlags
    have hkept := hr.kept hstart
    obtain ⟨o, q₂, m₂, hpop₂, -⟩ := hkept.lags.pop
    refine ⟨⟨_, hkept.inOrder.symm⟩, ⟨o, q₂, m₂, hpop₂⟩, fun k hk hkt hpub => ?_⟩
    have hat : (stamped node (l + 2) t)[r.left.length]? = some (node k) := by
      rw [hk]
      exact getElem?_stamped (by omega)
    have hcame : r.came[r.left.length]? = some (node k) := by
      obtain ⟨rest, hrest⟩ := hr.came_prefix
      have hlen := (List.getElem?_eq_some_iff.mp hat).1
      rw [← hrest, List.getElem?_append_left hlen]
      exact hat
    exact hkept.pop_next hcame (by omega)

/-- The nodes that are stamped from 3 to 6 are the nodes 17 down to 14. The oldest one leads to
itself. -/
def ahead : Stamps :=
  (((Stamps.empty.put 17 ⟨some 17, 3⟩).put 16 ⟨some 17, 4⟩).put 15 ⟨some 16, 5⟩).put 14 ⟨some 15, 6⟩

theorem stacked_ahead : ahead.Stacked (20 - ·) 2 6 := by
  refine ⟨fun k hk hkt => ?_, fun k hk hkt => ?_⟩
  · obtain rfl | rfl | rfl | rfl : k = 3 ∨ k = 4 ∨ k = 5 ∨ k = 6 := by omega
    all_goals decide +kernel
  · obtain rfl | rfl | rfl : k = 3 ∨ k = 4 ∨ k = 5 := by omega
    all_goals decide +kernel

/-- The consumer knows of the first two of four nodes. When it has taken them, the other two are
published, and then the first one comes again. -/
theorem popBatch_ahead :
    let q : StampQueue := ⟨some 14, 4, none, 2⟩
    let q' : StampQueue := ⟨some 14, 4, some 16, 4⟩
    ∃ m', q.popBatch ahead = .ok (some 17, q', m') ∧ Trail m'.next (some 16) [16] none ∧
      ∃ r, Relay.Reaches 3 ⟨q', m', [16, 15, 14], []⟩ r ∧ r.came = [16, 15, 14, 17] ∧
        r.left = [16] ∧ r.queue.published = 7 ∧
        ∃ q₂ m₂, r.queue.pop r.stamps = .ok (some 15, q₂, m₂) := by
  intro q q'
  obtain ⟨m', hpop, htrail, -, -, -, -, hnext⟩ := popBatch_below_newer_nodes (q := q) (s := 4)
    stacked_ahead (by decide) (by decide) rfl rfl rfl
  refine ⟨m', hpop, htrail, ?_⟩
  have h₀ : Relay.Reaches 3 ⟨q', m', [16, 15, 14], []⟩ ⟨q', m', [16, 15, 14], []⟩ := .refl
  have h₁ := h₀.step (.pop _ (some 16) { q' with head := (m'.hook 16).next } m' rfl)
  have h₂ := h₁.step (.publish _ (show (4 : UInt32) ≠ .ofNat 6 by decide))
  have h₃ := h₂.step (.publish _ (show (5 : UInt32) ≠ .ofNat 6 by decide))
  have h₄ := h₃.step (.stack _ 17 (show (6 : UInt32) = .ofNat 6 by decide)
    (show 17 ∉ [15, 14] by decide) (show 2 + 1 < UInt32.size by decide))
  have h₅ := h₄.step (.publish _ (show (6 : UInt32) ≠ .ofNat 7 by decide))
  obtain ⟨-, -, hturn⟩ := hnext _ h₅
  exact ⟨_, h₅, rfl, rfl, rfl, hturn 5 rfl (by decide) (show 5 ≤ UInt32.toNat 7 by decide)⟩

end StampQueue

end LinkedQueues

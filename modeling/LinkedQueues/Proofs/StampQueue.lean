import LinkedQueues.StampQueue
import LinkedQueues.Proofs.Trail
import Mathlib.Tactic.Common

/-!
What a stamped queue holds: first the rest of the reversed batch, whose links lead from older to
newer nodes, and behind it the stacked nodes, whose links lead from newer to older ones. The link of
the oldest stacked node is arbitrary, and only its stamp tells the consumer where to stop.
-/
namespace LinkedQueues

namespace Stamps

def next (m : Stamps) (n : Nat) : Option Nat := (m.hook n).next

theorem hook_relink (m : Stamps) (n k : Nat) (o : Option Nat) :
    (m.relink n o).hook k = if n = k then { m.hook n with next := o } else m.hook k := by
  simp [relink]

theorem stamp_relink (m : Stamps) (n k : Nat) (o : Option Nat) :
    ((m.relink n o).hook k).stamp = (m.hook k).stamp := by
  by_cases h : n = k <;> simp [hook_relink, h]

theorem hook_ext {m m' : Stamps} {k : Nat} (hn : (m'.hook k).next = (m.hook k).next)
    (hs : (m'.hook k).stamp = (m.hook k).stamp) : m'.hook k = m.hook k := by
  calc m'.hook k = ⟨(m'.hook k).next, (m'.hook k).stamp⟩ := rfl
    _ = ⟨(m.hook k).next, (m.hook k).stamp⟩ := by rw [hn, hs]

def Numbered (m : Stamps) : Nat → List Nat → Prop
  | _, [] => True
  | j, n :: ns => (m.hook n).stamp.toNat = j + 1 ∧ Numbered m (j + 1) ns

namespace Numbered

variable {m m' : Stamps} {ns ks : List Nat} {n j : Nat}

theorem congr (h : m.Numbered j ns) (hs : ∀ n ∈ ns, (m'.hook n).stamp = (m.hook n).stamp) :
    m'.Numbered j ns := by
  induction ns generalizing j with
  | nil => trivial
  | cons n ns ih =>
    constructor
    · rw [hs n (by simp)]
      exact h.1
    · exact ih h.2 fun k hk => hs k (by simp [hk])

theorem append_iff : m.Numbered j (ns ++ ks) ↔ m.Numbered j ns ∧ m.Numbered (j + ns.length) ks := by
  induction ns generalizing j with
  | nil => simp [Numbered]
  | cons n ns ih =>
    have hl : j + 1 + ns.length = j + (n :: ns).length := by
      simp only [List.length_cons]
      omega
    simp only [List.cons_append, Numbered, ih, hl, and_assoc]

theorem lt_stamp (h : m.Numbered j ns) (hn : n ∈ ns) : j < (m.hook n).stamp.toNat := by
  induction ns generalizing j with
  | nil => simp at hn
  | cons k ns ih =>
    rcases List.mem_cons.mp hn with rfl | hn
    · have hk := h.1
      omega
    · have hi := ih h.2 hn
      omega

theorem nodup (h : m.Numbered j ns) : ns.Nodup := by
  induction ns generalizing j with
  | nil => exact List.nodup_nil
  | cons n ns ih =>
    apply List.nodup_cons.mpr
    constructor
    · intro hm
      have hlt := lt_stamp h.2 hm
      have hn := h.1
      omega
    · exact ih h.2

end Numbered

end Stamps

namespace StampQueue

variable {q : StampQueue} {m m' : Stamps} {ns us rs : List Nat} {n x j fuel : Nat}
  {o head : Option Nat} {s : UInt32}

/-- The walk down the stack passes the nodes with other stamps. -/
theorem find_eq (ht : Trail m.next (some n) (us ++ [x]) o) (hu : ∀ u ∈ us, (m.hook u).stamp ≠ s)
    (hx : (m.hook x).stamp = s) (hf : us.length < fuel) : find m s fuel n = .ok x := by
  induction us generalizing n fuel with
  | nil =>
    obtain rfl : n = x := Option.some.inj ht.1
    cases fuel with
    | zero => simp at hf
    | succ fuel => rw [find, if_pos hx]
  | cons u us ih =>
    obtain rfl : n = u := Option.some.inj ht.1
    cases fuel with
    | zero => simp at hf
    | succ fuel =>
      have hr : Trail m.next (m.hook n).next (us ++ [x]) o := ht.2
      rw [find, if_neg (hu n (by simp))]
      cases hl : (m.hook n).next with
      | none => cases us <;> simp [hl] at hr
      | some older =>
        rw [hl] at hr
        exact ih hr (fun u h => hu u (by simp [h])) (by simpa using hf)

/-- The loop invariant of the reversal: the nodes `rs` are turned around already, the nodes `us`
come next. No other hook changes, and no stamp. -/
theorem reverse_eq (ht : Trail m.next (some n) (us ++ [x]) o) (hr : Trail m.next head rs none)
    (hd : (us ++ x :: rs).Nodup) (hu : ∀ u ∈ us, (m.hook u).stamp ≠ s) (hx : (m.hook x).stamp = s)
    (hf : us.length < fuel) : ∃ head' m', reverse s fuel m n head = .ok (x, head', m') ∧
      Trail m'.next head' (us.reverse ++ rs) none ∧ (∀ k, k ∉ us → m'.hook k = m.hook k) ∧
      ∀ k, (m'.hook k).stamp = (m.hook k).stamp := by
  induction us generalizing m n head rs fuel with
  | nil =>
    obtain rfl : n = x := Option.some.inj ht.1
    cases fuel with
    | zero => simp at hf
    | succ fuel => exact ⟨head, m, by rw [reverse, if_pos hx], hr, fun _ _ => rfl, fun _ => rfl⟩
  | cons u us ih =>
    obtain rfl : n = u := Option.some.inj ht.1
    obtain ⟨hnd, hd'⟩ := List.nodup_cons.mp hd
    have hsame (k : Nat) (hk : n ≠ k) : (m.relink n head).next k = m.next k := by
      simp [Stamps.next, Stamps.hook_relink, hk]
    -- The node in front joins those that are turned around.
    have hself : (m.relink n head).next n = head := by simp [Stamps.next, Stamps.hook_relink]
    have hturned : Trail (m.relink n head).next (some n) (n :: rs) none := by
      refine ⟨rfl, ?_⟩
      rw [hself]
      apply hr.congr
      intro k hk
      exact hsame k fun he => hnd (by simp [he, hk])
    have hrest : Trail (m.relink n head).next (m.hook n).next (us ++ [x]) o := by
      apply Trail.congr ht.2
      intro k hk
      exact hsame k fun he => hnd (by simp at hk ⊢; simp [he]; tauto)
    have hperm : (us ++ x :: n :: rs).Nodup := by
      have hp : ((us ++ [x]) ++ n :: rs).Perm (n :: ((us ++ [x]) ++ rs)) := List.perm_middle
      exact (List.Perm.nodup_iff (by simpa using hp)).mpr hd
    have hstamp (k : Nat) := Stamps.stamp_relink m n k head
    cases fuel with
    | zero => simp at hf
    | succ fuel =>
      rw [reverse, if_neg (hu n (by simp))]
      cases hl : (m.hook n).next with
      | none => cases us <;> simp [hl] at hrest
      | some older =>
        rw [hl] at hrest
        obtain ⟨head', m', he, hw, hk, hs⟩ := ih hrest hturned hperm
          (fun u h => by rw [hstamp]; exact hu u (by simp [h])) (by rw [hstamp]; exact hx)
          (by simpa using hf)
        refine ⟨head', m', he, by simpa using hw, fun k hku => ?_, fun k => ?_⟩
        · rw [List.mem_cons, not_or] at hku
          rw [hk k hku.2, Stamps.hook_relink, if_neg (Ne.symm hku.1)]
        · rw [hs k, hstamp]

/-- The stack is turned around from the node with the published stamp down to the oldest one, which
leaves. The nodes `us` on top are newer than the published stamp, and stay stacked. -/
theorem popBatch_of_stack (hs : Trail m.next q.tail (us.reverse ++ (x :: ns).reverse) o)
    (hd : (x :: ns).Nodup) (hne : q.published ≠ q.taken)
    (hus : ∀ u ∈ us, (m.hook u).stamp ≠ q.published)
    (htop : ∀ top ∈ (x :: ns).getLast?, (m.hook top).stamp = q.published)
    (hx : (m.hook x).stamp = q.taken + 1) (hns : ∀ u ∈ ns, (m.hook u).stamp ≠ q.taken + 1)
    (hl : us.length < batchLimit) (hl' : ns.length < batchLimit) : ∃ m',
      q.popBatch m = .ok (some x, { q with head := ns.head?, taken := q.published }, m') ∧
        Trail m'.next ns.head? ns none ∧ (∀ k, k ∉ ns → m'.hook k = m.hook k) ∧
        ∀ k, (m'.hook k).stamp = (m.hook k).stamp := by
  obtain ⟨front, top, he⟩ := (List.eq_nil_or_concat (x :: ns)).resolve_left (by simp)
  obtain ⟨c, hnewer, holder⟩ := Trail.append_iff.mp hs
  have hc : c = some top := by
    rw [he, List.concat_eq_append, List.reverse_append] at holder
    exact holder.1
  obtain ⟨newest, htail⟩ : ∃ newest, q.tail = some newest := by
    cases hr : us.reverse with
    | nil =>
      rw [hr] at hnewer
      exact ⟨top, hnewer.trans hc⟩
    | cons u rest =>
      rw [hr] at hnewer
      exact ⟨u, hnewer.1⟩
  rw [hc] at hnewer holder
  rw [htail] at hnewer
  have hpath : Trail m.next (some newest) (us.reverse ++ [top]) (m.next top) :=
    Trail.append_iff.mpr ⟨some top, hnewer, rfl, rfl⟩
  have hfind : find m q.published batchLimit newest = .ok top := by
    refine find_eq hpath (fun u hu => hus u (List.mem_reverse.mp hu)) (htop top ?_)
      (by rwa [List.length_reverse])
    rw [he, List.concat_eq_append]
    exact List.getLast?_concat
  rw [List.reverse_cons] at holder
  have hnone : Trail m.next none [] none := rfl
  have hd' : (ns.reverse ++ x :: []).Nodup := by
    rw [← List.reverse_cons]
    exact List.nodup_reverse.mpr hd
  obtain ⟨head', m', hrev, htrail, hother, hkeep⟩ :=
    reverse_eq holder hnone hd' (fun u hu => hns u (List.mem_reverse.mp hu)) hx
      (by rwa [List.length_reverse])
  rw [List.reverse_reverse, List.append_nil] at htrail
  obtain rfl := htrail.start_eq
  refine ⟨m', ?_, htrail, fun k hk => hother k (by rwa [List.mem_reverse]), hkeep⟩
  simp [popBatch, hne, htail, hfind, hrev, bind, Except.bind, pure, Except.pure]

/-- The queue holds exactly the nodes `ns`, the oldest first, after `j` others were popped. The
nodes are stamped in the order in which they were pushed. -/
structure Holds (q : StampQueue) (m : Stamps) (j : Nat) (ns : List Nat) : Prop where
  parts : ∃ batch stacked, ns = batch ++ stacked ∧ q.taken.toNat = j + batch.length ∧
    Trail m.next q.head batch none ∧ ∃ o, Trail m.next q.tail stacked.reverse o
  published : q.published.toNat = j + ns.length
  numbered : m.Numbered j ns

namespace Holds

theorem empty (m : Stamps) : StampQueue.empty.Holds m 0 [] :=
  ⟨⟨[], [], rfl, rfl, rfl, _, rfl⟩, rfl, trivial⟩

theorem congr (h : q.Holds m j ns) (hn : ∀ n ∈ ns, m'.hook n = m.hook n) : q.Holds m' j ns := by
  rcases h with ⟨⟨batch, stacked, rfl, ht, hb, o, hs⟩, hp, hi⟩
  have same (n : Nat) (hm : n ∈ batch ++ stacked) : m'.next n = m.next n := by
    rw [Stamps.next, hn n hm, Stamps.next]
  refine ⟨⟨batch, stacked, rfl, ht, ?_, o, ?_⟩, hp, hi.congr fun n hm => ?_⟩
  · exact hb.congr fun n hm => same n (by simp [hm])
  · exact hs.congr fun n hm => same n (by simp [List.mem_reverse.mp hm])
  · rw [hn n hm]

theorem isEmpty_iff (h : q.Holds m j ns) : q.isEmpty = true ↔ ns = [] := by
  rcases h with ⟨⟨batch, stacked, rfl, ht, hb, -⟩, hp, -⟩
  have hpt : q.published = q.taken ↔ stacked = [] := by
    rw [← UInt32.toNat_inj, hp, ht, List.length_append, ← List.length_eq_zero_iff]
    omega
  simp only [isEmpty, hb.start_eq, Bool.and_eq_true, decide_eq_true_eq, hpt]
  cases batch <;> simp

theorem push (h : q.Holds m j ns) (hn : n ∉ ns) (hj : j + ns.length + 1 < UInt32.size) :
    (q.push m n).1.Holds (q.push m n).2 j (ns ++ [n]) ∧
      ∀ k, k ≠ n → (q.push m n).2.hook k = m.hook k := by
  have hsame (k : Nat) (hk : k ≠ n) : (q.push m n).2.hook k = m.hook k := by
    simp [StampQueue.push, StampQueue.stack, Ne.symm hk]
  have hself : (q.push m n).2.hook n = ⟨q.tail, q.published + 1⟩ := by
    simp [StampQueue.push, StampQueue.stack]
  have hnew : (q.published + 1).toNat = j + ns.length + 1 := by
    rw [UInt32.toNat_add, h.published]
    exact Nat.mod_eq_of_lt hj
  have h' : q.Holds (q.push m n).2 j ns := h.congr fun k hk => hsame k fun he => hn (he ▸ hk)
  refine ⟨⟨?_, ?_, Stamps.Numbered.append_iff.mpr ⟨h'.numbered, ?_, trivial⟩⟩, hsame⟩
  · obtain ⟨batch, stacked, rfl, ht, hb, o, hs⟩ := h'.parts
    refine ⟨batch, stacked ++ [n], by simp, ht, hb, o, ?_⟩
    rw [List.reverse_append]
    refine ⟨rfl, ?_⟩
    rw [Stamps.next, hself]
    exact hs
  · simpa [StampQueue.push, StampQueue.publish, StampQueue.stack, Nat.add_assoc] using hnew
  · rw [hself]
    exact hnew

theorem stamp_getLast? (hm : m.Numbered j ns) (hp : q.published.toNat = j + ns.length) :
    ∀ top ∈ ns.getLast?, (m.hook top).stamp = q.published := by
  intro top htop
  obtain ⟨front, rfl⟩ := List.getLast?_eq_some_iff.mp htop
  have hstamp := (Stamps.Numbered.append_iff.mp hm).2.1
  rw [← UInt32.toNat_inj, hstamp, hp, List.length_append]
  rfl

theorem popBatch_eq (hm : m.Numbered j (x :: ns)) (ht : q.taken.toNat = j)
    (hp : q.published.toNat = j + (x :: ns).length)
    (hs : Trail m.next q.tail (x :: ns).reverse o) : ∃ m',
      q.popBatch m = .ok (some x, { q with head := ns.head?, taken := q.published }, m') ∧
        Trail m'.next ns.head? ns none ∧
        (∀ k, k ∉ ns → m'.hook k = m.hook k) ∧ ∀ k, (m'.hook k).stamp = (m.hook k).stamp := by
  have hlt := q.published.toNat_lt_size
  rw [hp] at hlt
  rw [List.length_cons] at hlt
  have hne : q.published ≠ q.taken := by
    rw [Ne, ← UInt32.toNat_inj, hp, ht, List.length_cons]
    omega
  -- The reversal stops at the oldest node, as all others have larger stamps.
  have hone : (q.taken + 1).toNat = j + 1 := by
    rw [UInt32.toNat_add, ht]
    apply Nat.mod_eq_of_lt
    show j + 1 < UInt32.size
    omega
  have hx : (m.hook x).stamp = q.taken + 1 := by
    rw [← UInt32.toNat_inj, hone]
    exact hm.1
  have hothers (u : Nat) (hu : u ∈ ns) : (m.hook u).stamp ≠ q.taken + 1 := by
    have hu' := hm.2.lt_stamp hu
    rw [Ne, ← UInt32.toNat_inj, hone]
    omega
  have hlen : ns.length < batchLimit := by
    show ns.length < UInt32.size
    omega
  have hs' : Trail m.next q.tail ([].reverse ++ (x :: ns).reverse) o := hs
  exact popBatch_of_stack hs' hm.nodup hne (by simp) (stamp_getLast? hm hp) hx hothers (by decide)
    hlen

theorem popBatch (hm : m.Numbered j (x :: ns)) (ht : q.taken.toNat = j)
    (hp : q.published.toNat = j + (x :: ns).length)
    (hs : Trail m.next q.tail (x :: ns).reverse o) : ∃ q' m',
      q.popBatch m = .ok (some x, q', m') ∧ q'.Holds m' (j + 1) ns ∧
        (∀ k, k ∉ ns → m'.hook k = m.hook k) ∧ ∀ k, (m'.hook k).stamp = (m.hook k).stamp := by
  obtain ⟨m', hpop, htrail, hother, hkeep⟩ := popBatch_eq hm ht hp hs
  have hlen : q.published.toNat = j + 1 + ns.length := by
    rw [hp, List.length_cons]
    omega
  exact ⟨_, m', hpop, ⟨⟨ns, [], (List.append_nil ns).symm, hlen, htrail, q.tail, rfl⟩, hlen,
    hm.2.congr fun k _ => hkeep k⟩, hother, hkeep⟩

/-- A pop changes no stamp, and no hook but those of the nodes in the queue. -/
theorem pop (h : q.Holds m j ns) : ∃ q' m',
    q.pop m = .ok (ns.head?, q', m') ∧ q'.Holds m' (j + ns.head?.toList.length) ns.tail ∧
      (∀ k, k ∉ ns → m'.hook k = m.hook k) ∧ ∀ k, (m'.hook k).stamp = (m.hook k).stamp := by
  rcases id h with ⟨⟨batch, stacked, rfl, ht, hb, o, hs⟩, hp, hi⟩
  cases batch with
  | nil =>
    have hh : q.head = none := hb
    cases stacked with
    | nil =>
      have he : q.published = q.taken := UInt32.toNat_inj.mp (hp.trans ht.symm)
      exact ⟨q, m, by simp [StampQueue.pop, StampQueue.popBatch, hh, he], h, fun _ _ => rfl,
        fun _ => rfl⟩
    | cons x stacked =>
      obtain ⟨q', m', hpop, hq, hother, hkeep⟩ := popBatch hi ht hp hs
      exact ⟨q', m', by simpa [StampQueue.pop, hh] using hpop, hq,
        fun k hk => hother k fun hm => hk (by simp [hm]), hkeep⟩
  | cons n batch =>
    rcases hb with ⟨hh, hb⟩
    refine ⟨{ q with head := m.next n }, m, by simp [StampQueue.pop, hh, Stamps.next],
      ⟨⟨batch, stacked, rfl, ?_, hb, o, hs⟩, ?_, hi.2⟩, fun _ _ => rfl, fun _ => rfl⟩
    · simp at ht ⊢
      omega
    · simp at hp ⊢
      omega

end Holds

end StampQueue

end LinkedQueues

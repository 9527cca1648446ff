import LinkedQueues.Proofs.Session.Agreement

/-!
Stamped queues in a session. Its nodes carry their place in line as their stamp, whatever other
queues they went through before, and so the reversal of a batch always ends at the oldest of them.
-/
namespace LinkedQueues

namespace Roster.InOrder

variable {r : Roster}

theorem popped_prefix (h : r.InOrder) (hk : r.kind ≠ .stack) : r.popped <+: r.pushed :=
  ⟨r.waiting, (h hk).symm⟩

theorem waiting_eq_nil_iff (h : r.InOrder) (hk : r.kind ≠ .stack) :
    r.waiting = [] ↔ r.popped = r.pushed := by
  rw [h hk]
  constructor
  · intro hw
    rw [hw, List.append_nil]
  · intro hp
    exact List.self_eq_append_right.mp hp

theorem head?_waiting (h : r.InOrder) (hk : r.kind ≠ .stack) :
    r.waiting.head? = r.pushed[r.popped.length]? := by
  rw [h hk, List.getElem?_append_right (Nat.le_refl _), Nat.sub_self, List.head?_eq_getElem?]

end Roster.InOrder

namespace Entry.Holds

variable {e : Entry} {h : Heap} {q : StampQueue}

theorem stamp_head (he : e.Holds h) (hq : e.container = .stamped q) {n : Nat}
    (hn : e.roster.waiting.head? = some n) :
    (h.stamps.hook n).stamp.toNat = e.roster.popped.length + 1 := by
  obtain ⟨-, hh, -⟩ := he.stamped hq
  cases hw : e.roster.waiting with
  | nil => simp [hw] at hn
  | cons k ns =>
    obtain rfl : k = n := by simpa [hw] using hn
    have hm := hh.numbered
    rw [hw] at hm
    exact hm.1

end Entry.Holds

namespace Linked.Session

/-- Whatever the hooks of the nodes are at the start: as long as the callers keep their promises,
a pop of a stamped queue comes to an end, and gives the `k`-th node that was pushed, stamped `k`,
the `k`-th time. -/
theorem stamped_pop_in_order (nodes : Nat) (heap : Heap) (cs : List Command)
    (ho : (onHeap nodes heap).Obeys (.start nodes) cs) :
    let s := (onHeap nodes heap).run cs
    let l := (Ledger.start nodes).run cs
    s.1 = l.1 ∧ ∀ slot q, s.2.registry.queue? slot = some (.stamped q) →
      ∃ r, l.2.registry.queue? slot = some r ∧ r.kind = .stamped ∧ r.popped <+: r.pushed ∧
        (q.isEmpty = true ↔ r.popped = r.pushed) ∧
        ∃ q' m, q.pop s.2.heap.stamps = .ok (r.pushed[r.popped.length]?, q', m) ∧
          ∀ n, r.pushed[r.popped.length]? = some n →
            (s.2.heap.stamps.hook n).stamp.toNat = r.popped.length + 1 ∧
              (m.hook n).stamp.toNat = r.popped.length + 1 := by
  obtain ⟨hanswers, p, ha⟩ := (Agree.start nodes heap).run ho
  refine ⟨hanswers, fun slot q hq => ?_⟩
  obtain ⟨e, hcon, hr, he⟩ := ha.exists_entry hq
  obtain ⟨hkind, hh, -⟩ := he.stamped hcon
  have hk : e.roster.kind ≠ .stack := by
    rw [hkind]
    decide
  have hin := he.inOrder
  obtain ⟨q', m, hpop, -, -, hstamps⟩ := hh.pop
  refine ⟨e.roster, hr, hkind, hin.popped_prefix hk, ?_, q', m, ?_, fun n hn => ?_⟩
  · rw [hh.isEmpty_iff, hin.waiting_eq_nil_iff hk]
  · rw [← hin.head?_waiting hk]
    exact hpop
  · have hs := he.stamp_head hcon ((hin.head?_waiting hk).trans hn)
    exact ⟨hs, by rw [hstamps, hs]⟩

/-- Hooks that look as if they were in line, with links that go in a circle. -/
def dirtyHeap : Heap :=
  ⟨.empty, (Stamps.empty.put 0 ⟨some 1, 1⟩).put 1 ⟨some 0, 2⟩, 0⟩

/-- Node `0` comes back while the tail still stands at it, and visits another queue in between. -/
def reusing : List Command :=
  [.create "line" .stamped false none, .create "visit" .stamped false none,
   .push "line" 0 .direct, .pop "line" .direct, .push "line" 0 .direct, .push "line" 1 .direct,
   .pop "line" .direct, .push "visit" 0 .direct, .push "line" 2 .direct, .pop "visit" .direct,
   .clearStamp 0, .take "line" "moved", .push "moved" 0 .direct, .split "moved" "in" "out",
   .push "in" 3 .direct, .pop "out" .direct, .pop "out" .direct]

theorem stamped_pop_in_order_reusing :
    (onHeap 4 dirtyHeap).Obeys (.start 4) reusing ∧
      ((onHeap 4 dirtyHeap).run reusing).2.registry.queue? "out" =
        some (.stamped ⟨some 3, 6, some 0, 6⟩) ∧
      ((Ledger.start 4).run reusing).2.registry.queue? "out" =
        some ⟨.stamped, [0, 3], [0, 0, 1, 2, 0, 3], [0, 0, 1, 2]⟩ ∧
      ∃ q' m,
        StampQueue.pop ⟨some 3, 6, some 0, 6⟩ ((onHeap 4 dirtyHeap).run reusing).2.heap.stamps =
          .ok (some 0, q', m) ∧ (m.hook 0).stamp.toNat = 5 := by
  have ho : (onHeap 4 dirtyHeap).Obeys (.start 4) reusing := by decide +kernel
  have hq : ((onHeap 4 dirtyHeap).run reusing).2.registry.queue? "out" =
      some (.stamped ⟨some 3, 6, some 0, 6⟩) := by decide +kernel
  have hl : ((Ledger.start 4).run reusing).2.registry.queue? "out" =
      some ⟨.stamped, [0, 3], [0, 0, 1, 2, 0, 3], [0, 0, 1, 2]⟩ := by decide +kernel
  obtain ⟨-, hline⟩ := stamped_pop_in_order 4 dirtyHeap reusing ho
  obtain ⟨r, hr, -, -, -, q', m, hpop, hstamp⟩ := hline "out" _ hq
  obtain rfl := Option.some.inj (hl.symm.trans hr)
  exact ⟨ho, hq, hl, q', m, hpop, (hstamp 0 rfl).2⟩

end Linked.Session

end LinkedQueues

import LinkedQueues.Proofs.PoolQueue.Order

/-!
The nodes of a pool queue as one chain, from the first spare node to the tail, and its cursors as
places in that chain. Whoever finds a queue in this order leaves it in this order
(`OneChain.push`, `OneChain.pop`), and every queue is made in it.
-/
namespace LinkedQueues.PoolQueue

variable {α : Type} {q : PoolQueue α}

/-- The producer saw the head at place `i`, and the head is at place `j`. All cursors may stand at
one place. -/
structure Places (q : PoolQueue α) (i j : Nat) : Prop where
  le : i ≤ j
  seen : q.chain[i]? = some q.seenHead
  head : q.chain[j]? = some q.head
  /-- The tail is at the end, and so not in front of the head. -/
  tail : q.chain.getLast? = some q.tail
  values : ∀ n, (q.cells.value n).isSome = true ↔ n ∈ q.chain.drop (j + 1)

/-- The links lead from the first spare node through every allocated node once, and then nowhere. -/
structure OneChain (q : PoolQueue α) : Prop where
  trail : Trail q.cells.next (some q.spare) q.chain none
  nodup : q.chain.Nodup
  length_eq : q.chain.length = q.nodes
  /-- Nodes are numbered in the order in which they were allocated. -/
  mem_iff : ∀ n, n ∈ q.chain ↔ n < q.nodes
  allocated_iff : ∀ n, (q.cells.read n).isSome = true ↔ n ∈ q.chain
  places : ∃ i j, q.Places i j

def Allocated (q : PoolQueue α) : Prop := ∀ n, (q.cells.read n).isSome = true ↔ n < q.nodes

@[simp] theorem lookAhead_tail (q : PoolQueue α) : q.lookAhead.tail = q.tail := by
  unfold lookAhead
  split <;> rfl

namespace Allocated

theorem empty : (empty : PoolQueue α).Allocated := by
  intro n
  rw [PoolQueue.empty, ValueNodes.isSome_read_put, Store.read_empty]
  simp [eq_comm]

theorem reserve (h : q.Allocated) : q.reserve.Allocated := by
  intro n
  rw [PoolQueue.reserve, ValueNodes.isSome_read_put, h n, Nat.lt_succ_iff_lt_or_eq, or_comm,
    eq_comm]

theorem withCapacity (capacity : Nat) : (withCapacity capacity : PoolQueue α).Allocated := by
  induction capacity with
  | zero => exact empty
  | succ capacity ih => exact ih.reserve

theorem attach (h : q.Allocated) {n nodes : Nat} (ht : q.tail < q.nodes)
    (hn : ∀ k, k < nodes ↔ n = k ∨ k < q.nodes) (v : α) :
    ({ q with nodes := nodes }.attach n v).Allocated := by
  intro k
  simp only [PoolQueue.attach, ValueNodes.link, ValueNodes.isSome_read_put, h k, hn k]
  constructor
  · rintro (rfl | hk)
    · exact Or.inr ht
    · exact hk
  · exact Or.inr

theorem vacate (h : q.Allocated) {n : Nat} (hn : n < q.nodes) :
    { q with cells := q.cells.vacate n, head := n }.Allocated := by
  intro k
  simp only [ValueNodes.vacate, ValueNodes.isSome_read_put, h k]
  constructor
  · rintro (rfl | hk)
    · exact hn
    · exact hk
  · exact Or.inr

end Allocated

namespace Intact

variable {free lag live : List Nat} {vs : List α}

theorem lt_nodes (h : Intact q free lag live vs) {n : Nat}
    (hn : n ∈ free ++ (lag ++ q.head :: live)) : n < q.nodes :=
  List.mem_range.mp (h.owned.mem_iff.mp hn)

theorem tail_lt (h : Intact q free lag live vs) : q.tail < q.nodes :=
  h.lt_nodes (List.mem_of_getLast? h.last_chain)

theorem allocated_push (h : Intact q free lag live vs) (ha : q.Allocated) (v : α)
    (allocates : Bool) : (q.push v allocates).2.Allocated := by
  have hlook : q.lookAhead.Allocated := by simpa [Allocated] using ha
  by_cases hf : free ++ lag = []
  · obtain ⟨rfl, rfl⟩ := List.append_eq_nil_iff.mp hf
    cases allocates with
    | true =>
      rw [(h.push_grown v).1]
      refine hlook.attach (by simpa using h.tail_lt) (fun k => ?_) v
      rw [lookAhead_nodes, Nat.lt_succ_iff_lt_or_eq, or_comm, eq_comm]
    | false =>
      rw [(h.push_failed v).1]
      exact hlook
  · obtain ⟨n, free', lag', he, hp, -⟩ := h.push_stored hf v allocates
    have hn : n < q.nodes := by
      apply h.lt_nodes
      rw [← List.append_assoc, he]
      exact List.mem_append_left _ List.mem_cons_self
    rw [hp]
    refine Allocated.attach (q := q.lookAhead.takeSpare.2) hlook ?_ (fun k => ?_) v
    · simpa [takeSpare] using h.tail_lt
    · simp only [takeSpare, lookAhead_nodes]
      exact ⟨Or.inr, fun hk => hk.elim (fun he => he ▸ hn) id⟩

theorem allocated_pop (h : Intact q free lag live vs) (ha : q.Allocated) :
    q.pop.2.Allocated := by
  unfold PoolQueue.pop
  split
  · exact ha
  · next n hn =>
    rw [h.next_head] at hn
    have hm : n ∈ live := List.mem_of_head? hn
    exact ha.vacate (h.lt_nodes (by simp [hm]))

/-- The parts of the chain come in this order, and so do the cursors between them. -/
theorem places (h : Intact q free lag live vs) :
    q.Places free.length (free.length + lag.length) := by
  have hsplit : q.chain = (free ++ lag) ++ q.head :: live := by rw [h.chain_eq, List.append_assoc]
  have hlen : (free ++ lag).length = free.length + lag.length := List.length_append
  refine ⟨Nat.le_add_right _ _, ?_, ?_, ?_, fun n => ?_⟩
  · rw [h.chain_eq, List.getElem?_append_right (Nat.le_refl _), Nat.sub_self,
      ← List.head?_eq_getElem?, ← h.seen]
    cases lag <;> rfl
  · rw [hsplit, ← hlen, List.getElem?_append_right (Nat.le_refl _), Nat.sub_self]
    rfl
  · rw [h.chain_eq]
    exact h.last_chain
  · have hdrop : q.chain.drop (free.length + lag.length + 1) = live := by
      rw [hsplit, ← hlen, ← List.drop_drop, List.drop_left]
      rfl
    rw [hdrop]
    constructor
    · intro hs
      by_contra hn
      simp [h.vacant n hn] at hs
    · intro hn
      have hm : q.cells.value n ∈ vs.map some := h.values ▸ List.mem_map_of_mem hn
      obtain ⟨v, -, hv⟩ := List.mem_map.mp hm
      simp [← hv]

theorem oneChain (h : Intact q free lag live vs) (ha : q.Allocated) : q.OneChain := by
  have hm (n : Nat) : n ∈ q.chain ↔ n < q.nodes := by
    rw [h.chain_eq, h.owned.mem_iff, List.mem_range]
  refine ⟨?_, ?_, ?_, hm, fun n => (ha n).trans (hm n).symm, _, _, h.places⟩
  · rw [h.chain_eq]
    exact h.trail
  · rw [h.chain_eq]
    exact h.nodup
  · rw [h.chain_eq, h.owned.length_eq, List.length_range]

end Intact

namespace OneChain

theorem allocated (h : q.OneChain) : q.Allocated := fun n =>
  (h.allocated_iff n).trans (h.mem_iff n)

theorem perm_range (h : q.OneChain) : q.chain.Perm (List.range q.nodes) := by
  refine (List.perm_ext_iff_of_nodup h.nodup List.nodup_range).mpr fun n => ?_
  rw [h.mem_iff, List.mem_range]

/-- Cut at its cursors, the chain falls into the parts of `Intact`. -/
theorem cut (h : q.OneChain) {i j : Nat} (hp : q.Places i j) :
    Intact q (q.chain.take i) ((q.chain.take j).drop i) (q.chain.drop (j + 1))
      ((q.chain.drop (j + 1)).filterMap q.cells.value) := by
  obtain ⟨hlt, hhead⟩ := List.getElem?_eq_some_iff.mp hp.head
  set free := q.chain.take i with hfree
  set lag := (q.chain.take j).drop i with hlag
  set live := q.chain.drop (j + 1) with hlive
  have hchain : q.chain = free ++ (lag ++ q.head :: live) := by
    have hfront : free = (q.chain.take j).take i := by
      rw [List.take_take, Nat.min_eq_left hp.le]
    rw [hfront, ← List.append_assoc, List.take_append_drop, ← hhead, hlive,
      List.getElem_cons_drop, List.take_append_drop]
  have hlen : free.length = i := by
    have hle := hp.le
    rw [hfree, List.length_take]
    omega
  have hvalues : live.map q.cells.value = (live.filterMap q.cells.value).map some := by
    rw [List.map_filterMap, ← List.filterMap_eq_map]
    refine List.filterMap_congr fun n hn => ?_
    obtain ⟨v, hv⟩ := Option.isSome_iff_exists.mp ((hp.values n).mpr hn)
    simp [hv]
  refine ⟨⟨hchain ▸ h.trail, ?_, ?_, hvalues, fun n hn => ?_⟩, hchain ▸ h.perm_range⟩
  · have hs := hp.seen
    rw [hchain, List.getElem?_append_right (Nat.le_of_eq hlen), hlen, Nat.sub_self,
      ← List.head?_eq_getElem?] at hs
    rw [← hs]
    cases lag <;> rfl
  · have ht := hp.tail
    rw [hchain, ← List.append_assoc, List.getLast?_append] at ht
    simpa using ht
  · exact Option.not_isSome_iff_eq_none.mp fun hs => hn ((hp.values n).mp hs)

theorem intact (h : q.OneChain) : ∃ free lag live vs, Intact q free lag live vs := by
  obtain ⟨i, j, hp⟩ := h.places
  exact ⟨_, _, _, _, h.cut hp⟩

theorem map_value (h : q.OneChain) {i j : Nat} (hp : q.Places i j) :
    (q.chain.drop (j + 1)).map q.cells.value = q.toList.map some := by
  rw [(h.cut hp).toList_eq]
  exact (h.cut hp).values

theorem withCapacity (capacity : Nat) : (withCapacity capacity : PoolQueue α).OneChain := by
  obtain ⟨free, h, -⟩ := Intact.withCapacity (α := α) capacity
  exact h.oneChain (.withCapacity capacity)

/-- However far the head has moved on since the producer looked, a push keeps the chain. -/
theorem push (h : q.OneChain) (v : α) (allocates : Bool) : (q.push v allocates).2.OneChain := by
  obtain ⟨free, lag, live, vs, hi⟩ := h.intact
  have ha := hi.allocated_push h.allocated v allocates
  rcases hi.push v allocates with
    ⟨-, -, -, free', lag', hi'⟩ | ⟨-, -, n, -, -, -, -, free', lag', hi'⟩
  · exact hi'.oneChain ha
  · exact hi'.oneChain ha

theorem pop (h : q.OneChain) : q.pop.2.OneChain := by
  obtain ⟨free, lag, live, vs, hi⟩ := h.intact
  obtain ⟨-, lag', live', hi'⟩ := hi.pop
  exact hi'.oneChain (hi.allocated_pop h.allocated)

theorem step {s : Course α} (h : s.queue.OneChain) (c : Call α) : (s.step c).queue.OneChain := by
  cases c with
  | push v allocates => exact h.push v allocates
  | pop => exact h.pop
  | isEmpty => exact h

theorem run {s : Course α} (h : s.queue.OneChain) (calls : List (Call α)) :
    (s.run calls).queue.OneChain := by
  induction calls generalizing s with
  | nil => exact h
  | cons c calls ih => exact ih (h.step c)

end OneChain

end LinkedQueues.PoolQueue

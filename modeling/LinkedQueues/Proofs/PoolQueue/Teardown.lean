import LinkedQueues.Proofs.PoolQueue.OneChain

/-!
A pool queue goes. One walk drops the values behind the sentinel, unless values need no dropping,
and a second walk frees every node from the first spare one on. Nothing bounds these walks but the
links themselves, and nothing keeps them from a node that is gone but the order of the chain. Main
result: every use of a queue keeps its nodes in one chain, and then its end comes to an end.
-/
namespace LinkedQueues.PoolQueue

inductive Teardown.Stage
  /-- Read the link of the sentinel. -/
  | enter (sentinel : Nat)
  /-- Drop the value of this node and read its link. -/
  | drop (node : Option Nat)
  /-- Read the link of this node and free it. -/
  | free (node : Option Nat)
  | done
  /-- A node was touched that is not there, or a value that is not there. -/
  | broken
  deriving DecidableEq

/-- What is left of a queue that goes, and what became of the rest, in order. -/
structure Teardown (α : Type) where
  stage : Teardown.Stage
  cells : ValueNodes α
  spare : Nat
  dropped : List α := []
  freed : List Nat := []

namespace Teardown

variable {α : Type}

def start (q : PoolQueue α) (needsDrop : Bool) : Teardown α where
  stage := if needsDrop then .enter q.head else .free (some q.spare)
  cells := q.cells
  spare := q.spare

def step : Teardown α → Teardown α
  | ⟨.enter sentinel, m, first, vs, ns⟩ =>
    match m.read sentinel with
    | some node => ⟨.drop node.next, m, first, vs, ns⟩
    | none => ⟨.broken, m, first, vs, ns⟩
  | ⟨.drop (some n), m, first, vs, ns⟩ =>
    match m.read n with
    | some ⟨next, some v⟩ => ⟨.drop next, m.vacate n, first, vs ++ [v], ns⟩
    | _ => ⟨.broken, m, first, vs, ns⟩
  | ⟨.drop none, m, first, vs, ns⟩ => ⟨.free (some first), m, first, vs, ns⟩
  | ⟨.free (some n), m, first, vs, ns⟩ =>
    match m.read n with
    | some node => ⟨.free node.next, m.free n, first, vs, ns ++ [n]⟩
    | none => ⟨.broken, m, first, vs, ns⟩
  | ⟨.free none, m, first, vs, ns⟩ => ⟨.done, m, first, vs, ns⟩
  | ⟨.done, m, first, vs, ns⟩ => ⟨.done, m, first, vs, ns⟩
  | ⟨.broken, m, first, vs, ns⟩ => ⟨.broken, m, first, vs, ns⟩

/-- How it should end: the values that waited are dropped, if need be, the nodes of the chain are
freed, and no memory is left. -/
def finished (q : PoolQueue α) (needsDrop : Bool) : Teardown α where
  stage := .done
  cells := .empty
  spare := q.spare
  dropped := if needsDrop then q.toList else []
  freed := q.chain

variable {m : ValueNodes α} {a : Option Nat} {ks : List Nat} {us : List α}

/-- The first walk takes the values off the nodes and leaves their links as they are. -/
theorem iterate_drop (first : Nat) (vs : List α) (ns : List Nat) (h : Trail m.next a ks none)
    (hv : ks.map m.value = us.map some) :
    ∃ m' : ValueNodes α, step^[ks.length] ⟨.drop a, m, first, vs, ns⟩ =
        ⟨.drop none, m', first, vs ++ us, ns⟩ ∧
      (∀ k, m'.next k = m.next k) ∧ ∀ k, (m'.read k).isSome = (m.read k).isSome := by
  induction ks generalizing m a us vs with
  | nil =>
    obtain rfl : a = none := h
    obtain rfl : us = [] := by simpa using hv.symm
    exact ⟨m, by simp, fun _ => rfl, fun _ => rfl⟩
  | cons n ks ih =>
    cases us with
    | nil => simp at hv
    | cons u us =>
      simp only [List.map_cons, List.cons.injEq] at hv
      have hread := ValueNodes.read_of_value hv.1
      obtain ⟨ht, hrest⟩ := ValueNodes.trail_rest h fun k => m.read_vacate_of_ne
      obtain ⟨m', hi, hnext, hsome⟩ :=
        ih (vs ++ [u]) ht ((ValueNodes.map_value_congr hrest).trans hv.2)
      refine ⟨m', ?_, fun k => (hnext k).trans (ValueNodes.next_vacate m n k), fun k => ?_⟩
      · rw [h.1, List.length_cons, Function.iterate_succ_apply, step, hread]
        simpa using hi
      · rw [hsome k, Bool.eq_iff_iff, ValueNodes.vacate, ValueNodes.isSome_read_put]
        refine ⟨fun hk => hk.elim (fun he => ?_) id, Or.inr⟩
        rw [← he, hread]
        rfl

/-- The second walk frees the nodes that it passes, and only these. -/
theorem iterate_free (first : Nat) (vs : List α) (ns : List Nat) (h : Trail m.next a ks none)
    (ha : ∀ k ∈ ks, (m.read k).isSome = true) :
    ∃ m' : ValueNodes α, step^[ks.length] ⟨.free a, m, first, vs, ns⟩ =
        ⟨.free none, m', first, vs, ns ++ ks⟩ ∧
      ∀ k, m'.read k = if k ∈ ks then none else m.read k := by
  induction ks generalizing m a ns with
  | nil =>
    obtain rfl : a = none := h
    exact ⟨m, by simp, fun _ => rfl⟩
  | cons n ks ih =>
    obtain ⟨node, hread⟩ := Option.isSome_iff_exists.mp (ha n List.mem_cons_self)
    have hnext : node.next = m.next n := by simp [ValueNodes.next, hread]
    obtain ⟨ht, hrest⟩ := ValueNodes.trail_rest h fun k => m.read_free_of_ne
    obtain ⟨m', hi, hm'⟩ := ih (ns ++ [n]) ht fun k hk =>
      (hrest k hk).symm ▸ ha k (List.mem_cons_of_mem n hk)
    refine ⟨m', ?_, ValueNodes.read_freed_cons hm' (m.read_free n)⟩
    rw [h.1, List.length_cons, Function.iterate_succ_apply, step, hread]
    simpa [hnext] using hi

@[simp] theorem step_finished (q : PoolQueue α) (needsDrop : Bool) :
    step (finished q needsDrop) = finished q needsDrop := rfl

end Teardown

namespace OneChain

open Teardown

variable {α : Type} {q : PoolQueue α}

theorem iterate_free (h : q.OneChain) {m : ValueNodes α} (hnext : ∀ k, m.next k = q.cells.next k)
    (hsome : ∀ k, (m.read k).isSome = (q.cells.read k).isSome) (vs : List α) :
    Teardown.step^[q.nodes + 1] ⟨.free (some q.spare), m, q.spare, vs, []⟩ =
      ⟨.done, .empty, q.spare, vs, q.chain⟩ := by
  have ht : Trail m.next (some q.spare) q.chain none := h.trail.congr fun k _ => hnext k
  obtain ⟨m', hi, hm'⟩ := Teardown.iterate_free q.spare vs [] ht
    fun k hk => (hsome k).trans ((h.allocated_iff k).mpr hk)
  have hempty : m' = .empty :=
    ValueNodes.eq_empty hm' fun k => by rw [hsome k, h.allocated_iff k]
  rw [← h.length_eq, Function.iterate_succ_apply', hi, hempty]
  rfl

theorem teardown_plain (h : q.OneChain) :
    Teardown.step^[q.nodes + 1] (.start q false) = .finished q false :=
  h.iterate_free (fun _ => rfl) (fun _ => rfl) []

/-- The walk over the values begins behind the sentinel and leaves the chain as it is. -/
theorem teardown_values (h : q.OneChain) : ∃ n, n ≤ 2 * q.nodes + 2 ∧
    Teardown.step^[n] (.start q true) = .finished q true := by
  obtain ⟨free, lag, live, vs, hi⟩ := h.intact
  obtain ⟨m, hdrop, hnext, hsome⟩ := Teardown.iterate_drop q.spare [] [] hi.trail_live hi.values
  have hhead : q.head < q.nodes := hi.lt_nodes (by simp)
  obtain ⟨node, hnode⟩ := Option.isSome_iff_exists.mp ((h.allocated q.head).mpr hhead)
  have henter : Teardown.step (.start q true) =
      ⟨.drop (q.cells.next q.head), q.cells, q.spare, [], []⟩ := by
    simp [Teardown.start, Teardown.step, ValueNodes.next, hnode]
  have hvalues : Teardown.step^[live.length + 1 + 1] (.start q true) =
      ⟨.free (some q.spare), m, q.spare, vs, []⟩ := by
    rw [Function.iterate_succ_apply, henter, Function.iterate_succ_apply', hdrop]
    rfl
  have hlen : live.length < q.nodes := by
    rw [hi.nodes_eq, hi.length_eq]
    omega
  refine ⟨q.nodes + 1 + (live.length + 1 + 1), by omega, ?_⟩
  rw [Function.iterate_add_apply, hvalues, h.iterate_free hnext hsome vs]
  simp [Teardown.finished, hi.toList_eq]

end OneChain

/-- A new queue, with any number of nodes in reserve, has its nodes in one chain, and so has a queue
after any calls. A push or a pop keeps the nodes of any queue in one chain that has them so, however
long ago the producer saw the head. When such a queue goes, the walks come to an end: each value
behind the sentinel was dropped once, the oldest first, each node was freed once, and no memory is
left. -/
theorem nodes_form_one_chain {α : Type} :
    (∀ (capacity : Nat) (calls : List (Call α)),
      ((Course.start capacity).run calls).queue.OneChain) ∧
    ∀ q : PoolQueue α, q.OneChain →
      (∀ v allocates, (q.push v allocates).2.OneChain) ∧ q.pop.2.OneChain ∧
      (∀ needsDrop n, 2 * q.nodes + 2 ≤ n →
        Teardown.step^[n] (.start q needsDrop) = .finished q needsDrop) ∧
      ∀ i j, q.Places i j →
        (q.chain.drop (j + 1)).map q.cells.value = q.toList.map some := by
  refine ⟨fun capacity calls => ?_, fun q h => ⟨h.push, h.pop, fun needsDrop n hn => ?_,
    fun _ _ hp => h.map_value hp⟩⟩
  · have hstart : (Course.start (α := α) capacity).queue.OneChain := .withCapacity capacity
    exact hstart.run calls
  · obtain ⟨k, hk, hdone⟩ : ∃ k, k ≤ 2 * q.nodes + 2 ∧
        Teardown.step^[k] (.start q needsDrop) = .finished q needsDrop := by
      cases needsDrop with
      | true => exact h.teardown_values
      | false => exact ⟨q.nodes + 1, by omega, h.teardown_plain⟩
    exact ValueNodes.iterate_of_fixed (Teardown.step_finished q needsDrop) hdone
      (Nat.le_trans hk hn)

/-- The consumer has moved on by two nodes, and the producer has not looked. -/
def lagging : PoolQueue Nat :=
  ((Course.start 1).run
    [.push 1 false, .push 2 true, .push 3 true, .pop, .pop]).queue

theorem lagging_forms_one_chain :
    lagging.OneChain ∧ lagging.chain = [0, 1, 2, 3] ∧ lagging.seenHead = 0 ∧ lagging.head = 2 ∧
    (lagging.push 4 false).2.OneChain ∧ (lagging.push 4 false).2.chain = [1, 2, 3, 0] ∧
    Teardown.step^[10] (.start (lagging.push 4 false).2 true) =
      ⟨.done, .empty, 1, [3, 4], [1, 2, 3, 0]⟩ := by
  have h : lagging.OneChain := nodes_form_one_chain.1 1 _
  have hpush := (nodes_form_one_chain.2 lagging h).1 4 false
  have hend := (nodes_form_one_chain.2 _ hpush).2.2.1 true 10 (by decide +kernel)
  refine ⟨h, by decide +kernel, rfl, rfl, hpush, by decide +kernel, hend.trans ?_⟩
  have hlist : (lagging.push 4 false).2.toList = [3, 4] := by decide +kernel
  have hchain : (lagging.push 4 false).2.chain = [1, 2, 3, 0] := by decide +kernel
  have hspare : (lagging.push 4 false).2.spare = 1 := by decide +kernel
  simp [Teardown.finished, hlist, hchain, hspare]

end LinkedQueues.PoolQueue

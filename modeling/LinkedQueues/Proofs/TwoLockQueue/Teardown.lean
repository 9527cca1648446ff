import LinkedQueues.Proofs.TwoLockQueue

/-!
A queue under two locks goes. The sentinel is freed first. Then one walk, which nothing bounds but
the links, drops each value, unless values need no dropping, and frees its node.
-/
namespace LinkedQueues.TwoLockQueue

inductive Teardown.Stage
  /-- Read the link of the sentinel and free it. -/
  | enter (sentinel : Nat)
  /-- Read the link of this node, drop its value and free it. -/
  | visit (node : Option Nat)
  | done
  /-- A node was touched that is not there, or a value that is not there. -/
  | broken
  deriving DecidableEq

structure Teardown (α : Type) where
  stage : Teardown.Stage
  cells : ValueNodes α
  dropped : List α := []
  freed : List Nat := []

namespace Teardown

variable {α : Type}

def start (q : TwoLockQueue α) : Teardown α := { stage := .enter q.head, cells := q.cells }

def step (needsDrop : Bool) : Teardown α → Teardown α
  | ⟨.enter sentinel, m, vs, ns⟩ =>
    match m.read sentinel with
    | some node => ⟨.visit node.next, m.free sentinel, vs, ns ++ [sentinel]⟩
    | none => ⟨.broken, m, vs, ns⟩
  | ⟨.visit (some n), m, vs, ns⟩ =>
    match needsDrop, m.read n with
    | true, some ⟨next, some v⟩ => ⟨.visit next, (m.vacate n).free n, vs ++ [v], ns ++ [n]⟩
    | false, some node => ⟨.visit node.next, m.free n, vs, ns ++ [n]⟩
    | _, _ => ⟨.broken, m, vs, ns⟩
  | ⟨.visit none, m, vs, ns⟩ => ⟨.done, m, vs, ns⟩
  | ⟨.done, m, vs, ns⟩ => ⟨.done, m, vs, ns⟩
  | ⟨.broken, m, vs, ns⟩ => ⟨.broken, m, vs, ns⟩

def finished (q : TwoLockQueue α) (needsDrop : Bool) : Teardown α where
  stage := .done
  cells := .empty
  dropped := if needsDrop then q.toList else []
  freed := q.head :: q.live

variable {m : ValueNodes α} {a : Option Nat} {ks : List Nat} {us : List α}

theorem step_visit (needsDrop : Bool) {n : Nat} {v : α} (hv : m.value n = some v) (vs : List α)
    (ns : List Nat) : ∃ m' : ValueNodes α, step needsDrop ⟨.visit (some n), m, vs, ns⟩ =
        ⟨.visit (m.next n), m', if needsDrop then vs ++ [v] else vs, ns ++ [n]⟩ ∧
      ∀ k, m'.read k = if n = k then none else m.read k := by
  have hread := ValueNodes.read_of_value hv
  cases needsDrop with
  | true =>
    refine ⟨(m.vacate n).free n, by simp [step, hread], fun k => ?_⟩
    rw [ValueNodes.read_free]
    split
    · rfl
    · next hk => exact m.read_vacate_of_ne hk
  | false => exact ⟨m.free n, by simp [step, hread], m.read_free n⟩

/-- The walk frees the nodes that it passes, and only these. -/
theorem iterate_visit (needsDrop : Bool) (vs : List α) (ns : List Nat)
    (h : Trail m.next a ks none) (hv : ks.map m.value = us.map some) :
    ∃ m' : ValueNodes α, (step needsDrop)^[ks.length] ⟨.visit a, m, vs, ns⟩ =
        ⟨.visit none, m', if needsDrop then vs ++ us else vs, ns ++ ks⟩ ∧
      ∀ k, m'.read k = if k ∈ ks then none else m.read k := by
  induction ks generalizing m a us vs ns with
  | nil =>
    obtain rfl : a = none := h
    obtain rfl : us = [] := by simpa using hv.symm
    exact ⟨m, by simp, fun _ => rfl⟩
  | cons n ks ih =>
    cases us with
    | nil => simp at hv
    | cons u us =>
      simp only [List.map_cons, List.cons.injEq] at hv
      obtain ⟨m₁, hstep, hm₁⟩ := step_visit needsDrop hv.1 vs ns
      obtain ⟨ht, hrest⟩ := ValueNodes.trail_rest h fun k hk => (hm₁ k).trans (if_neg hk)
      obtain ⟨m', hi, hm'⟩ := ih (if needsDrop then vs ++ [u] else vs) (ns ++ [n]) ht
        ((ValueNodes.map_value_congr hrest).trans hv.2)
      refine ⟨m', ?_, ValueNodes.read_freed_cons hm' hm₁⟩
      rw [h.1, List.length_cons, Function.iterate_succ_apply, hstep, hi]
      cases needsDrop <;> simp

@[simp] theorem step_finished (q : TwoLockQueue α) (needsDrop : Bool) :
    step needsDrop (finished q needsDrop) = finished q needsDrop := rfl

end Teardown

variable {α : Type} {q : TwoLockQueue α} {live : List Nat} {vs : List α}

/-- The walk comes to an end, and then the values were dropped once, the oldest first, the sentinel
and every other node were freed once, and no memory is left. -/
theorem Holds.teardown (h : q.Holds live vs) (needsDrop : Bool) :
    (Teardown.step needsDrop)^[live.length + 2] (.start q) = .finished q needsDrop := by
  obtain ⟨node, hnode⟩ := Option.isSome_iff_exists.mp ((h.allocated q.head).mpr List.mem_cons_self)
  have hnext : node.next = q.cells.next q.head := by simp [ValueNodes.next, hnode]
  have henter : Teardown.step needsDrop (.start q) =
      ⟨.visit (q.cells.next q.head), q.cells.free q.head, [], [q.head]⟩ := by
    simp [Teardown.start, Teardown.step, hnode, hnext]
  obtain ⟨ht, hrest⟩ := ValueNodes.trail_rest h.trail fun k => q.cells.read_free_of_ne
  obtain ⟨m, hvisit, hm⟩ := Teardown.iterate_visit needsDrop [] [q.head] ht
    ((ValueNodes.map_value_congr hrest).trans h.values)
  have hempty : m = .empty :=
    ValueNodes.eq_empty (ValueNodes.read_freed_cons hm (q.cells.read_free q.head)) h.allocated
  rw [Function.iterate_succ_apply, henter, Function.iterate_succ_apply', hvisit, hempty]
  simp [Teardown.step, Teardown.finished, h.toList_eq, h.live_eq]

def Ordered (q : TwoLockQueue α) : Prop := ∃ live vs, q.Holds live vs

theorem Ordered.push (h : q.Ordered) (v : α) (allocates : Bool) :
    (q.push v allocates).2.Ordered := by
  obtain ⟨live, vs, h⟩ := h
  cases allocates with
  | true => exact ⟨_, _, (h.push_stored v).2⟩
  | false => exact ⟨live, vs, h⟩

theorem Ordered.pop (h : q.Ordered) : q.pop.2.Ordered := by
  obtain ⟨live, vs, h⟩ := h
  obtain ⟨-, live, h⟩ := h.pop
  exact ⟨live, vs.tail, h⟩

/-- A new queue is in order, and pushes and pops keep it so. Whenever a queue in order goes, its
walk comes to an end, at which each value was dropped once, the oldest first, each node was freed
once, and no memory is left. -/
theorem nodes_are_freed_once :
    (∀ spinCount, (empty spinCount : TwoLockQueue α).Ordered) ∧
    ∀ q : TwoLockQueue α, q.Ordered →
      (∀ v allocates, (q.push v allocates).2.Ordered) ∧ q.pop.2.Ordered ∧
      ∀ needsDrop n, q.live.length + 2 ≤ n →
        (Teardown.step needsDrop)^[n] (.start q) = .finished q needsDrop := by
  refine ⟨fun spinCount => ⟨[], [], .empty spinCount⟩, fun q h => ⟨h.push, h.pop,
    fun needsDrop n hn => ?_⟩⟩
  obtain ⟨live, vs, h⟩ := h
  rw [h.live_eq] at hn
  exact ValueNodes.iterate_of_fixed (Teardown.step_finished q needsDrop) (h.teardown needsDrop) hn

end LinkedQueues.TwoLockQueue

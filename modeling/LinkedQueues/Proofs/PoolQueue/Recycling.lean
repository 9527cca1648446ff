import LinkedQueues.Proofs.PoolQueue.Arranged

/-!
When a pool queue needs a node. The producer goes by what it saw of the head when it looked last,
and looks again before it gives up, and so a node is allocated only when the sentinel and the nodes
of the values are all there are.
-/
namespace LinkedQueues.PoolQueue

variable {α : Type} {q : PoolQueue α} {free lag live : List Nat} {vs : List α} {v : α}

def idle (q : PoolQueue α) : List Nat := q.chain.takeWhile (· ≠ q.head)

namespace Intact

theorem chain_eq (h : Intact q free lag live vs) : q.chain = free ++ (lag ++ q.head :: live) :=
  ValueNodes.chain_eq h.trail (Nat.le_of_eq (by rw [h.owned.length_eq, List.length_range]))

theorem idle_eq (h : Intact q free lag live vs) : q.idle = free ++ lag := by
  have hd := h.nodup
  rw [← List.append_assoc, List.nodup_append] at hd
  have hne : ∀ n ∈ free ++ lag, decide (n ≠ q.head) = true := fun n hn =>
    decide_eq_true (hd.2.2 n hn q.head (by simp))
  rw [idle, h.chain_eq, ← List.append_assoc, List.takeWhile_append_of_pos hne]
  simp

/-- Every node is idle, or the sentinel, or has a value. -/
theorem nodes_eq (h : Intact q free lag live vs) : q.nodes = q.idle.length + 1 + vs.length := by
  have ho := h.owned.length_eq
  rw [h.idle_eq, ← h.length_eq]
  simp only [List.length_append, List.length_cons, List.length_range] at ho ⊢
  omega

theorem idle_eq_nil_iff (h : Intact q free lag live vs) :
    q.idle = [] ↔ vs.length + 1 = q.nodes := by
  rw [h.nodes_eq, ← List.length_eq_zero_iff]
  omega

/-- The second look changes nothing when the producer knew everything. -/
theorem lookAhead_eq (h : Intact q [] [] live vs) : q.lookAhead = q := by
  have hs : q.head = q.seenHead := Option.some.inj h.seen
  have hset : { q with seenHead := q.head } = q := by
    cases q
    simpa using hs
  rw [PoolQueue.lookAhead, hset, ite_self]

/-- A push reuses a node if there is one in front of the head. It allocates a node otherwise, and
fails if it cannot, which changes nothing. -/
theorem push_cases (h : Intact q free lag live vs) (v : α) (allocates : Bool) :
    (q.idle ≠ [] ∧ (q.push v allocates).1 = .stored ∧ (q.push v allocates).2.nodes = q.nodes) ∨
      (q.idle = [] ∧ allocates = true ∧ (q.push v allocates).1 = .grown (q.nodes + 1) ∧
        (q.push v allocates).2.nodes = q.nodes + 1) ∨
      (q.idle = [] ∧ allocates = false ∧ q.push v allocates = (.failed, q)) := by
  rw [h.idle_eq]
  by_cases hf : free ++ lag = []
  · obtain ⟨rfl, rfl⟩ := List.append_eq_nil_iff.mp hf
    cases allocates with
    | true =>
      obtain ⟨hp, -⟩ := h.push_grown v
      exact Or.inr (Or.inl ⟨rfl, rfl, by rw [hp], by rw [hp]; rfl⟩)
    | false =>
      obtain ⟨hp, -⟩ := h.push_failed v
      exact Or.inr (Or.inr ⟨rfl, rfl, by rw [hp, h.lookAhead_eq]⟩)
  · obtain ⟨n, -, -, -, hp, -⟩ := h.push_stored hf v allocates
    refine Or.inl ⟨hf, by rw [hp], ?_⟩
    rw [hp]
    exact lookAhead_nodes q

end Intact

theorem nodes_pop (q : PoolQueue α) : q.pop.2.nodes = q.nodes := by
  unfold pop
  split <;> rfl

theorem nodes_withCapacity (capacity : Nat) :
    (withCapacity (α := α) capacity).nodes = 1 + capacity := by
  induction capacity with
  | zero => rfl
  | succ capacity ih =>
    show (withCapacity (α := α) capacity).nodes + 1 = 1 + (capacity + 1)
    rw [ih, Nat.add_assoc]

end LinkedQueues.PoolQueue

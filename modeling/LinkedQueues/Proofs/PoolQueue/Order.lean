import LinkedQueues.Proofs.PoolQueue.Recycling

/-!
The order of values in a pool queue. A `Course` runs a queue and records the values that were
stored and popped. What was stored is what was popped and, behind it, what waits
(`values_in_order`), whichever nodes are recycled on the way.
-/
namespace LinkedQueues.PoolQueue

inductive Call (α : Type)
  | push (value : α) (allocates : Bool)
  | pop
  | isEmpty

structure Course (α : Type) where
  queue : PoolQueue α
  stored : List α
  popped : List α

namespace Course

variable {α : Type}

def start (capacity : Nat) : Course α := ⟨.withCapacity capacity, [], []⟩

def step (s : Course α) : Call α → Course α
  | .push v allocates =>
    let (p, q) := s.queue.push v allocates
    ⟨q, if p = .failed then s.stored else s.stored ++ [v], s.popped⟩
  | .pop =>
    let (v, q) := s.queue.pop
    ⟨q, s.stored, s.popped ++ v.toList⟩
  | .isEmpty => s

def run (s : Course α) (calls : List (Call α)) : Course α := calls.foldl step s

/-- The nodes are in order, and the values of the live ones are what is still to be popped. -/
def Kept (s : Course α) : Prop :=
  ∃ free lag live vs, Intact s.queue free lag live vs ∧ s.stored = s.popped ++ vs

end Course

variable {α : Type} {q : PoolQueue α} {free lag live : List Nat} {vs : List α}

/-- A push takes the first idle node, or a new one if there is memory for it, and stores its value
there and nowhere else. One that finds neither keeps every value where it is. -/
theorem Intact.push (h : Intact q free lag live vs) (v : α) (allocates : Bool) :
    ((q.push v allocates).1 = .failed ∧ (allocates = false ∧ q.idle = []) ∧
      (∀ k, (q.push v allocates).2.cells.value k = q.cells.value k) ∧
      ∃ free lag, Intact (q.push v allocates).2 free lag live vs) ∨
    ((q.push v allocates).1 ≠ .failed ∧ ¬(allocates = false ∧ q.idle = []) ∧
      ∃ n, n = q.idle.headD q.nodes ∧ n ≠ q.head ∧ n ∉ live ∧
      (∀ k, (q.push v allocates).2.cells.value k = if n = k then some v else q.cells.value k) ∧
      ∃ free lag, Intact (q.push v allocates).2 free lag (live ++ [n]) (vs ++ [v])) := by
  rw [h.idle_eq]
  by_cases hf : free ++ lag = []
  · obtain ⟨rfl, rfl⟩ := List.append_eq_nil_iff.mp hf
    cases allocates with
    | true =>
      obtain ⟨hp, hi⟩ := h.push_grown v
      have hn := h.fresh
      simp only [List.nil_append, List.mem_cons, not_or] at hn
      refine Or.inr ⟨by simp [hp], by simp, q.nodes, rfl, hn.1, hn.2, fun k => ?_, _, _, hi⟩
      simp [hp]
    | false =>
      obtain ⟨hp, hi⟩ := h.push_failed v
      exact Or.inl ⟨by simp [hp], ⟨rfl, hf⟩, by simp [hp], _, _, hi⟩
  · obtain ⟨n, free', lag', he, hp, hi⟩ := h.push_stored hf v allocates
    have hd := h.nodup
    rw [← List.append_assoc, he, List.cons_append, List.nodup_cons] at hd
    have hn : n ≠ q.head ∧ n ∉ live := by
      have hm := hd.1
      simp only [List.mem_append, List.mem_cons, not_or] at hm
      exact hm.2
    refine Or.inr ⟨by simp [hp], fun hc => hf hc.2, n, by simp [he], hn.1, hn.2, fun k => ?_, _, _,
      hi⟩
    simp [hp, takeSpare]

namespace Course

variable {s : Course α}

theorem kept_start (capacity : Nat) : Kept (start (α := α) capacity) := by
  obtain ⟨free, h, -⟩ := Intact.withCapacity (α := α) capacity
  exact ⟨free, [], [], [], h, rfl⟩

theorem kept_step (h : Kept s) (c : Call α) : Kept (s.step c) := by
  rcases h with ⟨free, lag, live, vs, hi, hs⟩
  cases c with
  | push v allocates =>
    rcases hi.push v allocates with
      ⟨hp, -, -, free', lag', hi'⟩ | ⟨hp, -, n, -, -, -, -, free', lag', hi'⟩
    · exact ⟨free', lag', live, vs, hi', by simp [step, hp, hs]⟩
    · exact ⟨free', lag', live ++ [n], vs ++ [v], hi', by simp [step, hp, hs]⟩
  | pop =>
    obtain ⟨hv, lag', live', hi'⟩ := hi.pop
    refine ⟨free, lag', live', vs.tail, hi', ?_⟩
    simp only [step, hv, hs]
    cases vs <;> simp
  | isEmpty => exact ⟨free, lag, live, vs, hi, hs⟩

theorem kept_run (h : Kept s) (calls : List (Call α)) : Kept (s.run calls) := by
  induction calls generalizing s with
  | nil => exact h
  | cons c calls ih => exact ih (kept_step h c)

end Course

/-- Of a queue with any number of nodes in reserve, and after any calls: the values that were stored
are those that were popped, followed by those that wait. The next pop gives the oldest of the
latter, and only a queue without any is empty. A push fails only when no node is idle and there is
no memory for another, and then it puts its value nowhere. Any other push puts it into the first
idle node, or else into the new one, and into no other: this is neither the sentinel nor a node
whose value waits. -/
theorem values_in_order (capacity : Nat) (calls : List (Call α)) :
    let s := (Course.start capacity).run calls
    s.stored = s.popped ++ s.queue.toList ∧
    s.queue.pop.1 = s.stored[s.popped.length]? ∧
    (s.queue.pop.1 = none ↔ s.popped = s.stored) ∧
    (s.queue.isEmpty = true ↔ s.popped = s.stored) ∧
    ∀ v allocates,
      ((s.queue.push v allocates).1 = .failed ↔ allocates = false ∧ s.queue.idle = []) ∧
      ((s.queue.push v allocates).1 = .failed →
        ∀ k, (s.queue.push v allocates).2.cells.value k = s.queue.cells.value k) ∧
      ((s.queue.push v allocates).1 ≠ .failed →
        ∃ n, n = s.queue.idle.headD s.queue.nodes ∧
          n ≠ s.queue.head ∧ n ∉ s.queue.live ∧ s.queue.cells.value n = none ∧
          ∀ k, (s.queue.push v allocates).2.cells.value k =
            if n = k then some v else s.queue.cells.value k) := by
  intro s
  obtain ⟨free, lag, live, vs, h, hs⟩ : s.Kept :=
    Course.kept_run (Course.kept_start capacity) calls
  have hpop : s.queue.pop.1 = vs.head? := h.pop.1
  have hdone : s.popped = s.stored ↔ vs = [] := by
    rw [hs]
    exact List.self_eq_append_right
  refine ⟨?_, ?_, ?_, ?_, fun v allocates => ?_⟩
  · rw [h.toList_eq, hs]
  · rw [hpop, hs, List.getElem?_append_right (Nat.le_refl _), Nat.sub_self,
      List.head?_eq_getElem?]
  · rw [hpop, hdone, List.head?_eq_none_iff]
  · rw [h.isEmpty_iff, hdone]
  · rw [h.live_eq]
    rcases h.push v allocates with ⟨hp, hf, hk, -⟩ | ⟨hp, hf, n, he, hn, hl, hk, -⟩
    · exact ⟨iff_of_true hp hf, fun _ => hk, fun hs => absurd hp hs⟩
    · exact ⟨iff_of_false hp hf, fun hs => absurd hs hp,
        fun _ => ⟨n, he, hn, hl, h.vacant n hl, hk⟩⟩

/-- One node in reserve and one allocated: two values fit and the third does not. Both nodes are
used again for `8` and `9`, without memory. -/
theorem recycled_values_in_order :
    let s := (Course.start 1).run
      [.push 5 false, .push 6 true, .push 7 false, .pop, .pop, .push 8 false, .push 9 false]
    s.stored = [5, 6, 8, 9] ∧ s.popped = [5, 6] ∧ s.queue.toList = [8, 9] ∧
    s.queue.nodes = 3 ∧ s.queue.idle = [] ∧
    s.queue.pop.1 = some 8 ∧ s.queue.isEmpty = false ∧
    (s.queue.push 10 false).1 = .failed ∧ (s.queue.push 10 true).1 = .grown 4 ∧
    (s.queue.pop.2.push 10 false).1 = .stored := by
  obtain ⟨hs, hp, -, he, hpush⟩ := values_in_order 1
    [.push 5 false, .push 6 true, .push 7 false, .pop, .pop, .push 8 false, .push 9 false]
  refine ⟨rfl, rfl, ?_, rfl, rfl, hp, ?_, (hpush 10 false).1.mpr ⟨rfl, rfl⟩, rfl, rfl⟩
  · exact List.append_cancel_left (show [5, 6] ++ _ = [5, 6] ++ [8, 9] from hs.symm)
  · rw [Bool.eq_false_iff, Ne, he]
    decide

end LinkedQueues.PoolQueue

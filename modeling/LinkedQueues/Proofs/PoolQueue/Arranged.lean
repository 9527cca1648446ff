import LinkedQueues.PoolQueue
import LinkedQueues.Proofs.ValueNode
import Mathlib.Data.List.Perm.Basic

/-!
How the nodes of a pool queue are arranged. One trail passes the free nodes that the producer
knows of, those that it has not noticed yet, the sentinel, and the nodes whose values wait. Every
operation moves nodes from one part of the trail to another.
-/
namespace LinkedQueues.PoolQueue

variable {α : Type}

/-- The chain consists of `free`, of `lag`, which the consumer has passed since the producer looked
last, of the sentinel, and of `live`, whose nodes hold the values `vs`. -/
structure Arranged (q : PoolQueue α) (free lag live : List Nat) (vs : List α) : Prop where
  trail : Trail q.cells.next (some q.spare) (free ++ (lag ++ q.head :: live)) none
  seen : (lag ++ [q.head]).head? = some q.seenHead
  last : (q.head :: live).getLast? = some q.tail
  values : live.map q.cells.value = vs.map some
  vacant : ∀ n, n ∉ live → q.cells.value n = none

/-- Besides, no allocated node is outside of the chain. -/
structure Intact (q : PoolQueue α) (free lag live : List Nat) (vs : List α) : Prop extends
    Arranged q free lag live vs where
  owned : (free ++ (lag ++ q.head :: live)).Perm (List.range q.nodes)

theorem next_attach (q : PoolQueue α) (n k : Nat) (v : α) : (q.attach n v).cells.next k =
    if q.tail = k then some n else if n = k then none else q.cells.next k := by
  simp [attach, ValueNodes.next_link]

@[simp] theorem value_attach (q : PoolQueue α) (n k : Nat) (v : α) :
    (q.attach n v).cells.value k = if n = k then some v else q.cells.value k := by
  simp [attach]

@[simp] theorem lookAhead_cells (q : PoolQueue α) : q.lookAhead.cells = q.cells := by
  unfold lookAhead
  split <;> rfl

@[simp] theorem lookAhead_head (q : PoolQueue α) : q.lookAhead.head = q.head := by
  unfold lookAhead
  split <;> rfl

@[simp] theorem lookAhead_nodes (q : PoolQueue α) : q.lookAhead.nodes = q.nodes := by
  unfold lookAhead
  split <;> rfl

variable {q : PoolQueue α} {free lag live : List Nat} {vs : List α} {n : Nat} {v : α}

namespace Arranged

theorem nodup (h : Arranged q free lag live vs) : (free ++ (lag ++ q.head :: live)).Nodup :=
  h.trail.nodup

theorem last_chain (h : Arranged q free lag live vs) :
    (free ++ (lag ++ q.head :: live)).getLast? = some q.tail := by
  rw [← List.append_assoc, List.getLast?_append, h.last]
  rfl

theorem trail_live (h : Arranged q free lag live vs) :
    Trail q.cells.next (q.cells.next q.head) live none := by
  obtain ⟨c, -, hc⟩ := Trail.append_iff.mp h.trail
  obtain ⟨d, -, -, hl⟩ := Trail.append_iff.mp hc
  exact hl

theorem next_head (h : Arranged q free lag live vs) : q.cells.next q.head = live.head? :=
  h.trail_live.start_eq

theorem hasSpare_iff (h : Arranged q free lag live vs) : q.hasSpare = true ↔ free ≠ [] := by
  have hs : some q.seenHead = (lag ++ q.head :: live).head? := by
    rw [← h.seen]
    cases lag <;> rfl
  have ha := h.trail.start_eq
  cases free with
  | nil =>
    rw [List.nil_append, ← hs] at ha
    simp [hasSpare, Option.some.inj ha]
  | cons n free =>
    have hn : q.spare = n := Option.some.inj ha
    have hm : q.seenHead ∈ lag ++ q.head :: live := List.mem_of_head? hs.symm
    have hd := h.nodup
    rw [List.cons_append, List.nodup_cons] at hd
    have hne : q.spare ≠ q.seenHead := fun he => hd.1 (List.mem_append_right _ (hn ▸ he ▸ hm))
    simp [hasSpare, hne]

/-- The producer looks at the head, and finds what it has not noticed. -/
theorem lookAhead (h : Arranged q free lag live vs) : ∃ free' lag',
    Arranged q.lookAhead free' lag' live vs ∧ free ++ lag = free' ++ lag' ∧
      (free' = [] → lag' = []) := by
  by_cases hs : q.hasSpare = true
  · have hf := h.hasSpare_iff.mp hs
    refine ⟨free, lag, ?_, rfl, fun he => absurd he hf⟩
    simpa [PoolQueue.lookAhead, hs] using h
  · have hf : free = [] := by
      by_contra hf
      exact hs (h.hasSpare_iff.mpr hf)
    subst hf
    refine ⟨lag, [], ?_, by simp, fun _ => rfl⟩
    simp only [PoolQueue.lookAhead, hs]
    exact ⟨h.trail, rfl, h.last, h.values, h.vacant⟩

theorem takeSpare (h : Arranged q (n :: free) lag live vs) :
    q.takeSpare.1 = n ∧ Arranged q.takeSpare.2 free lag live vs := by
  obtain ⟨hs, hr⟩ := h.trail
  have hn : q.spare = n := Option.some.inj hs
  have hsome : (q.cells.next n).isSome := by
    rw [hr.start_eq]
    cases free <;> cases lag <;> rfl
  obtain ⟨k, hk⟩ := Option.isSome_iff_exists.mp hsome
  refine ⟨hn, ?_, h.seen, h.last, h.values, h.vacant⟩
  simpa [PoolQueue.takeSpare, hn, hk] using hr

theorem attach (h : Arranged q free lag live vs) (hn : n ∉ free ++ (lag ++ q.head :: live))
    (v : α) : Arranged (q.attach n v) free lag (live ++ [n]) (vs ++ [v]) := by
  have hlive : n ∉ live := fun hl => hn (by simp [hl])
  have htail : q.tail ≠ n := fun he => hn (he ▸ List.mem_of_getLast? h.last_chain)
  refine ⟨?_, h.seen, ?_, ?_, fun k hk => ?_⟩
  · have hsame (k : Nat) (hk : k ∈ free ++ (lag ++ q.head :: live)) (hkt : k ≠ q.tail) :
        (q.attach n v).cells.next k = q.cells.next k := by
      have hnk : n ≠ k := fun he => hn (he ▸ hk)
      simp [next_attach, hnk, Ne.symm hkt]
    have ht := h.trail.snoc h.last_chain hsame (n := n) (by simp [next_attach])
      (by simp [next_attach, htail])
    simpa [PoolQueue.attach] using ht
  · simp [PoolQueue.attach, List.getLast?_cons]
  · have hl : live.map (q.attach n v).cells.value = live.map q.cells.value := by
      apply List.map_congr_left
      intro k hk
      have hnk : n ≠ k := fun he => hlive (he ▸ hk)
      simp [hnk]
    simp [hl, h.values]
  · simp only [List.mem_append, List.mem_singleton, not_or] at hk
    simp [Ne.symm hk.2, h.vacant k hk.1]

theorem pop (h : Arranged q free lag (n :: live) (v :: vs)) :
    Arranged { q with cells := q.cells.vacate n, head := n } free (lag ++ [q.head]) live vs := by
  have hd := h.nodup
  have hlive : n ∉ live := by
    simp only [List.nodup_append, List.nodup_cons] at hd
    exact hd.2.1.2.1.2.1
  have hv := h.values
  simp only [List.map_cons, List.cons.injEq] at hv
  refine ⟨?_, ?_, ?_, ?_, fun k hk => ?_⟩
  · have ht : Trail (q.cells.vacate n).next (some q.spare) _ none :=
      h.trail.congr fun k _ => by simp
    simpa using ht
  · rw [← h.seen]
    cases lag <;> rfl
  · rw [← h.last]
    rfl
  · rw [← hv.2]
    apply List.map_congr_left
    intro k hk
    have hnk : n ≠ k := fun he => hlive (he ▸ hk)
    simp [ValueNodes.value_vacate, hnk]
  · by_cases hnk : n = k
    · simp [ValueNodes.value_vacate, hnk]
    · simp [ValueNodes.value_vacate, hnk, h.vacant k (by simp [hk, Ne.symm hnk])]

end Arranged

namespace Intact

theorem empty : Intact (α := α) .empty [] [] [] [] := by
  refine ⟨⟨?_, rfl, rfl, rfl, fun n _ => ?_⟩, ?_⟩
  · simp [PoolQueue.empty]
  · simp only [PoolQueue.empty, ValueNodes.value_put]
    simp [ValueNodes.value]
  · simp [PoolQueue.empty]

theorem fresh (h : Intact q free lag live vs) : q.nodes ∉ free ++ (lag ++ q.head :: live) := by
  simp [h.owned.mem_iff]

theorem reserve (h : Intact q free lag live vs) :
    Intact q.reserve (q.nodes :: free) lag live vs := by
  have hn (k : Nat) (hk : k ∈ free ++ (lag ++ q.head :: live)) : q.nodes ≠ k :=
    fun he => h.fresh (he ▸ hk)
  refine ⟨⟨⟨rfl, ?_⟩, h.seen, h.last, ?_, fun k hk => ?_⟩, ?_⟩
  · have ht : Trail q.reserve.cells.next (some q.spare) _ none :=
      h.trail.congr fun k hk => by simp [PoolQueue.reserve, hn k hk]
    simpa [PoolQueue.reserve] using ht
  · rw [← h.values]
    apply List.map_congr_left
    intro k hk
    simp [PoolQueue.reserve, hn k (by simp [hk])]
  · simp [PoolQueue.reserve, h.vacant k hk]
  · have ho : (q.nodes :: (free ++ (lag ++ q.head :: live))).Perm
        (List.range q.nodes ++ [q.nodes]) :=
      (h.owned.cons _).trans (List.perm_append_singleton _ _).symm
    simpa [PoolQueue.reserve, List.range_succ] using ho

theorem withCapacity (c : Nat) :
    ∃ free, Intact (α := α) (.withCapacity c) free [] [] [] ∧ free.length = c := by
  induction c with
  | zero => exact ⟨[], empty, rfl⟩
  | succ c ih =>
    rcases ih with ⟨free, h, hc⟩
    exact ⟨_, h.reserve, by simp [hc]⟩

theorem lookAhead (h : Intact q free lag live vs) : ∃ free' lag',
    Intact q.lookAhead free' lag' live vs ∧ free ++ lag = free' ++ lag' ∧
      (free' = [] → lag' = []) := by
  obtain ⟨free', lag', ha, he, hl⟩ := h.toArranged.lookAhead
  refine ⟨free', lag', ⟨ha, ?_⟩, he, hl⟩
  rw [lookAhead_head, lookAhead_nodes, ← List.append_assoc, ← he, List.append_assoc]
  exact h.owned

/-- A push takes the first node in front of the head, whether or not the producer has noticed. -/
theorem push_stored (h : Intact q free lag live vs) (hf : free ++ lag ≠ []) (v : α)
    (allocates : Bool) : ∃ n free' lag', free ++ lag = n :: (free' ++ lag') ∧
      q.push v allocates = (.stored, q.lookAhead.takeSpare.2.attach n v) ∧
      Intact (q.push v allocates).2 free' lag' (live ++ [n]) (vs ++ [v]) := by
  obtain ⟨free', lag', hi, he, hl⟩ := h.lookAhead
  have hne : free' ≠ [] := by
    rintro rfl
    exact hf (by rw [he, hl rfl, List.append_nil])
  have hs := hi.toArranged.hasSpare_iff.mpr hne
  obtain ⟨n, rest, rfl⟩ := List.exists_cons_of_ne_nil hne
  obtain ⟨hn, ht⟩ := hi.toArranged.takeSpare
  have hp : q.push v allocates = (.stored, q.lookAhead.takeSpare.2.attach n v) := by
    simp [push, hs, hn]
  have hd := hi.nodup
  rw [List.cons_append, List.nodup_cons] at hd
  refine ⟨n, rest, lag', he, hp, ?_⟩
  rw [hp]
  refine ⟨ht.attach hd.1 v, ?_⟩
  refine List.Perm.trans ?_ hi.owned
  have ho := List.perm_append_singleton n (rest ++ (lag' ++ q.lookAhead.head :: live))
  simpa [attach, takeSpare] using ho

theorem lookAhead_nil (h : Intact q [] [] live vs) :
    Intact q.lookAhead [] [] live vs ∧ q.lookAhead.hasSpare = false := by
  obtain ⟨free', lag', hi, he, -⟩ := h.lookAhead
  obtain ⟨rfl, rfl⟩ := List.append_eq_nil_iff.mp he.symm
  refine ⟨hi, ?_⟩
  rw [← Bool.not_eq_true, hi.toArranged.hasSpare_iff]
  simp

theorem push_grown (h : Intact q [] [] live vs) (v : α) :
    q.push v true = (.grown (q.nodes + 1),
      { q.lookAhead with nodes := q.nodes + 1 }.attach q.nodes v) ∧
    Intact (q.push v true).2 [] [] (live ++ [q.nodes]) (vs ++ [v]) := by
  obtain ⟨hi, hs⟩ := h.lookAhead_nil
  have hp : q.push v true = (.grown (q.nodes + 1),
      { q.lookAhead with nodes := q.nodes + 1 }.attach q.nodes v) := by
    simp [push, hs]
  have ha : Arranged { q.lookAhead with nodes := q.nodes + 1 } [] [] live vs :=
    ⟨hi.trail, hi.seen, hi.last, hi.values, hi.vacant⟩
  have hn : q.nodes ∉ [] ++ ([] ++ q.lookAhead.head :: live) := by simpa using h.fresh
  refine ⟨hp, ?_⟩
  rw [hp]
  refine ⟨ha.attach hn v, ?_⟩
  have ho : (q.head :: live ++ [q.nodes]).Perm (List.range q.nodes ++ [q.nodes]) :=
    h.owned.append_right _
  simpa [PoolQueue.attach, List.range_succ] using ho

theorem push_failed (h : Intact q [] [] live vs) (v : α) :
    q.push v false = (.failed, q.lookAhead) ∧ Intact (q.push v false).2 [] [] live vs := by
  obtain ⟨hi, hs⟩ := h.lookAhead_nil
  have hp : q.push v false = (.failed, q.lookAhead) := by simp [push, hs]
  exact ⟨hp, by rwa [hp]⟩

theorem pop_nil (h : Intact q free lag [] []) : q.pop = (none, q) := by
  simp [PoolQueue.pop, h.toArranged.next_head]

theorem pop_cons (h : Intact q free lag (n :: live) (v :: vs)) :
    q.pop.1 = some v ∧ Intact q.pop.2 free (lag ++ [q.head]) live vs := by
  have hn : q.cells.next q.head = some n := h.toArranged.next_head
  have hv := h.values
  simp only [List.map_cons, List.cons.injEq] at hv
  have hp : q.pop = (some v, { q with cells := q.cells.vacate n, head := n }) := by
    simp [PoolQueue.pop, hn, hv.1]
  rw [hp]
  exact ⟨rfl, h.toArranged.pop, by simpa using h.owned⟩

theorem length_eq (h : Intact q free lag live vs) : live.length = vs.length := by
  simpa using congrArg List.length h.values

theorem pop (h : Intact q free lag live vs) :
    q.pop.1 = vs.head? ∧ ∃ lag live, Intact q.pop.2 free lag live vs.tail := by
  have hl := h.length_eq
  cases vs with
  | nil =>
    obtain rfl : live = [] := by simpa using hl
    rw [h.pop_nil]
    exact ⟨rfl, lag, [], h⟩
  | cons v vs =>
    obtain ⟨n, live, rfl⟩ := List.exists_cons_of_length_eq_add_one hl
    obtain ⟨hv, hi⟩ := h.pop_cons
    exact ⟨hv, _, _, hi⟩

theorem isEmpty_iff (h : Intact q free lag live vs) : q.isEmpty = true ↔ vs = [] := by
  have hl := h.length_eq
  rw [PoolQueue.isEmpty, h.toArranged.next_head]
  cases live <;> cases vs <;> simp at hl ⊢

theorem live_eq (h : Intact q free lag live vs) : q.live = live := by
  have ho := h.owned.length_eq
  simp only [List.length_append, List.length_cons, List.length_range] at ho
  exact ValueNodes.chain_eq h.trail_live (by omega)

theorem toList_eq (h : Intact q free lag live vs) : q.toList = vs := by
  rw [toList, h.live_eq]
  exact ValueNodes.filterMap_value h.values

end Intact

end LinkedQueues.PoolQueue

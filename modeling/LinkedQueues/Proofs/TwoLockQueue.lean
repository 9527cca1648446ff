import LinkedQueues.Proofs.ValueNode
import LinkedQueues.TwoLockQueue
import Mathlib.Data.List.Perm.Basic

/-!
A queue under two locks holds a list of values: the links lead from the sentinel to the tail, and
the nodes behind the sentinel hold the values, oldest first.
-/
namespace LinkedQueues.TwoLockQueue

variable {α : Type} {q : TwoLockQueue α} {live : List Nat} {vs : List α} {n : Nat} {v : α}

/-- The nodes behind the sentinel are `live`, and hold the values `vs`. No other nodes are
allocated. -/
structure Holds (q : TwoLockQueue α) (live : List Nat) (vs : List α) : Prop where
  trail : Trail q.cells.next (some q.head) (q.head :: live) none
  last : (q.head :: live).getLast? = some q.tail
  values : live.map q.cells.value = vs.map some
  below : ∀ n ∈ q.head :: live, n < q.fresh
  allocated : ∀ n, (q.cells.read n).isSome = true ↔ n ∈ q.head :: live

namespace Holds

theorem empty (spinCount : Nat) : Holds (α := α) (.empty spinCount) [] [] := by
  refine ⟨?_, rfl, rfl, ?_, fun n => ?_⟩
  · simp [TwoLockQueue.empty]
  · simp [TwoLockQueue.empty]
  · rw [TwoLockQueue.empty, ValueNodes.isSome_read_put, Store.read_empty]
    simp [eq_comm]

theorem next_head (h : q.Holds live vs) : q.cells.next q.head = live.head? := h.trail.2.start_eq

theorem push_stored (h : q.Holds live vs) (v : α) :
    (q.push v true).1 = .stored ∧ (q.push v true).2.Holds (live ++ [q.fresh]) (vs ++ [v]) := by
  have hfresh : q.fresh ∉ q.head :: live := fun hm => Nat.lt_irrefl _ (h.below _ hm)
  have htail : q.tail ∈ q.head :: live := List.mem_of_getLast? h.last
  have hne : q.tail ≠ q.fresh := fun he => hfresh (he ▸ htail)
  have hnext (k : Nat) : (q.push v true).2.cells.next k =
      if q.tail = k then some q.fresh else if q.fresh = k then none else q.cells.next k := by
    simp [push, ValueNodes.next_link]
  have hvalue (k : Nat) : (q.push v true).2.cells.value k =
      if q.fresh = k then some v else q.cells.value k := by
    simp [push]
  refine ⟨rfl, ?_, by simp [push, List.getLast?_cons], ?_, fun k hk => ?_, fun k => ?_⟩
  · refine h.trail.snoc h.last (fun k hk hkt => ?_) ?_ ?_
    · have hkf : q.fresh ≠ k := fun he => hfresh (he ▸ hk)
      rw [hnext, if_neg (Ne.symm hkt), if_neg hkf]
    · rw [hnext, if_pos rfl]
    · rw [hnext, if_neg hne, if_pos rfl]
  · have hlive : live.map (q.push v true).2.cells.value = live.map q.cells.value := by
      refine List.map_congr_left fun k hk => ?_
      have hkf : q.fresh ≠ k := fun he => hfresh (he ▸ List.mem_cons_of_mem _ hk)
      rw [hvalue, if_neg hkf]
    rw [List.map_append, hlive, h.values]
    simp [hvalue]
  · show k < q.fresh + 1
    rw [← List.cons_append, List.mem_append, List.mem_singleton] at hk
    rcases hk with hk | rfl
    · exact Nat.lt_succ_of_lt (h.below k hk)
    · exact Nat.lt_succ_self _
  · -- The link goes to a node that was there before.
    have hread : ((q.push v true).2.cells.read k).isSome = true ↔
        q.tail = k ∨ q.fresh = k ∨ (q.cells.read k).isSome = true := by
      simp only [push, ValueNodes.link, ValueNodes.isSome_read_put, if_true]
    have ht : q.tail = k → k ∈ q.head :: live := fun he => he ▸ htail
    rw [hread, h.allocated k]
    show _ ↔ k ∈ q.head :: (live ++ [q.fresh])
    rw [← List.cons_append, List.mem_append, List.mem_singleton, eq_comm (a := k)]
    tauto

theorem pop_nil (h : q.Holds [] []) : q.pop = (none, q) := by
  have hn : q.cells.next q.head = none := h.next_head
  simp [pop, hn]

theorem pop_cons (h : q.Holds (n :: live) (v :: vs)) :
    q.pop.1 = some v ∧ q.pop.2.Holds live vs := by
  have hn : q.cells.next q.head = some n := h.next_head
  have hv := h.values
  simp only [List.map_cons, List.cons.injEq] at hv
  have hd := h.trail.nodup
  have hp : q.pop =
      (some v, { q with cells := (q.cells.vacate n).free q.head, head := n }) := by
    simp [pop, hn, hv.1]
  have hfree (k : Nat) (hk : k ∈ n :: live) :
      ((q.cells.vacate n).free q.head).read k = (q.cells.vacate n).read k := by
    have hne : q.head ≠ k := fun he => (List.nodup_cons.mp hd).1 (he ▸ hk)
    exact Store.read_write_of_ne _ hne none
  rw [hp]
  refine ⟨rfl, ?_, ?_, ?_, fun k hk => h.below k (List.mem_cons_of_mem _ hk), fun k => ?_⟩
  · have ht : Trail q.cells.next (some n) (n :: live) none := hn ▸ h.trail.2
    refine ht.congr fun k hk => ?_
    rw [ValueNodes.next, hfree k hk]
    exact ValueNodes.next_vacate q.cells n k
  · rw [← h.last]
    rfl
  · rw [← hv.2]
    refine List.map_congr_left fun k hk => ?_
    have hne : n ≠ k := fun he => (List.nodup_cons.mp (List.nodup_cons.mp hd).2).1 (he ▸ hk)
    rw [ValueNodes.value, hfree k (List.mem_cons_of_mem _ hk)]
    exact (ValueNodes.value_vacate q.cells n k).trans (if_neg hne)
  · by_cases hk : q.head = k
    · have hm : k ∉ n :: live := hk ▸ (List.nodup_cons.mp hd).1
      simp [ValueNodes.read_free, hk, hm]
    · rw [ValueNodes.read_free_of_ne _ hk, ValueNodes.vacate, ValueNodes.isSome_read_put,
        h.allocated k, List.mem_cons]
      simp only [List.mem_cons]
      tauto

theorem length_eq (h : q.Holds live vs) : live.length = vs.length := by
  simpa using congrArg List.length h.values

theorem pop (h : q.Holds live vs) : q.pop.1 = vs.head? ∧ ∃ live, q.pop.2.Holds live vs.tail := by
  have hl := h.length_eq
  cases vs with
  | nil =>
    obtain rfl : live = [] := by simpa using hl
    rw [h.pop_nil]
    exact ⟨rfl, [], h⟩
  | cons v vs =>
    obtain ⟨n, live, rfl⟩ := List.exists_cons_of_length_eq_add_one hl
    obtain ⟨hv, hi⟩ := h.pop_cons
    exact ⟨hv, live, hi⟩

theorem isEmpty_iff (h : q.Holds live vs) : q.isEmpty = true ↔ vs = [] := by
  have hl := h.length_eq
  rw [TwoLockQueue.isEmpty, h.next_head]
  cases live <;> cases vs <;> simp at hl ⊢

theorem live_eq (h : q.Holds live vs) : q.live = live := by
  have hsub : live ⊆ List.range q.fresh := fun k hk =>
    List.mem_range.mpr (h.below k (List.mem_cons_of_mem _ hk))
  have hlen := (List.subperm_of_subset (List.nodup_cons.mp h.trail.nodup).2 hsub).length_le
  exact ValueNodes.chain_eq h.trail.2 (by simpa using hlen)

theorem toList_eq (h : q.Holds live vs) : q.toList = vs := by
  rw [toList, h.live_eq]
  exact ValueNodes.filterMap_value h.values

end Holds

end LinkedQueues.TwoLockQueue

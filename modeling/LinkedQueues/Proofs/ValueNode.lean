import LinkedQueues.Proofs.Trail
import LinkedQueues.ValueNode
import Mathlib.Logic.Function.Iterate

/-!
The nodes of a queue of values, as a walk along their links finds them.
-/
namespace LinkedQueues.ValueNodes

variable {α : Type} {m m' : ValueNodes α} {a : Option Nat} {n : Nat} {ks : List Nat} {vs : List α}

theorem isSome_read_put (m : ValueNodes α) (n k : Nat) (v : ValueNode α) :
    ((m.put n v).read k).isSome = true ↔ n = k ∨ (m.read k).isSome = true := by
  by_cases h : n = k <;> simp [put, Store.read_write, h]

theorem read_free (m : ValueNodes α) (n k : Nat) :
    (m.free n).read k = if n = k then none else m.read k := Store.read_write m n k none

theorem read_free_of_ne {k : Nat} (m : ValueNodes α) (h : n ≠ k) : (m.free n).read k = m.read k :=
  Store.read_write_of_ne m h none

theorem read_vacate_of_ne {k : Nat} (m : ValueNodes α) (h : n ≠ k) :
    (m.vacate n).read k = m.read k := Store.read_write_of_ne m h _

theorem read_of_value {v : α} (h : m.value n = some v) : m.read n = some ⟨m.next n, some v⟩ := by
  cases hn : m.read n with
  | none => simp [value, hn] at h
  | some node =>
    have hv : node.value = some v := by simpa [value, hn] using h
    simp [next, hn, ← hv]

theorem map_value_congr (hread : ∀ k ∈ ks, m'.read k = m.read k) :
    ks.map m'.value = ks.map m.value :=
  List.map_congr_left fun k hk => congrArg (Option.bind · ValueNode.value) (hread k hk)

/-- Walking along a trail lists its cells. -/
theorem chain_eq {limit : Nat} (h : Trail m.next a ks none) (hl : ks.length ≤ limit) :
    m.chain limit a = ks := by
  induction ks generalizing a limit with
  | nil =>
    have ha : a = none := h
    cases limit <;> simp [chain, ha]
  | cons k ks ih =>
    cases limit with
    | zero => simp at hl
    | succ limit => rw [h.1, chain, ih h.2 (by simpa using hl)]

theorem filterMap_value (h : ks.map m.value = vs.map some) : ks.filterMap m.value = vs := by
  have hv : ks.filterMap m.value = (ks.map m.value).filterMap id := by
    rw [List.filterMap_map]
    rfl
  rw [hv, h, List.filterMap_map]
  simp

/-- A walk that changes only the node that it is at does not come back to it, and finds the others
as they were. -/
theorem trail_rest (h : Trail m.next a (n :: ks) none) (hsame : ∀ k, n ≠ k → m'.read k = m.read k) :
    Trail m'.next (m.next n) ks none ∧ ∀ k ∈ ks, m'.read k = m.read k := by
  have hn := (List.nodup_cons.mp h.nodup).1
  have hread (k : Nat) (hk : k ∈ ks) : m'.read k = m.read k := hsame k fun he => hn (he ▸ hk)
  exact ⟨h.2.congr fun k hk => congrArg (Option.bind · ValueNode.next) (hread k hk), hread⟩

theorem read_freed_cons {l : ValueNodes α} (hl : ∀ k, l.read k = if k ∈ ks then none else m'.read k)
    (hm : ∀ k, m'.read k = if n = k then none else m.read k) (k : Nat) :
    l.read k = if k ∈ n :: ks then none else m.read k := by
  rw [hl k, hm k]
  by_cases hk : n = k
  · subst hk
    simp
  · simp [hk, Ne.symm hk]

/-- Memory is empty once the nodes that were there are not. -/
theorem eq_empty (hm : ∀ k, m'.read k = if k ∈ ks then none else m.read k)
    (hks : ∀ k, (m.read k).isSome = true ↔ k ∈ ks) : m' = .empty := by
  refine Store.ext_read fun k => ?_
  rw [hm k, Store.read_empty]
  split
  · rfl
  · next hk => rwa [← Option.not_isSome_iff_eq_none, hks k]

/-- A walk that came to its end stays there. -/
theorem iterate_of_fixed {σ : Type} {step : σ → σ} {s t : σ} {k l : Nat} (hfixed : step t = t)
    (h : step^[k] s = t) (hl : k ≤ l) : step^[l] s = t := by
  obtain ⟨d, rfl⟩ := Nat.exists_eq_add_of_le' hl
  rw [Function.iterate_add_apply, h, Function.iterate_fixed hfixed]

end LinkedQueues.ValueNodes

import LinkedQueues.ValueQueue
import LinkedQueues.Proofs.PoolQueue.Order
import LinkedQueues.Proofs.TwoLockQueue

/-!
Queues of values as lists of values, whichever way they keep their nodes.
-/
namespace LinkedQueues.ValueQueue

variable {α : Type} {q : ValueQueue α} {vs : List α}

def Holds : ValueQueue α → List α → Prop
  | pool q, vs => ∃ free lag live, q.Intact free lag live vs
  | twoLock q, vs => ∃ live, q.Holds live vs

/-- A pool queue needs a node when there is none in front of the sentinel, the other queue for every
value. -/
def NeedsNode : ValueQueue α → Prop
  | pool q => q.idle = []
  | twoLock _ => True

instance : (q : ValueQueue α) → Decidable q.NeedsNode
  | pool q => inferInstanceAs (Decidable (q.idle = []))
  | twoLock _ => .isTrue trivial

namespace Holds

theorem withCapacity (capacity : Nat) : Holds (α := α) (pool (.withCapacity capacity)) [] := by
  obtain ⟨free, h, -⟩ := PoolQueue.Intact.withCapacity (α := α) capacity
  exact ⟨free, [], [], h⟩

theorem empty : Holds (α := α) (pool .empty) [] := ⟨[], [], [], .empty⟩

theorem twoLock (spinCount : Nat) : Holds (α := α) (twoLock (.empty spinCount)) [] :=
  ⟨[], .empty spinCount⟩

theorem leftBehind (spinCount : Nat) (q : ValueQueue α) : Holds (q.leftBehind spinCount) [] := by
  cases q with
  | pool q => exact empty
  | twoLock q => exact twoLock spinCount

theorem toList_eq (h : q.Holds vs) : q.toList = vs := by
  cases q with
  | pool q =>
    obtain ⟨free, lag, live, h⟩ := h
    exact h.toList_eq
  | twoLock q =>
    obtain ⟨live, h⟩ := h
    exact h.toList_eq

/-- A push puts its value behind all others, unless it fails. -/
theorem push (h : q.Holds vs) (v : α) (allocates : Bool) :
    ((q.push v allocates).1 = .failed ∧ (q.push v allocates).2.Holds vs) ∨
      ((q.push v allocates).1 ≠ .failed ∧ (q.push v allocates).2.Holds (vs ++ [v])) := by
  cases q with
  | pool q =>
    obtain ⟨free, lag, live, h⟩ := h
    rcases h.push v allocates with
      ⟨hp, -, -, free', lag', hi⟩ | ⟨hp, -, n, -, -, -, -, free', lag', hi⟩
    · exact Or.inl ⟨hp, free', lag', live, hi⟩
    · exact Or.inr ⟨hp, free', lag', live ++ [n], hi⟩
  | twoLock q =>
    obtain ⟨live, h⟩ := h
    cases allocates with
    | true =>
      obtain ⟨hp, hi⟩ := h.push_stored v
      have hne : (q.push v true).1 ≠ .failed := by simp [hp]
      exact Or.inr ⟨hne, live ++ [q.fresh], hi⟩
    | false => exact Or.inl ⟨rfl, live, h⟩

theorem push_failed_iff (h : q.Holds vs) (v : α) (allocates : Bool) :
    (q.push v allocates).1 = .failed ↔ q.NeedsNode ∧ allocates = false := by
  cases q with
  | pool q =>
    obtain ⟨free, lag, live, h⟩ := h
    rcases h.push v allocates with ⟨hp, hf, -⟩ | ⟨hp, hf, -⟩
    · exact iff_of_true hp hf.symm
    · exact iff_of_false hp (hf ∘ And.symm)
  | twoLock q => cases allocates <;> simp [ValueQueue.push, TwoLockQueue.push, NeedsNode]

theorem push_failed (h : q.Holds vs) {v : α} {allocates : Bool}
    (hf : (q.push v allocates).1 = .failed) : (q.push v allocates).2 = q := by
  obtain ⟨hn, rfl⟩ := (h.push_failed_iff v allocates).mp hf
  cases q with
  | pool q =>
    obtain ⟨free, lag, live, h⟩ := h
    rcases h.push_cases v false with ⟨hi, -⟩ | ⟨-, ha, -⟩ | ⟨-, -, hp⟩
    · exact absurd hn hi
    · cases ha
    · rw [ValueQueue.push, hp]
  | twoLock q => rfl

theorem pop (h : q.Holds vs) : q.pop.1 = vs.head? ∧ q.pop.2.Holds vs.tail := by
  cases q with
  | pool q =>
    obtain ⟨free, lag, live, h⟩ := h
    obtain ⟨hv, lag', live', hi⟩ := h.pop
    exact ⟨hv, free, lag', live', hi⟩
  | twoLock q =>
    obtain ⟨live, h⟩ := h
    exact h.pop

theorem isEmpty_iff (h : q.Holds vs) : q.isEmpty = true ↔ vs = [] := by
  cases q with
  | pool q =>
    obtain ⟨free, lag, live, h⟩ := h
    exact h.isEmpty_iff
  | twoLock q =>
    obtain ⟨live, h⟩ := h
    exact h.isEmpty_iff

end Holds

end LinkedQueues.ValueQueue

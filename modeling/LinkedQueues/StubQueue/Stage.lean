import LinkedQueues.StubQueue

/-!
A pop in single accesses to shared memory, so that other threads may push between any two of
them. Undisturbed accesses add up to `StubQueue.pop` (`settle_enter`).
-/
namespace LinkedQueues

/-- The access that a pop makes next. -/
inductive Stage
  /-- Read the link of the head, which may be the stub. -/
  | enter
  /-- Read the link of the head after the stub was passed over. -/
  | inspect
  /-- Compare a head without a successor with the tail. -/
  | compare
  /-- The first half of pushing the stub. -/
  | reinsert
  /-- The second half of pushing the stub. -/
  | relink (previous : Cell)
  /-- Read the link of the head once more. -/
  | recheck
  | finished (result : Popped Cell)
  deriving DecidableEq

/-- A consumer in the middle of a pop, with the queue and the links it works on. -/
structure Popping where
  stage : Stage
  queue : StubQueue
  links : Links

namespace Popping

/-- One access; a finished pop makes none. -/
def step : Popping → Popping
  | ⟨.enter, q, m⟩ =>
    match m.read q.head with
    | none => if q.head = q.stub then ⟨.finished .empty, q, m⟩ else ⟨.compare, q, m⟩
    | some next =>
      if q.head = q.stub then ⟨.inspect, q.advance next, m⟩
      else ⟨.finished (.item q.head), q.advance next, m⟩
  | ⟨.inspect, q, m⟩ =>
    match m.read q.head with
    | none => ⟨.compare, q, m⟩
    | some next => ⟨.finished (.item q.head), q.advance next, m⟩
  | ⟨.compare, q, m⟩ =>
    if q.head = q.tail then ⟨.reinsert, q, m⟩ else ⟨.finished .inFlight, q, m⟩
  | ⟨.reinsert, q, m⟩ =>
    let (p, n) := q.announce m q.stub
    if q.tail = q.stub then ⟨.finished (.refused .pushedTwice), p, n⟩ else ⟨.relink q.tail, p, n⟩
  | ⟨.relink previous, q, m⟩ => ⟨.recheck, q, m.join previous q.stub⟩
  | ⟨.recheck, q, m⟩ =>
    match m.read q.head with
    | none => ⟨.finished .empty, q, m⟩
    | some next => ⟨.finished (.item q.head), q.advance next, m⟩
  | ⟨.finished r, q, m⟩ => ⟨.finished r, q, m⟩

def settle : Nat → Popping → Popping
  | 0, p => p
  | n + 1, p => settle n p.step

@[simp] theorem step_finished (r : Popped Cell) (q : StubQueue) (m : Links) :
    step ⟨.finished r, q, m⟩ = ⟨.finished r, q, m⟩ := rfl

@[simp] theorem settle_finished (n : Nat) (r : Popped Cell) (q : StubQueue) (m : Links) :
    settle n ⟨.finished r, q, m⟩ = ⟨.finished r, q, m⟩ := by
  induction n with
  | zero => rfl
  | succ n ih => exact ih

theorem settle_compare (q : StubQueue) (m : Links) :
    settle 4 ⟨.compare, q, m⟩ =
      ⟨.finished (q.popLast m).1, (q.popLast m).2.1, (q.popLast m).2.2⟩ := by
  by_cases h : q.head = q.tail
  · by_cases hs : q.tail = q.stub
    · simp [settle, step, StubQueue.popLast, StubQueue.push, StubQueue.announce, h, hs]
    · simp only [settle, step, StubQueue.popLast, StubQueue.push, StubQueue.announce, h, hs,
        if_true, if_false]
      cases (Links.join (Links.clear m q.stub) q.tail q.stub).read q.tail <;> rfl
  · simp [settle, step, StubQueue.popLast, h]

theorem settle_add (a b : Nat) (p : Popping) : settle (a + b) p = settle b (settle a p) := by
  induction a generalizing p with
  | zero => rw [Nat.zero_add]; rfl
  | succ a ih => rw [Nat.succ_add]; exact ih p.step

theorem settle_enter (q : StubQueue) (m : Links) :
    settle 6 ⟨.enter, q, m⟩ = ⟨.finished (q.pop m).1, (q.pop m).2.1, (q.pop m).2.2⟩ := by
  have late (q : StubQueue) (n : Nat) : settle (4 + n) ⟨.compare, q, m⟩ =
      ⟨.finished (q.popLast m).1, (q.popLast m).2.1, (q.popLast m).2.2⟩ := by
    rw [settle_add, settle_compare, settle_finished]
  rw [settle, step]
  by_cases hs : q.head = q.stub
  · cases h : m.read q.head with
    | none => simp [StubQueue.pop, hs, hs ▸ h]
    | some next =>
      rw [settle]
      cases h' : m.read next with
      | none => simpa [StubQueue.pop, StubQueue.advance, step, hs, hs ▸ h, h'] using late _ 0
      | some second => simp [StubQueue.pop, StubQueue.advance, step, hs, hs ▸ h, h']
  · cases h : m.read q.head with
    | none => simpa [StubQueue.pop, h, hs] using late q 1
    | some next => simp [StubQueue.pop, h, hs]

end Popping

end LinkedQueues

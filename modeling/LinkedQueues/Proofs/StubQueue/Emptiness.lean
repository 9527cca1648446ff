import LinkedQueues.Proofs.StubQueue.Turns

/-!
What a stub queue says about being empty, and whether a pop then finds a node. Both look at the link
that leads to the oldest node, but only the pop looks at the link of that node. They differ exactly
while a producer still has to link its node behind the oldest one.
-/
namespace LinkedQueues

namespace StubQueue

variable {q : StubQueue} {m : Links} {late : Cell → Option Cell} {cs : List Cell} {x : Cell}

theorem isEmpty_of_ne (h : q.head ≠ q.stub) : q.isEmpty m = false := by
  simp [isEmpty, h]

theorem isEmpty_of_eq (h : q.head = q.stub) : q.isEmpty m = true ↔ m.read q.stub = none := by
  simp [isEmpty, h, Links.isLinked]

namespace LateLine

theorem read_eq_none_iff (h : LateLine q m late (q.stub :: x :: cs)) :
    m.read q.stub = none ↔ ¬ Arrived late x := by
  refine ⟨fun hr hx => ?_, h.read_eq_none⟩
  rw [h.read_eq hx] at hr
  cases hr

theorem pop_front (h : LateLine q m late (x :: cs)) (hs : x ≠ q.stub) :
    (q.pop m).1 = if late x = none then .item x else .inFlight := by
  have hx : q.head = x := h.inLine.head_eq
  have hne : q.head ≠ q.stub := hx ▸ hs
  cases hr : m.read q.head with
  | some b =>
    have hlate : late x = none := by
      by_contra hl
      obtain ⟨c, hc⟩ := Option.ne_none_iff_exists'.mp hl
      have hread := (h.missing x c hc).1
      rw [← hx, hr] at hread
      cases hread
    rw [pop_item hne hr, if_pos hlate, hx]
  | none =>
    rw [pop_last hne hr]
    cases cs with
    | nil =>
      have hlate : late x = none := by
        rw [← hx, h.inLine.head_eq_tail_iff.mpr (by rw [hx])]
        exact h.tail_none.2
      rw [← hx] at h
      rw [(LateLine.popLast h hne).1, if_pos hlate, hx]
    | cons c cs =>
      have hsucc : (m.read x).or (late x) = some c := h.inLine.succ_head
      rw [← hx, hr, Option.none_or] at hsucc
      have hlate : late x ≠ none := by
        rw [← hx, hsucc]
        exact Option.some_ne_none c
      have ht : q.head ≠ q.tail := fun he => by
        have hl := h.inLine.head_eq_tail_iff.mp he
        simp at hl
      rw [StubQueue.popLast, if_neg ht, if_neg hlate]

/-- A queue is empty until the link to the oldest node is stored. From then on a pop depends on the
link of that node. -/
theorem pop_cases (h : LateLine q m late cs) :
    (q.isEmpty m = true ∧ (q.pop m).1 = .empty ∧
      ∀ x ∈ (waiting q.stub cs).head?, ¬ Arrived late x) ∨
    ∃ x ∈ (waiting q.stub cs).head?, Arrived late x ∧ q.isEmpty m = false ∧
      (q.pop m).1 = if late x = none then .item x else .inFlight := by
  obtain ⟨rest, rfl⟩ := h.inLine.eq_cons
  by_cases hst : q.head = q.stub
  · rw [hst, waiting_cons_stub]
    rw [hst] at h
    cases rest with
    | nil =>
      have hn : m.read q.stub = none := by
        rw [← hst, h.inLine.head_eq_tail_iff.mpr (by rw [hst])]
        exact h.tail_none.1
      exact Or.inl ⟨(isEmpty_of_eq hst).mpr hn, by rw [pop_empty hst (hst ▸ hn)], by simp⟩
    | cons x rest =>
      have hne : x ≠ q.stub := fun hx => by
        have hd := h.inLine.nodup
        simp [hx] at hd
      rw [waiting_cons hne, List.head?_cons]
      by_cases hx : Arrived late x
      · have hb : m.read q.head = some x := hst ▸ h.read_eq hx
        obtain ⟨rest', he, hl⟩ := h.advance hb
        refine Or.inr ⟨x, rfl, hx, ?_, ?_⟩
        · rw [← Bool.not_eq_true, isEmpty_of_eq hst, h.read_eq_none_iff]
          exact not_not_intro hx
        · rw [pop_behind_stub hst hb hne]
          exact hl.pop_front (q := q.advance x) hne
      · have hn := h.read_eq_none_iff.mpr hx
        have hp : q.pop m = (.empty, q, m) := pop_empty hst (hst ▸ hn)
        exact Or.inl ⟨(isEmpty_of_eq hst).mpr hn, by rw [hp], by simpa using hx⟩
  · rw [waiting_cons hst, List.head?_cons]
    exact Or.inr ⟨q.head, rfl, h.arrived_head, isEmpty_of_ne hst, h.pop_front hst⟩

end LateLine

end StubQueue

theorem Container.isEmpty_of_stubQueue? {c : Container} {q : StubQueue}
    (hc : c.stubQueue? = some q) (h : Heap) : c.isEmpty h = q.isEmpty h.links := by
  cases c with
  | mpsc p | spmc p s | mpmc p s =>
    obtain rfl := Option.some.inj hc
    rfl
  | stamped p | chain p | stack p => cases hc

namespace Traffic

open StubQueue (Arrived)

variable {w : Traffic} {late : Cell → Option Cell} {cs : List Cell}

/-- A producer still has to link its node behind the oldest one, to which the links lead. -/
def SecondUnlinked (w : Traffic) : Prop :=
  ∃ x ∈ w.waiting.head?, w.Finished x ∧ ∃ p c, w.unfinished p = some (.node x, c)

namespace Sound

/-- While no pop is under way, only producers store links. -/
theorem late_eq_none_iff (h : Sound w late cs) {r : Popped Cell} (hr : w.stage = .finished r)
    (a : Cell) : late a = none ↔ ¬ ∃ p c, w.unfinished p = some (a, c) := by
  rw [← not_iff_not, not_not, ← Ne, Option.ne_none_iff_exists']
  constructor
  · rintro ⟨c, hc⟩
    have hp := ((h.owed.owed_iff a c).mp hc).resolve_right (by simp [hr])
    exact hp.imp fun p hp => ⟨c, hp⟩
  · rintro ⟨p, c, hp⟩
    exact ⟨c, (h.owed.owed_iff a c).mpr (Or.inl ⟨p, hp⟩)⟩

end Sound

/-- What the queue says while no pop is under way, and what the next pop finds. -/
theorem Sound.empty_cases (h : Sound w late cs) {r : Popped Cell} (hr : w.stage = .finished r) :
    (w.queue.isEmpty w.links = true ∧ (w.queue.pop w.links).1 = .empty ∧
      ∀ x ∈ w.waiting.head?, ¬ w.Finished x) ∨
    (w.queue.isEmpty w.links = false ∧ (w.queue.pop w.links).1 = .inFlight ∧ w.SecondUnlinked) ∨
    ∃ x ∈ w.waiting.head?, w.queue.isEmpty w.links = false ∧
      (w.queue.pop w.links).1 = .item (.node x) ∧ w.Finished x ∧ ¬ w.SecondUnlinked := by
  have hhead : (StubQueue.waiting w.queue.stub cs).head? = w.waiting.head?.map .node := by
    rw [← h.waiting_map, List.head?_map]
  rcases h.line.pop_cases with ⟨he, hp, hx⟩ | ⟨c, hc, hx, he, hp⟩
  · refine Or.inl ⟨he, hp, fun x hm => ?_⟩
    rw [h.finished_iff]
    refine hx _ ?_
    rw [hhead, Option.mem_def.mp hm]
    rfl
  · rw [hhead, Option.mem_def, Option.map_eq_some_iff] at hc
    obtain ⟨x, hm, rfl⟩ := hc
    rw [← h.finished_iff] at hx
    have hlate := h.late_eq_none_iff hr (.node x)
    split at hp
    · next hn =>
      refine Or.inr (Or.inr ⟨x, hm, he, hp, hx, ?_⟩)
      rintro ⟨y, hy, -, hu⟩
      obtain rfl : x = y := Option.some.inj (hm.symm.trans hy)
      exact hlate.mp hn hu
    · next hn => exact Or.inr (Or.inl ⟨he, hp, x, hm, hx, not_not.mp (mt hlate.mpr hn)⟩)

/-- Producers and the consumer make their accesses in any order, and the links of cells that the
queue does not have may change at any time. -/
inductive Move : Traffic → Traffic → Prop
  | step (w w' : Traffic) (st : Step w w') : Move w w'
  | elsewhere (w : Traffic) (m : Links) (stub : m.read w.queue.stub = w.links.read w.queue.stub)
      (same : ∀ c, w.lent c = true → m.read c = w.links.read c) : Move w { w with links := m }

theorem Sound.move {w' : Traffic} (h : Sound w late cs) (mv : Move w w') :
    ∃ late' cs', Sound w' late' cs' := by
  cases mv with
  | step _ st => exact h.step st
  | elsewhere m stub same => exact ⟨late, cs, h.elsewhere stub same⟩

def Arises (k : Nat) (m : Links) : Traffic → Prop := Relation.ReflTransGen Move (start k m)

theorem Arises.step {k : Nat} {m : Links} {w' : Traffic} (h : Arises k m w) (st : Step w w') :
    Arises k m w' := Relation.ReflTransGen.tail h (.step _ _ st)

theorem Arises.sound {k : Nat} {m : Links} (h : Arises k m w) : ∃ late cs, Sound w late cs := by
  have hr : Relation.ReflTransGen Move (Traffic.start k m) w := h
  induction hr with
  | refl => exact ⟨_, _, sound_start k m⟩
  | tail _ mv ih =>
    obtain ⟨late, cs, hs⟩ := ih ‹_›
    exact hs.move mv

/-- In every state in which no pop is under way, whatever the producers still have to link: a queue
of any of the three kinds is empty exactly until the push of the oldest node is finished. It says
the same as the next pop except while a producer has yet to link something to that node. Then there
is a node, and the pop reports a push in flight instead of giving it out. -/
theorem isEmpty_agrees_iff {k : Nat} {m : Links} {c : Container} {heap : Heap} {r : Popped Cell}
    (h : Arises k m w) (hr : w.stage = .finished r) (hc : c.stubQueue? = some w.queue)
    (hl : heap.links = w.links) :
    ((c.isEmpty heap = true ↔ (c.pop heap).1.item? = none) ↔ ¬ w.SecondUnlinked) ∧
      (c.isEmpty heap = true ↔ ∀ x ∈ w.waiting.head?, ¬ w.Finished x) ∧
      ((c.pop heap).1.item? = none ↔ c.isEmpty heap = true ∨ w.SecondUnlinked) ∧
      ((c.pop heap).1.events = [.pushInFlight] ↔ w.SecondUnlinked) := by
  obtain ⟨late, cs, hs⟩ := h.sound
  have hempty : c.isEmpty heap = w.queue.isEmpty w.links :=
    (Container.isEmpty_of_stubQueue? hc heap).trans (hl ▸ rfl)
  obtain ⟨wrap, rfl, -, hpop⟩ := Container.exists_wrap hc
  rw [hempty, hpop, hl]
  rcases hs.empty_cases hr with ⟨he, hp, hx⟩ | ⟨he, hp, ht⟩ | ⟨x, hm, he, hp, hx, ht⟩
  · have ht : ¬ w.SecondUnlinked := fun ⟨x, hm, hf, _⟩ => hx x hm hf
    rw [he, hp]
    simpa [Popped.filterMap, Popped.item?, Popped.events, ht] using hx
  · obtain ⟨x, hm, hf, -⟩ := id ht
    rw [he, hp]
    simpa [Popped.filterMap, Popped.item?, Popped.events, ht] using ⟨x, hm, hf⟩
  · rw [he, hp]
    simpa [Popped.filterMap, Popped.ofOption, Cell.node?, Popped.item?, Popped.events, ht] using
      ⟨x, hm, hx⟩

/-- The consumer takes node 5 for the last one and puts the stub behind it, but node 7 came first.
Nothing leads from node 5 to node 7 yet, so that the pop gives up. -/
def undecided : Traffic :=
  let w := ((start 0 .empty).announce 0 5).join 0 (.stub 0) (.node 5)
  let w := { w with stage := .enter }
  (w.access.access.access.announce 1 7).access.access.access

theorem arises_undecided : Arises 0 .empty undecided := by
  have h₀ : Arises 0 .empty (start 0 .empty) := .refl
  have h₁ := h₀.step (.announce _ 0 5 rfl rfl)
  have h₂ := h₁.step (.join _ 0 (.stub 0) (.node 5) rfl)
  have h₃ := h₂.step (.start _ .empty rfl)
  have h₄ := h₃.step (.access _ nofun)
  have h₅ := h₄.step (.access _ nofun)
  have h₆ := h₅.step (.access _ nofun)
  have h₇ := h₆.step (.announce _ 1 7 rfl rfl)
  have h₈ := h₇.step (.access _ nofun)
  have h₉ := h₈.step (.access _ nofun)
  exact h₉.step (.access _ nofun)

theorem unfinished_undecided (p : Nat) :
    undecided.unfinished p = if p = 1 then some (.node 5, .node 7) else none := by
  have hu : undecided.unfinished =
      (((start 0 .empty).announce 0 5).join 0 (.stub 0) (.node 5) |>.announce 1 7).unfinished := rfl
  rw [hu]
  by_cases h₁ : p = 1
  · simp [announce, join, start, StubQueue.announce, StubQueue.empty, h₁]
  · by_cases h₀ : p = 0 <;>
      simp [announce, join, start, StubQueue.announce, StubQueue.empty, h₁, h₀]

theorem secondUnlinked_undecided : undecided.SecondUnlinked := by
  refine ⟨5, rfl, fun p a hp => ?_, 1, .node 7, rfl⟩
  rw [unfinished_undecided] at hp
  split at hp <;> simp at hp

theorem isEmpty_disagrees_undecided :
    let c := Container.mpmc undecided.queue 4
    let heap : Heap := ⟨undecided.links, .empty, 1⟩
    Arises 0 .empty undecided ∧ undecided.stage = .finished .empty ∧ undecided.SecondUnlinked ∧
      c.isEmpty heap ≠ true ∧ (c.pop heap).1.item? = none ∧
      (c.pop heap).1.events = [.pushInFlight] := by
  intro c heap
  have hstage : undecided.stage = .finished .empty := rfl
  have hqueue : c.stubQueue? = some undecided.queue := rfl
  have hlinks : heap.links = undecided.links := rfl
  obtain ⟨-, hempty, hnone, hevents⟩ :=
    isEmpty_agrees_iff arises_undecided hstage hqueue hlinks
  have ht := secondUnlinked_undecided
  obtain ⟨x, hx, hf, -⟩ := id ht
  exact ⟨arises_undecided, hstage, ht, fun he => hempty.mp he x hx hf, hnone.mpr (Or.inr ht),
    hevents.mpr ht⟩

/-- With the push of node 5 finished and that of node 7 not, the queue does not say that it is
empty, and yet there is nothing to pop. -/
theorem isEmpty_disagrees : ¬ ∀ (w : Traffic) (r : Popped Cell) (c : Container) (heap : Heap),
    Arises 0 .empty w → w.stage = .finished r → c.stubQueue? = some w.queue →
      heap.links = w.links → (c.isEmpty heap = true ↔ (c.pop heap).1.item? = none) := by
  intro h
  let w := (((start 0 .empty).announce 0 5).join 0 (.stub 0) (.node 5)).announce 1 7
  have hw : Arises 0 .empty w := by
    have h₀ : Arises 0 .empty (start 0 .empty) := .refl
    have h₁ := h₀.step (.announce _ 0 5 rfl rfl)
    have h₂ := h₁.step (.join _ 0 (.stub 0) (.node 5) rfl)
    exact h₂.step (.announce _ 1 7 rfl rfl)
  have he := h w .empty (.mpsc w.queue) ⟨w.links, .empty, 1⟩ hw rfl rfl rfl
  revert he
  decide +kernel

end Traffic

end LinkedQueues

import LinkedQueues.Proofs.StubQueue.InLine
import LinkedQueues.StubQueue.Stage
import Mathlib.Logic.Function.Basic
import Mathlib.Logic.Relation

/-!
A stub queue in use by any number of producers and one consumer, who make their accesses to the
shared links in any order. Main result: however the accesses are mixed, the cells are handed out in
the order in which they were announced, and a cell that was handed out is left alone.
-/
namespace LinkedQueues

/-- What the consumer of a queue knows at each stage of a pop about the cells in line. -/
def Stage.Knows (q : StubQueue) (cs : List Cell) : Stage → Prop
  | .enter => True
  | .inspect | .compare | .relink _ | .recheck => q.head ≠ q.stub
  | .reinsert => q.head ≠ q.stub ∧ q.stub ∉ cs
  | .finished r => ∀ f, r ≠ .refused f

theorem Stage.Knows.snoc {q : StubQueue} {cs : List Cell} {s : Stage} {c : Cell}
    (h : s.Knows q cs) (hc : c ≠ q.stub) : s.Knows { q with tail := c } (cs ++ [c]) := by
  cases s with
  | reinsert => exact ⟨h.1, by simp [h.2, hc.symm]⟩
  | _ => exact h

structure Traffic where
  queue : StubQueue
  links : Links
  /-- The pop under way. A finished stage is the result of the last pop, and none is under way. -/
  stage : Stage
  /-- The tail that a producer found and the cell that it still has to link there. -/
  unfinished : Nat → Option (Cell × Cell)
  /-- Cells that were pushed and not handed out since. -/
  lent : Cell → Bool
  /-- The producer and the node of every first half of a push, in order. -/
  announced : List (Nat × Nat)
  /-- The cells that pops handed out, in order. -/
  returned : List Cell
  /-- What stopped a producer. -/
  fault : Option Fault

namespace Traffic

def start (k : Nat) (m : Links) : Traffic where
  queue := .empty (.stub k)
  links := m.clear (.stub k)
  stage := .finished .empty
  unfinished _ := none
  lent _ := false
  announced := []
  returned := []
  fault := none

def announce (w : Traffic) (p n : Nat) : Traffic :=
  let (q, m) := w.queue.announce w.links (.node n)
  { w with
    queue := q
    links := m
    lent := Function.update w.lent (.node n) true
    announced := w.announced ++ [(p, n)]
    unfinished :=
      if w.queue.tail = .node n then w.unfinished
      else Function.update w.unfinished p (some (w.queue.tail, .node n))
    fault := if w.queue.tail = .node n then some .pushedTwice else w.fault }

def join (w : Traffic) (p : Nat) (a c : Cell) : Traffic :=
  { w with links := w.links.join a c, unfinished := Function.update w.unfinished p none }

def access (w : Traffic) : Traffic :=
  let p := Popping.step ⟨w.stage, w.queue, w.links⟩
  let w' := { w with queue := p.queue, links := p.links, stage := p.stage }
  match p.stage with
  | .finished (.item c) =>
    { w' with lent := Function.update w.lent c false, returned := w.returned ++ [c] }
  | _ => w'

inductive Step : Traffic → Traffic → Prop
  /-- A producer between two pushes may push any node that the queue does not have. -/
  | announce (w : Traffic) (p n : Nat) (idle : w.unfinished p = none)
      (free : w.lent (.node n) = false) : Step w (w.announce p n)
  | join (w : Traffic) (p : Nat) (a c : Cell) (h : w.unfinished p = some (a, c)) :
      Step w (w.join p a c)
  | start (w : Traffic) (r : Popped Cell) (h : w.stage = .finished r) :
      Step w { w with stage := .enter }
  | access (w : Traffic) (h : ∀ r, w.stage ≠ .finished r) : Step w w.access

def Reachable (k : Nat) (m : Links) : Traffic → Prop := Relation.ReflTransGen Step (start k m)

/-- Each late link is still to be stored by somebody: by one producer, or by the consumer, who links
the stub. -/
structure Owed (w : Traffic) (late : Cell → Option Cell) : Prop where
  owed_iff : ∀ a b, late a = some b ↔
    (∃ p, w.unfinished p = some (a, b)) ∨ w.stage = .relink a ∧ b = w.queue.stub
  single : ∀ p p' a b b', w.unfinished p = some (a, b) → w.unfinished p' = some (a, b') → p = p'
  owner : ∀ p a b, w.unfinished p = some (a, b) → b ≠ w.queue.stub

/-- The cells `cs` are in line by the links and by those of `late`, which are still to be stored. -/
structure Sound (w : Traffic) (late : Cell → Option Cell) (cs : List Cell) : Prop where
  line : w.queue.LateLine w.links late cs
  owed : w.Owed late
  stub : ∀ n, w.queue.stub ≠ .node n
  lent_iff : ∀ n, w.lent (.node n) = true ↔ .node n ∈ cs
  logs : w.announced.map (fun x => Cell.node x.2) =
    w.returned ++ StubQueue.waiting w.queue.stub cs
  knows : w.stage.Knows w.queue cs
  fault : w.fault = none

variable {w w' : Traffic} {late : Cell → Option Cell} {cs : List Cell}

namespace Owed

/-- Who finds a tail without a late link comes to owe that link. -/
theorem announce (h : Owed w late) {p n : Nat} (idle : w.unfinished p = none)
    (ht : late w.queue.tail = none) (hn : w.queue.tail ≠ .node n) (hs : w.queue.stub ≠ .node n) :
    Owed (w.announce p n) (Function.update late w.queue.tail (some (.node n))) := by
  have hu (p' : Nat) : (w.announce p n).unfinished p' =
      if p' = p then some (w.queue.tail, .node n) else w.unfinished p' := by
    simp [Traffic.announce, hn, Function.update_apply]
  have hfree (p' : Nat) (b : Cell) : w.unfinished p' ≠ some (w.queue.tail, b) := by
    intro hp
    have hl := (h.owed_iff _ _).mpr (Or.inl ⟨p', hp⟩)
    simp [ht] at hl
  have hrelink : w.stage ≠ .relink w.queue.tail := by
    intro he
    have hl := (h.owed_iff _ _).mpr (Or.inr ⟨he, rfl⟩)
    simp [ht] at hl
  refine ⟨fun a b => ?_, fun p₁ p₂ a b b' h₁ h₂ => ?_, fun p' a b hp => ?_⟩
  · change _ ↔ _ ∨ w.stage = .relink a ∧ b = w.queue.stub
    by_cases ha : a = w.queue.tail
    · subst ha
      rw [Function.update_self]
      constructor
      · intro hb
        exact Or.inl ⟨p, by rw [hu, if_pos rfl, ← Option.some.inj hb]⟩
      · rintro (⟨p', hp⟩ | ⟨hr, -⟩)
        · by_cases he : p' = p
          · simp only [hu, he, if_true, Option.some.injEq, Prod.mk.injEq, true_and] at hp
            rw [hp]
          · rw [hu, if_neg he] at hp
            exact absurd hp (hfree p' b)
        · exact absurd hr hrelink
    · rw [Function.update_of_ne ha, h.owed_iff]
      refine or_congr (exists_congr fun p' => ?_) Iff.rfl
      rw [hu]
      by_cases he : p' = p
      · simp [he, idle, Ne.symm ha]
      · simp [he]
  · rw [hu] at h₁ h₂
    by_cases e₁ : p₁ = p <;> by_cases e₂ : p₂ = p
    · rw [e₁, e₂]
    · simp only [e₁, e₂, if_true, if_false, Option.some.injEq, Prod.mk.injEq] at h₁ h₂
      exact absurd (h₁.1 ▸ h₂) (hfree p₂ b')
    · simp only [e₁, e₂, if_true, if_false, Option.some.injEq, Prod.mk.injEq] at h₁ h₂
      exact absurd (h₂.1 ▸ h₁) (hfree p₁ b)
    · rw [if_neg e₁] at h₁
      rw [if_neg e₂] at h₂
      exact h.single p₁ p₂ a b b' h₁ h₂
  · change b ≠ w.queue.stub
    rw [hu] at hp
    by_cases he : p' = p
    · simp only [he, if_true, Option.some.injEq, Prod.mk.injEq] at hp
      exact hp.2 ▸ hs.symm
    · rw [if_neg he] at hp
      exact h.owner p' a b hp

theorem join (h : Owed w late) {p : Nat} {a c : Cell} (hp : w.unfinished p = some (a, c)) :
    Owed (w.join p a c) (Function.update late a none) := by
  have hu (p' : Nat) : (w.join p a c).unfinished p' =
      if p' = p then none else w.unfinished p' := by
    simp [Traffic.join, Function.update_apply]
  have hrelink : w.stage ≠ .relink a := by
    intro hr
    have hl := (h.owed_iff _ _).mpr (Or.inl ⟨p, hp⟩)
    rw [(h.owed_iff _ _).mpr (Or.inr ⟨hr, rfl⟩)] at hl
    exact h.owner p a c hp (Option.some.inj hl).symm
  refine ⟨fun x y => ?_, fun p₁ p₂ x y y' h₁ h₂ => ?_, fun p' x y h' => ?_⟩
  · change _ ↔ _ ∨ w.stage = .relink x ∧ y = w.queue.stub
    by_cases hx : x = a
    · subst hx
      simp only [Function.update_self, reduceCtorEq, hrelink, false_and, or_false, false_iff,
        not_exists]
      intro p' h'
      rw [hu] at h'
      by_cases he : p' = p
      · simp [he] at h'
      · rw [if_neg he] at h'
        exact he (h.single p' p x y c h' hp)
    · rw [Function.update_of_ne hx, h.owed_iff]
      refine or_congr (exists_congr fun p' => ?_) Iff.rfl
      rw [hu]
      by_cases he : p' = p
      · simp [he, hp, Ne.symm hx]
      · simp [he]
  · rw [hu] at h₁ h₂
    split at h₁
    · simp at h₁
    · split at h₂
      · simp at h₂
      · exact h.single p₁ p₂ x y y' h₁ h₂
  · rw [hu] at h'
    split at h'
    · simp at h'
    · exact h.owner p' x y h'

/-- An access of the consumer that neither begins nor ends to link the stub. -/
theorem of_unfinished (h : Owed w late) (hu : w'.unfinished = w.unfinished)
    (hq : w'.queue.stub = w.queue.stub) (hs : ∀ a, w.stage ≠ .relink a)
    (hs' : ∀ a, w'.stage ≠ .relink a) : Owed w' late := by
  refine ⟨fun a b => ?_, ?_, ?_⟩
  · rw [h.owed_iff, hu]
    simp [hs a, hs' a]
  · rw [hu]
    exact h.single
  · rw [hu, hq]
    exact h.owner

/-- The consumer finds a tail and has to link the stub there. -/
theorem reinsert (h : Owed w late) (hu : w'.unfinished = w.unfinished)
    (hq : w'.queue.stub = w.queue.stub) (ht : late w.queue.tail = none)
    (hs : ∀ a, w.stage ≠ .relink a) (hs' : w'.stage = .relink w.queue.tail) :
    Owed w' (Function.update late w.queue.tail (some w.queue.stub)) := by
  refine ⟨fun a b => ?_, by rw [hu]; exact h.single, by rw [hu, hq]; exact h.owner⟩
  rw [hu, hq, hs']
  by_cases ha : a = w.queue.tail
  · subst ha
    simp only [Function.update_self, Option.some.injEq, true_and]
    refine ⟨fun hb => Or.inr hb.symm, fun hb => (hb.resolve_left ?_).symm⟩
    rintro ⟨p, hp⟩
    have hl := (h.owed_iff _ _).mpr (Or.inl ⟨p, hp⟩)
    simp [ht] at hl
  · rw [Function.update_of_ne ha, h.owed_iff]
    simp [hs a, Ne.symm ha]

/-- The consumer has linked the stub. -/
theorem relink (h : Owed w late) {a : Cell} (hu : w'.unfinished = w.unfinished)
    (hq : w'.queue.stub = w.queue.stub) (hs : w.stage = .relink a)
    (hs' : ∀ a, w'.stage ≠ .relink a) : Owed w' (Function.update late a none) := by
  have ha : late a = some w.queue.stub := (h.owed_iff _ _).mpr (Or.inr ⟨hs, rfl⟩)
  refine ⟨fun x y => ?_, by rw [hu]; exact h.single, by rw [hu, hq]; exact h.owner⟩
  rw [hu]
  by_cases hx : x = a
  · subst hx
    simp only [Function.update_self, reduceCtorEq, hs', false_and, or_false, false_iff, not_exists]
    intro p hp
    have hl := (h.owed_iff _ _).mpr (Or.inl ⟨p, hp⟩)
    rw [ha] at hl
    exact h.owner p x y hp (Option.some.inj hl).symm
  · rw [Function.update_of_ne hx, h.owed_iff, hs]
    simp [hs' x, Ne.symm hx]

end Owed

theorem sound_start (k : Nat) (m : Links) : Sound (start k m) (fun _ => none) [.stub k] := by
  have hl : (StubQueue.empty (.stub k)).LateLine (m.clear (.stub k)) (fun _ => none) [.stub k] :=
    ⟨.empty _ (by simp), by simp⟩
  have ho : Owed (start k m) (fun _ => none) :=
    ⟨by simp [start], by simp [start], by simp [start]⟩
  exact ⟨hl, ho, by simp [start, StubQueue.empty], by simp [start],
    by simp [start, StubQueue.empty], by simp [Stage.Knows, start], rfl⟩

namespace Sound

theorem notMem (h : Sound w late cs) {n : Nat} (hn : w.lent (.node n) = false) :
    Cell.node n ∉ cs := by
  rw [← h.lent_iff, hn]
  simp

theorem announce (h : Sound w late cs) {p n : Nat} (idle : w.unfinished p = none)
    (free : w.lent (.node n) = false) : Sound (w.announce p n)
      (Function.update late w.queue.tail (some (.node n))) (cs ++ [.node n]) := by
  have hn := h.notMem free
  have ht : w.queue.tail ≠ .node n := fun he => hn (he ▸ h.line.inLine.tail_mem)
  have hs : Cell.node n ≠ w.queue.stub := Ne.symm (h.stub n)
  refine ⟨h.line.announce hn, h.owed.announce idle h.line.tail_none.2 ht (h.stub n), h.stub,
    fun k => ?_, ?_, h.knows.snoc hs, ?_⟩
  · by_cases hk : k = n
    · simp [Traffic.announce, hk]
    · simp [Traffic.announce, hk, h.lent_iff]
  · have hl : (w.announce p n).announced.map (fun x => Cell.node x.2) =
        (w.returned ++ StubQueue.waiting w.queue.stub cs) ++ [.node n] := by
      simp [Traffic.announce, h.logs]
    change _ = w.returned ++ StubQueue.waiting w.queue.stub (cs ++ [.node n])
    rw [hl, StubQueue.waiting_append, StubQueue.waiting_cons hs, List.append_assoc]
    rfl
  · simp [Traffic.announce, ht, h.fault]

theorem join (h : Sound w late cs) {p : Nat} {a c : Cell} (hp : w.unfinished p = some (a, c)) :
    Sound (w.join p a c) (Function.update late a none) cs :=
  ⟨h.line.join ((h.owed.owed_iff _ _).mpr (Or.inl ⟨p, hp⟩)), h.owed.join hp, h.stub, h.lent_iff,
    h.logs, h.knows, h.fault⟩

theorem start (h : Sound w late cs) {r : Popped Cell} (hr : w.stage = .finished r) :
    Sound { w with stage := .enter } late cs :=
  ⟨h.line, h.owed.of_unfinished rfl rfl (by simp [hr]) (by simp), h.stub, h.lent_iff, h.logs,
    trivial, h.fault⟩

/-- The consumer goes on without touching anything. -/
theorem turn (h : Sound w late cs) {s : Stage} (hr : ∀ a, w.stage ≠ .relink a)
    (hr' : ∀ a, s ≠ .relink a) (hk : s.Knows w.queue cs) : Sound { w with stage := s } late cs :=
  ⟨h.line, h.owed.of_unfinished rfl rfl hr hr', h.stub, h.lent_iff, h.logs, hk, h.fault⟩

theorem handOut (h : Sound w late cs) {b : Cell} (hb : w.links.read w.queue.head = some b)
    (hs : w.queue.head ≠ w.queue.stub) (hr : ∀ a, w.stage ≠ .relink a) :
    ∃ cs', Sound { w with
      queue := w.queue.advance b
      stage := .finished (.item w.queue.head)
      lent := Function.update w.lent w.queue.head false
      returned := w.returned ++ [w.queue.head] } late cs' := by
  obtain ⟨rest, rfl, hl⟩ := h.line.advance hb
  have hd := List.nodup_cons.mp h.line.inLine.nodup
  refine ⟨b :: rest, hl, h.owed.of_unfinished rfl rfl hr (by simp), h.stub, fun k => ?_, ?_,
    by simp [Stage.Knows], h.fault⟩
  · by_cases hk : Cell.node k = w.queue.head
    · simp [hk, hd.1]
    · have hi := h.lent_iff k
      rw [List.mem_cons] at hi
      simp [hk, hi]
  · have hg := h.logs
    rw [StubQueue.waiting_cons hs] at hg
    simpa [StubQueue.advance] using hg

theorem passStub (h : Sound w late cs) {b : Cell} (hb : w.links.read w.queue.head = some b)
    (hs : w.queue.head = w.queue.stub) (hr : ∀ a, w.stage ≠ .relink a) :
    ∃ cs', Sound { w with queue := w.queue.advance b, stage := .inspect } late cs' := by
  obtain ⟨rest, rfl, hl⟩ := h.line.advance hb
  have hd := List.nodup_cons.mp h.line.inLine.nodup
  refine ⟨b :: rest, hl, h.owed.of_unfinished rfl rfl hr (by simp), h.stub, fun k => ?_, ?_, ?_,
    h.fault⟩
  · have hk : Cell.node k ≠ w.queue.head := hs ▸ (h.stub k).symm
    have hi := h.lent_iff k
    rw [List.mem_cons] at hi
    simpa [hk] using hi
  · have hg := h.logs
    rw [hs, StubQueue.waiting_cons_stub] at hg
    simpa [StubQueue.advance] using hg
  · have hb' : b ≠ w.queue.stub := fun he => hd.1 (by simp [hs, he])
    exact hb'

theorem reinsert (h : Sound w late cs) (hst : w.stage = .reinsert) :
    Sound { w with
      queue := { w.queue with tail := w.queue.stub }
      links := w.links.clear w.queue.stub
      stage := .relink w.queue.tail }
      (Function.update late w.queue.tail (some w.queue.stub)) (cs ++ [w.queue.stub]) := by
  have hk := h.knows
  rw [hst] at hk
  refine ⟨h.line.announce hk.2, h.owed.reinsert rfl rfl h.line.tail_none.2 (by simp [hst]) rfl,
    h.stub, fun k => ?_, ?_, hk.1, h.fault⟩
  · have hn : Cell.node k ≠ w.queue.stub := Ne.symm (h.stub k)
    simp [h.lent_iff, hn]
  · simpa using h.logs

theorem relink (h : Sound w late cs) {a : Cell} (hst : w.stage = .relink a) :
    Sound { w with links := w.links.join a w.queue.stub, stage := .recheck }
      (Function.update late a none) cs := by
  have ha : late a = some w.queue.stub := (h.owed.owed_iff _ _).mpr (Or.inr ⟨hst, rfl⟩)
  have hk := h.knows
  rw [hst] at hk
  exact ⟨h.line.join ha, h.owed.relink rfl rfl hst (by simp), h.stub, h.lent_iff, h.logs, hk,
    h.fault⟩

end Sound

theorem access_eq {s : Stage} {q : StubQueue} {m : Links}
    (h : Popping.step ⟨w.stage, w.queue, w.links⟩ = ⟨s, q, m⟩) (hs : ∀ c, s ≠ .finished (.item c)) :
    w.access = { w with queue := q, links := m, stage := s } := by
  unfold access
  rw [h]
  dsimp only
  split
  · rename_i c
    exact absurd rfl (hs c)
  · rfl

theorem access_item {c : Cell} {q : StubQueue} {m : Links}
    (h : Popping.step ⟨w.stage, w.queue, w.links⟩ = ⟨.finished (.item c), q, m⟩) :
    w.access = { w with
      queue := q
      links := m
      stage := .finished (.item c)
      lent := Function.update w.lent c false
      returned := w.returned ++ [c] } := by
  unfold access
  rw [h]

/-- Wherever the consumer reads the link of a node in front, that node leaves if it leads on. -/
theorem Sound.read (h : Sound w late cs) {s : Stage} (hs : w.queue.head ≠ w.queue.stub)
    (hr : ∀ a, w.stage ≠ .relink a) (hr' : ∀ a, s ≠ .relink a)
    (hi : ∀ c, s ≠ .finished (.item c)) (hk : s.Knows w.queue cs)
    (hn : w.links.read w.queue.head = none →
      Popping.step ⟨w.stage, w.queue, w.links⟩ = ⟨s, w.queue, w.links⟩)
    (hl : ∀ b, w.links.read w.queue.head = some b → Popping.step ⟨w.stage, w.queue, w.links⟩ =
      ⟨.finished (.item w.queue.head), w.queue.advance b, w.links⟩) :
    ∃ late' cs', Sound w.access late' cs' := by
  cases hb : w.links.read w.queue.head with
  | none =>
    rw [access_eq (hn hb) hi]
    exact ⟨late, cs, h.turn hr hr' hk⟩
  | some b =>
    rw [access_item (hl b hb)]
    exact ⟨late, h.handOut hb hs hr⟩

/-- The stub in front is passed over, unless it leads nowhere. -/
theorem Sound.enter (h : Sound w late cs) (hst : w.stage = .enter)
    (hs : w.queue.head = w.queue.stub) : ∃ late' cs', Sound w.access late' cs' := by
  have hr (a : Cell) : w.stage ≠ .relink a := by simp [hst]
  cases hb : w.links.read w.queue.head with
  | none =>
    have he : Popping.step ⟨w.stage, w.queue, w.links⟩ = ⟨.finished .empty, w.queue, w.links⟩ := by
      simp only [hst, Popping.step, hb, if_pos hs]
    rw [access_eq he (by simp)]
    exact ⟨late, cs, h.turn hr (by simp) (by simp [Stage.Knows])⟩
  | some b =>
    have he : Popping.step ⟨w.stage, w.queue, w.links⟩ =
        ⟨.inspect, w.queue.advance b, w.links⟩ := by
      simp only [hst, Popping.step, hb, if_pos hs]
    rw [access_eq he (by simp)]
    exact ⟨late, h.passStub hb hs hr⟩

theorem Sound.access (h : Sound w late cs) (hf : ∀ r, w.stage ≠ .finished r) :
    ∃ late' cs', Sound w.access late' cs' := by
  have hk := h.knows
  cases hst : w.stage with
  | enter =>
    by_cases hs : w.queue.head = w.queue.stub
    · exact h.enter hst hs
    · apply h.read (s := .compare) hs (by simp [hst]) (by simp) (by simp) hs
      · intro hb
        simp only [hst, Popping.step, hb, if_neg hs]
      · intro b hb
        simp only [hst, Popping.step, hb, if_neg hs]
  | inspect =>
    rw [hst] at hk
    apply h.read (s := .compare) hk (by simp [hst]) (by simp) (by simp) hk
    · intro hb
      simp only [hst, Popping.step, hb]
    · intro b hb
      simp only [hst, Popping.step, hb]
  | compare =>
    have hr (a : Cell) : w.stage ≠ .relink a := by simp [hst]
    rw [hst] at hk
    by_cases ht : w.queue.head = w.queue.tail
    · have he : Popping.step ⟨w.stage, w.queue, w.links⟩ = ⟨.reinsert, w.queue, w.links⟩ := by
        simp only [hst, Popping.step, if_pos ht]
      have hcs := h.line.inLine.head_eq_tail_iff.mp ht
      rw [access_eq he (by simp)]
      exact ⟨late, cs, h.turn hr (by simp) ⟨hk, by rw [hcs]; simpa using Ne.symm hk⟩⟩
    · have he : Popping.step ⟨w.stage, w.queue, w.links⟩ =
          ⟨.finished .inFlight, w.queue, w.links⟩ := by
        simp only [hst, Popping.step, if_neg ht]
      rw [access_eq he (by simp)]
      exact ⟨late, cs, h.turn hr (by simp) (by simp [Stage.Knows])⟩
  | reinsert =>
    rw [hst] at hk
    have ht : w.queue.tail ≠ w.queue.stub := fun he => hk.2 (he ▸ h.line.inLine.tail_mem)
    have he : Popping.step ⟨w.stage, w.queue, w.links⟩ = ⟨.relink w.queue.tail,
        { w.queue with tail := w.queue.stub }, w.links.clear w.queue.stub⟩ := by
      simp only [hst, Popping.step, StubQueue.announce, if_neg ht]
    rw [access_eq he (by simp)]
    exact ⟨_, _, h.reinsert hst⟩
  | relink a =>
    have he : Popping.step ⟨w.stage, w.queue, w.links⟩ =
        ⟨.recheck, w.queue, w.links.join a w.queue.stub⟩ := by
      simp only [hst, Popping.step]
    rw [access_eq he (by simp)]
    exact ⟨_, _, h.relink hst⟩
  | recheck =>
    rw [hst] at hk
    apply h.read (s := .finished .empty) hk (by simp [hst]) (by simp) (by simp)
      (by simp [Stage.Knows])
    · intro hb
      simp only [hst, Popping.step, hb]
    · intro b hb
      simp only [hst, Popping.step, hb]
  | finished r => exact absurd hst (hf r)

theorem Sound.step (h : Sound w late cs) (st : Step w w') : ∃ late' cs', Sound w' late' cs' := by
  cases st with
  | announce p n idle free => exact ⟨_, _, h.announce idle free⟩
  | join p a c hp => exact ⟨_, _, h.join hp⟩
  | start r hr => exact ⟨_, _, h.start hr⟩
  | access hf => exact h.access hf

theorem Reachable.sound {k : Nat} {m : Links} (h : Reachable k m w) :
    ∃ late cs, Sound w late cs := by
  have hr : Relation.ReflTransGen Step (Traffic.start k m) w := h
  induction hr with
  | refl => exact ⟨_, _, sound_start k m⟩
  | tail hr st ih =>
    obtain ⟨late, cs, hs⟩ := ih hr
    exact hs.step st

@[simp] theorem links_access (w : Traffic) :
    w.access.links = (Popping.step ⟨w.stage, w.queue, w.links⟩).links := by
  unfold access
  dsimp only
  split <;> rfl

/-- What an access hands out is not lent any longer. -/
theorem lent_of_access {c : Cell} (h : w.access.returned = w.returned ++ [c]) :
    w.access.lent c = false := by
  unfold access at h ⊢
  dsimp only at h ⊢
  split at h
  · rename_i d _
    obtain rfl : d = c := by simpa using h
    simp
  · simp at h

theorem Step.lent_of_returned {c : Cell} (st : Step w w') (h : w'.returned = w.returned ++ [c]) :
    w'.lent c = false := by
  cases st with
  | announce => simp [Traffic.announce] at h
  | join => simp [Traffic.join] at h
  | start => simp at h
  | access => exact lent_of_access h

/-- The links of cells that are not in line stay as they are, but for that of a cell that is pushed
right now. -/
theorem Sound.links_eq (h : Sound w late cs) (st : Step w w') {n : Nat}
    (free : w.lent (.node n) = false) (free' : w'.lent (.node n) = false) :
    w'.links.read (.node n) = w.links.read (.node n) := by
  have hn := h.notMem free
  have hlate {a b : Cell} (ha : late a = some b) : a ≠ .node n :=
    fun he => hn (he ▸ (h.line.missing a b ha).2)
  cases st with
  | announce p k =>
    have hk : Cell.node k ≠ .node n := by
      intro he
      simp [Traffic.announce, he] at free'
    exact (Links.read_clear _ _ _).trans (if_neg hk)
  | join p a c hp =>
    have ha := hlate ((h.owed.owed_iff _ _).mpr (Or.inl ⟨p, hp⟩))
    exact (Links.read_join _ _ _ _).trans (if_neg ha)
  | start => rfl
  | access =>
    rw [links_access]
    cases hst : w.stage with
    | reinsert =>
      simp only [Popping.step, StubQueue.announce]
      split <;> exact (Links.read_clear _ _ _).trans (if_neg (h.stub n))
    | relink a =>
      have ha := hlate ((h.owed.owed_iff _ _).mpr (Or.inr ⟨hst, rfl⟩))
      exact (Links.read_join _ _ _ _).trans (if_neg ha)
    | enter => simp only [Popping.step]; split <;> (try split) <;> rfl
    | inspect => simp only [Popping.step]; split <;> rfl
    | compare => simp only [Popping.step]; split <;> rfl
    | recheck => simp only [Popping.step]; split <;> rfl
    | finished r => rfl

/-- Nobody will write the link of a cell that is not in line. -/
theorem Sound.free (h : Sound w late cs) {n : Nat} (hn : w.lent (.node n) = false) :
    w.queue.tail ≠ .node n ∧ ∀ p b, w.unfinished p ≠ some (.node n, b) := by
  have hm := h.notMem hn
  refine ⟨fun he => hm (he ▸ h.line.inLine.tail_mem), fun p b hp => ?_⟩
  exact hm (h.line.missing _ b ((h.owed.owed_iff _ _).mpr (Or.inl ⟨p, hp⟩))).2

theorem Sound.returned_prefix (h : Sound w late cs) :
    w.returned <+: w.announced.map fun x => Cell.node x.2 :=
  ⟨_, h.logs.symm⟩

theorem Sound.node_of_returned (h : Sound w late cs) {c : Cell} (hc : c ∈ w.returned) :
    ∃ n, c = .node n := by
  have hm := h.returned_prefix.subset hc
  obtain ⟨x, -, rfl⟩ := List.mem_map.mp hm
  exact ⟨x.2, rfl⟩

/-- Whatever comes out in order is in order also for each of those who put it in. -/
theorem filter_zip_prefix {α β : Type} {f : α → β} {xs : List β} {ys : List α} (p : α → Bool)
    (h : xs <+: ys.map f) :
    ((xs.zip ys).filter (fun x => p x.2)).map Prod.fst <+: (ys.filter p).map f := by
  induction xs generalizing ys with
  | nil => simp
  | cons x xs ih =>
    cases ys with
    | nil => simp at h
    | cons y ys =>
      rw [List.map_cons, List.cons_prefix_cons] at h
      rcases h with ⟨rfl, hp⟩
      have hi := ih hp
      cases hy : p y with
      | true => simpa [List.zip_cons_cons, hy] using hi
      | false => simpa [List.zip_cons_cons, hy] using hi

/-- In every state that a queue gets to: what was handed out is the beginning of what was announced,
in the same order, also producer by producer. The stub is not handed out, and neither a producer nor
the consumer finds that it pushes the tail. A cell that is handed out is not the tail, and nobody
still has to link something to it; until it is pushed again its link is not written. -/
theorem handed_out_in_order {k : Nat} {m : Links} (h : Reachable k m w) :
    w.returned <+: w.announced.map (fun x => Cell.node x.2) ∧
    (∀ p, ((w.returned.zip w.announced).filter fun x => x.2.1 = p).map Prod.fst <+:
      (w.announced.filter fun x => x.1 = p).map fun x => Cell.node x.2) ∧
    w.queue.stub ∉ w.returned ∧ w.fault = none ∧ (∀ f, w.stage ≠ .finished (.refused f)) ∧
    (∀ w' c, Step w w' → w'.returned = w.returned ++ [c] →
      w'.queue.tail ≠ c ∧ ∀ p b, w'.unfinished p ≠ some (c, b)) ∧
    (∀ w' n, Step w w' → w.lent (.node n) = false → w'.lent (.node n) = false →
      w'.links.read (.node n) = w.links.read (.node n)) := by
  obtain ⟨late, cs, hs⟩ := h.sound
  refine ⟨hs.returned_prefix, fun p => ?_, fun hm => ?_, hs.fault, fun f hf => ?_,
    fun w' c st hc => ?_, fun w' n st hn hn' => hs.links_eq st hn hn'⟩
  · exact filter_zip_prefix (fun x => decide (x.1 = p)) hs.returned_prefix
  · obtain ⟨n, hn⟩ := hs.node_of_returned hm
    exact hs.stub n hn
  · have hk := hs.knows
    rw [hf] at hk
    exact hk f rfl
  · obtain ⟨late', cs', hs'⟩ := hs.step st
    obtain ⟨n, rfl⟩ := hs'.node_of_returned (c := c) (by simp [hc])
    exact hs'.free (st.lent_of_returned hc)

/-- Node 5 is alone in line and the consumer takes it for the last one, when node 7 is announced.
The stub comes behind node 7, which nothing leads to yet. -/
def overtaken : Traffic :=
  let w := ((start 0 .empty).announce 0 5).join 0 (.stub 0) (.node 5)
  let w := { w with stage := .enter }
  let w := (w.access.access.access.announce 1 7).access.access
  (w.join 1 (.node 5) (.node 7)).access

theorem reachable_overtaken : Reachable 0 .empty overtaken := by
  have step {w w' : Traffic} (h : Reachable 0 .empty w) (st : Step w w') : Reachable 0 .empty w' :=
    Relation.ReflTransGen.tail h st
  have h₁ := step .refl (.announce _ 0 5 rfl rfl)
  have h₂ := step h₁ (.join _ 0 (.stub 0) (.node 5) rfl)
  have h₃ := step h₂ (.start _ .empty rfl)
  have h₄ := step h₃ (.access _ nofun)
  have h₅ := step h₄ (.access _ nofun)
  have h₆ := step h₅ (.access _ nofun)
  have h₇ := step h₆ (.announce _ 1 7 rfl rfl)
  have h₈ := step h₇ (.access _ nofun)
  have h₉ := step h₈ (.access _ nofun)
  have h₁₀ := step h₉ (.join _ 1 (.node 5) (.node 7) rfl)
  exact step h₁₀ (.access _ nofun)

theorem overtaken_in_order : Reachable 0 .empty overtaken ∧ overtaken.returned = [.node 5] ∧
    overtaken.returned <+: overtaken.announced.map fun x => Cell.node x.2 :=
  ⟨reachable_overtaken, rfl, (handed_out_in_order reachable_overtaken).1⟩

end Traffic

end LinkedQueues

import LinkedQueues.Container
import LinkedQueues.Proofs.StubQueue.Holds
import LinkedQueues.Proofs.StubQueue.Traffic
import Mathlib.Logic.Function.Iterate

/-!
A stub queue whose pops are whole, while pushes are still made in two halves. The stub never stands
behind a node then, and the answer of a pop is decided by the pushes of the two oldest nodes.
-/
namespace LinkedQueues

namespace StubQueue

variable {q : StubQueue} {m : Links} {late : Cell → Option Cell} {cs ns : List Cell}
  {a c x y : Cell}

def Arrived (late : Cell → Option Cell) (c : Cell) : Prop := ∀ a, late a ≠ some c

namespace LateLine

theorem congr {m' : Links} (h : LateLine q m late cs) (hs : ∀ c ∈ cs, m'.read c = m.read c) :
    LateLine q m' late cs := by
  refine ⟨h.inLine.congr fun c hc => by rw [hs c hc], fun a b ha => ?_⟩
  obtain ⟨hr, hm⟩ := h.missing a b ha
  exact ⟨by rw [hs a hm, hr], hm⟩

theorem succ_of_late (h : LateLine q m late cs) (ha : late a = some c) :
    (m.read a).or (late a) = some c := by
  rw [(h.missing a c ha).1, ha]
  rfl

theorem arrived_head (h : LateLine q m late (c :: cs)) : Arrived late c := by
  intro a ha
  have ht := h.inLine.trail
  rw [h.inLine.head_eq] at ht
  exact ht.next_ne_first (h.missing a c ha).2 (h.succ_of_late ha)

theorem arrived_iff (h : LateLine q m late (a :: c :: cs)) : Arrived late c ↔ late a = none := by
  have hs : (m.read a).or (late a) = some c := h.inLine.succ_head
  constructor
  · intro hc
    cases ha : late a with
    | none => rfl
    | some b =>
      rw [h.succ_of_late ha] at hs
      exact absurd (hs ▸ ha) (hc a)
  · intro hn b hb
    have ht : Trail (fun d => (m.read d).or (late d)) (some c) (c :: cs) none :=
      hs ▸ h.inLine.trail.2
    rcases List.mem_cons.mp (h.missing b c hb).2 with rfl | hm
    · rw [hn] at hb
      cases hb
    · exact ht.next_ne_first hm (h.succ_of_late hb)

theorem read_eq (h : LateLine q m late (a :: c :: cs)) (hc : Arrived late c) :
    m.read a = some c := by
  have hs : (m.read a).or (late a) = some c := h.inLine.succ_head
  rwa [h.arrived_iff.mp hc, Option.or_none] at hs

theorem read_eq_none (h : LateLine q m late (a :: c :: cs)) (hc : ¬ Arrived late c) :
    m.read a = none := by
  cases ha : late a with
  | none => exact absurd (h.arrived_iff.mpr ha) hc
  | some b => exact (h.missing a b ha).1

end LateLine

/-- What a pop has to answer when the cells `ns` wait, and what waits afterwards. -/
inductive Answers (late : Cell → Option Cell) : List Cell → Popped Cell → List Cell → Prop
  | empty (ns : List Cell) (h : ∀ x ∈ ns.head?, ¬ Arrived late x) : Answers late ns .empty ns
  | inFlight (x y : Cell) (ns : List Cell) (hx : Arrived late x) (hy : ¬ Arrived late y) :
      Answers late (x :: y :: ns) .inFlight (x :: y :: ns)
  | item (x : Cell) (ns : List Cell) (hx : Arrived late x) (hy : ∀ y ∈ ns.head?, Arrived late y) :
      Answers late (x :: ns) (.item x) ns

def Ready (q : StubQueue) (m : Links) (late : Cell → Option Cell) (ns : List Cell) : Prop :=
  q.stub ∉ ns ∧ (LateLine q m late ns ∨ LateLine q m late (q.stub :: ns))

/-- The pop of a ready queue: its answer, and the cells that wait afterwards. Without an element it
leaves the links and the tail alone, and the next pop does the same. -/
structure Outcome (q : StubQueue) (m : Links) (late : Cell → Option Cell) (ns ns' : List Cell) :
    Prop where
  answers : Answers late ns (q.pop m).1 ns'
  ready : Ready (q.pop m).2.1 (q.pop m).2.2 late ns'
  stub : (q.pop m).2.1.stub = q.stub
  again : (q.pop m).1.item? = none → (q.pop m).2.2 = m ∧ (q.pop m).2.1.tail = q.tail ∧
    (q.pop m).2.1.pop (q.pop m).2.2 = q.pop m

theorem Outcome.of_unchanged {r : Popped Cell} (hp : q.pop m = (r, q, m))
    (ha : Answers late ns r ns)
    (hr : Ready q m late ns) : Outcome q m late ns ns := by
  refine ⟨?_, ?_, ?_, fun _ => ⟨?_, ?_, ?_⟩⟩ <;> rw [hp]
  · exact ha
  · exact hr
  · exact hp

theorem Outcome.of_item (hp : (q.pop m).1 = .item x) (ha : Answers late ns (.item x) cs)
    (hr : Ready (q.pop m).2.1 (q.pop m).2.2 late cs) (hs : (q.pop m).2.1.stub = q.stub) :
    Outcome q m late ns cs :=
  ⟨hp ▸ ha, hr, hs, fun hn => by simp [hp, Popped.item?] at hn⟩

/-- The head is a node: it leaves unless the link behind it is late. -/
theorem LateLine.pop_node (h : LateLine q m late (x :: ns)) (hs : q.stub ∉ x :: ns) :
    ∃ ns', Outcome q m late (x :: ns) ns' := by
  have hx : q.head = x := h.inLine.head_eq
  have hne : q.head ≠ q.stub := by
    rintro he
    exact hs (by simp [← he, hx])
  have harr : Arrived late x := h.arrived_head
  cases ns with
  | nil =>
    rw [← hx] at h
    obtain ⟨hp, hl⟩ := h.popLast hne
    have hn : m.read q.head = none := by
      rw [h.inLine.head_eq_tail_iff.mpr rfl]
      exact h.tail_none.1
    have hp' := (pop_last hne hn).trans hp
    rw [hx] at hp'
    exact ⟨[], .of_item (by rw [hp']) (.item x [] harr (by simp))
      (by rw [hp', ← hx]; exact ⟨by simp, Or.inr hl⟩) (by rw [hp']; rfl)⟩
  | cons y ns =>
    by_cases hy : Arrived late y
    · have hb : m.read q.head = some y := hx ▸ h.read_eq hy
      have hp := pop_item hne hb
      obtain ⟨rest, he, hl⟩ := h.advance hb
      obtain ⟨-, rfl⟩ := List.cons.inj (List.cons.inj he).2
      exact ⟨_, .of_item (by rw [hp, hx]) (.item x _ harr (by simpa using hy))
        (by rw [hp]; exact ⟨fun hm => hs (List.mem_cons_of_mem _ hm), Or.inl hl⟩) (by rw [hp]; rfl)⟩
    · have hn : m.read q.head = none := hx ▸ h.read_eq_none hy
      have ht : q.head ≠ q.tail := fun he => by
        have hl := h.inLine.head_eq_tail_iff.mp he
        simp at hl
      have hp : q.pop m = (.inFlight, q, m) := by
        rw [pop_last hne hn, StubQueue.popLast, if_neg ht]
      exact ⟨_, .of_unchanged hp (.inFlight x y ns harr hy) ⟨hs, Or.inl h⟩⟩

/-- The stub is passed over once the link behind it is stored. -/
theorem Ready.pop (h : Ready q m late ns) : ∃ ns', Outcome q m late ns ns' := by
  rcases h with ⟨hs, h | h⟩
  · cases ns with
    | nil => simpa using h.inLine.eq_cons
    | cons x ns => exact h.pop_node hs
  · have hh : q.head = q.stub := h.inLine.head_eq
    cases ns with
    | nil =>
      have hn : m.read q.head = none := by
        rw [h.inLine.head_eq_tail_iff.mpr (by rw [hh])]
        exact h.tail_none.1
      exact ⟨[], .of_unchanged (pop_empty hh hn) (.empty [] (by simp)) ⟨hs, Or.inr h⟩⟩
    | cons x ns =>
      by_cases hx : Arrived late x
      · have hb : m.read q.head = some x := hh ▸ h.read_eq hx
        obtain ⟨rest, he, hl⟩ := h.advance hb
        obtain ⟨-, rfl⟩ := List.cons.inj (List.cons.inj he).2
        have hne : x ≠ q.stub := fun hxs => hs (by simp [hxs])
        have hp := pop_behind_stub hh hb hne
        obtain ⟨ns', ho⟩ := hl.pop_node (q := q.advance x) hs
        exact ⟨ns', by rw [hp]; exact ho.answers, by rw [hp]; exact ho.ready,
          by rw [hp]; exact ho.stub, by rw [hp]; exact ho.again⟩
      · have hn : m.read q.head = none := hh ▸ h.read_eq_none hx
        exact ⟨_, .of_unchanged (pop_empty hh hn) (.empty _ (by simpa using hx)) ⟨hs, Or.inr h⟩⟩

end StubQueue

namespace Traffic

open StubQueue (Arrived Answers Ready Outcome)

variable {w w' : Traffic} {late : Cell → Option Cell} {cs : List Cell} {ns : List Nat} {n : Nat}

def pop (w : Traffic) : Traffic :=
  let p := w.queue.pop w.links
  { w with
    queue := p.2.1
    links := p.2.2
    stage := .finished p.1
    lent := p.1.item?.elim w.lent fun c => Function.update w.lent c false
    returned := w.returned ++ p.1.item?.toList }

/-- Producers make the halves of their pushes in any order, but nobody comes in between a pop. The
links of cells that the queue does not have may change at any time. -/
inductive Turn : Traffic → Traffic → Prop
  | announce (w : Traffic) (p n : Nat) (idle : w.unfinished p = none)
      (free : w.lent (.node n) = false) : Turn w (w.announce p n)
  | join (w : Traffic) (p : Nat) (a c : Cell) (h : w.unfinished p = some (a, c)) :
      Turn w (w.join p a c)
  | pop (w : Traffic) : Turn w w.pop
  | elsewhere (w : Traffic) (m : Links) (stub : m.read w.queue.stub = w.links.read w.queue.stub)
      (same : ∀ c, w.lent c = true → m.read c = w.links.read c) : Turn w { w with links := m }

def waiting (w : Traffic) : List Nat := (w.announced.map Prod.snd).drop w.returned.length

/-- Nobody is between the two halves of a push of the node. -/
def Finished (w : Traffic) (n : Nat) : Prop := ∀ p a, w.unfinished p ≠ some (a, .node n)

namespace Sound

/-- A push is finished when its link is stored. -/
theorem finished_iff (h : Sound w late cs) (n : Nat) :
    w.Finished n ↔ Arrived late (.node n) := by
  constructor
  · intro hf a ha
    rcases (h.owed.owed_iff _ _).mp ha with ⟨p, hp⟩ | ⟨-, he⟩
    · exact hf p a hp
    · exact h.stub n he.symm
  · intro hf p a hp
    exact hf a ((h.owed.owed_iff _ _).mpr (Or.inl ⟨p, hp⟩))

theorem waiting_map (h : Sound w late cs) :
    w.waiting.map .node = StubQueue.waiting w.queue.stub cs := by
  have hl := congrArg (List.drop w.returned.length) h.logs
  rw [List.drop_left] at hl
  rw [← hl, waiting, List.map_drop, List.map_map]
  rfl

theorem elsewhere (h : Sound w late cs) {m : Links}
    (stub : m.read w.queue.stub = w.links.read w.queue.stub)
    (same : ∀ c, w.lent c = true → m.read c = w.links.read c) :
    Sound { w with links := m } late cs := by
  have hread (c : Cell) (hc : c ∈ cs) : m.read c = w.links.read c := by
    by_cases hst : c = w.queue.stub
    · rw [hst, stub]
    · have hm : c ∈ w.waiting.map .node := h.waiting_map ▸ StubQueue.mem_waiting.mpr ⟨hc, hst⟩
      obtain ⟨n, -, rfl⟩ := List.mem_map.mp hm
      exact same _ ((h.lent_iff n).mpr hc)
  exact ⟨h.line.congr hread, ⟨h.owed.owed_iff, h.owed.single, h.owed.owner⟩, h.stub, h.lent_iff,
    h.logs, h.knows, h.fault⟩

end Sound

/-- No pop is under way, and the nodes `ns` are in line, with the stub in front or nowhere. -/
structure BetweenPops (w : Traffic) (late : Cell → Option Cell) (ns : List Nat) : Prop where
  sound : ∃ front, (front = [] ∨ front = [w.queue.stub]) ∧ Sound w late (front ++ ns.map .node)
  idle : ∃ r, w.stage = .finished r

namespace BetweenPops

theorem stub_ne (h : BetweenPops w late ns) (n : Nat) : w.queue.stub ≠ .node n := by
  obtain ⟨front, -, hs⟩ := h.sound
  exact hs.stub n

theorem stub_notMem (h : BetweenPops w late ns) : w.queue.stub ∉ ns.map Cell.node := by
  intro hm
  obtain ⟨n, -, hn⟩ := List.mem_map.mp hm
  exact h.stub_ne n hn.symm

theorem ready (h : BetweenPops w late ns) : Ready w.queue w.links late (ns.map .node) := by
  obtain ⟨front, rfl | rfl, hs⟩ := h.sound
  · exact ⟨h.stub_notMem, Or.inl hs.line⟩
  · exact ⟨h.stub_notMem, Or.inr hs.line⟩

theorem logs (h : BetweenPops w late ns) :
    w.announced.map (fun x => Cell.node x.2) = w.returned ++ ns.map .node := by
  obtain ⟨front, hf, hs⟩ := h.sound
  rw [hs.logs, StubQueue.waiting_append, StubQueue.waiting_eq_self h.stub_notMem]
  rcases hf with rfl | rfl <;> simp

theorem waiting_eq (h : BetweenPops w late ns) : w.waiting = ns := by
  have hinj : Function.Injective Cell.node := fun a b he => by simpa using he
  obtain ⟨front, hf, hs⟩ := h.sound
  apply List.map_injective_iff.mpr hinj
  rw [hs.waiting_map, StubQueue.waiting_append, StubQueue.waiting_eq_self h.stub_notMem]
  rcases hf with rfl | rfl <;> simp

theorem finished_iff (h : BetweenPops w late ns) (n : Nat) :
    w.Finished n ↔ Arrived late (.node n) := by
  obtain ⟨front, -, hs⟩ := h.sound
  exact hs.finished_iff n

theorem start (k : Nat) (m : Links) : BetweenPops (Traffic.start k m) (fun _ => none) [] :=
  ⟨⟨_, Or.inr rfl, sound_start k m⟩, _, rfl⟩

theorem announce (h : BetweenPops w late ns) {p : Nat} (idle : w.unfinished p = none)
    (free : w.lent (.node n) = false) : BetweenPops (w.announce p n)
      (Function.update late w.queue.tail (some (.node n))) (ns ++ [n]) := by
  obtain ⟨front, hf, hs⟩ := h.sound
  refine ⟨⟨front, hf, ?_⟩, h.idle⟩
  simpa using hs.announce idle free

theorem join (h : BetweenPops w late ns) {p : Nat} {a c : Cell}
    (hp : w.unfinished p = some (a, c)) :
    BetweenPops (w.join p a c) (Function.update late a none) ns := by
  obtain ⟨front, hf, hs⟩ := h.sound
  exact ⟨⟨front, hf, hs.join hp⟩, h.idle⟩

theorem answer_cases {r : Popped Cell} (h : Answers late (ns.map .node) r cs) :
    (r = .empty ∧ cs = ns.map .node ∧ ∀ x ∈ ns.head?, ¬ Arrived late (.node x)) ∨
    (r = .inFlight ∧ cs = ns.map .node ∧
      ∃ x y xs, ns = x :: y :: xs ∧ Arrived late (.node x) ∧ ¬ Arrived late (.node y)) ∨
    ∃ x xs, ns = x :: xs ∧ r = .item (.node x) ∧ cs = xs.map .node ∧
      Arrived late (.node x) ∧ ∀ y ∈ xs.head?, Arrived late (.node y) := by
  generalize hns : ns.map Cell.node = ds at h
  cases h with
  | empty _ h =>
    refine Or.inl ⟨rfl, rfl, fun x hx => h _ ?_⟩
    rw [← hns, List.head?_map, Option.mem_def.mp hx]
    rfl
  | inFlight _ _ _ hx hy =>
    obtain ⟨x, ys, rfl, rfl, hys⟩ := List.map_eq_cons_iff.mp hns
    obtain ⟨y, xs, rfl, rfl, -⟩ := List.map_eq_cons_iff.mp hys
    exact Or.inr (Or.inl ⟨rfl, rfl, x, y, xs, rfl, hx, hy⟩)
  | item _ _ hx hy =>
    obtain ⟨x, xs, rfl, rfl, rfl⟩ := List.map_eq_cons_iff.mp hns
    refine Or.inr (Or.inr ⟨x, xs, rfl, rfl, rfl, hx, fun y hm => hy _ ?_⟩)
    rw [List.head?_map, Option.mem_def.mp hm]
    rfl

theorem lent_iff (h : BetweenPops w late ns) (n : Nat) : w.lent (.node n) = true ↔ n ∈ ns := by
  obtain ⟨front, hf, hs⟩ := h.sound
  rw [hs.lent_iff]
  rcases hf with rfl | rfl
  · simp
  · simp [Ne.symm (hs.stub n)]

theorem of_ready {r : Popped Cell} (hr : Ready w.queue w.links late (ns.map .node))
    (owed : w.Owed late) (stub : ∀ n, w.queue.stub ≠ .node n)
    (lent : ∀ n, w.lent (.node n) = true ↔ n ∈ ns)
    (logs : w.announced.map (fun x => Cell.node x.2) = w.returned ++ ns.map .node)
    (hst : w.stage = .finished r) (hnf : ∀ f, r ≠ .refused f) (fault : w.fault = none) :
    BetweenPops w late ns := by
  have hw := StubQueue.waiting_eq_self hr.1
  have hk : w.stage.Knows w.queue [] := hst ▸ hnf
  refine ⟨?_, r, hst⟩
  rcases hr.2 with hl | hl
  · refine ⟨[], Or.inl rfl, hl, owed, stub, fun n => by simp [lent n], ?_, ?_, fault⟩
    · rw [List.nil_append, hw]
      exact logs
    · rw [hst] at hk ⊢
      exact hk
  · refine ⟨[w.queue.stub], Or.inr rfl, hl, owed, stub, fun n => ?_, ?_, ?_, fault⟩
    · simp [lent n, Ne.symm (stub n)]
    · rw [List.singleton_append, StubQueue.waiting_cons_stub, hw]
      exact logs
    · rw [hst] at hk ⊢
      exact hk

theorem not_refused (h : BetweenPops w late ns) (f : Fault) :
    (w.queue.pop w.links).1 ≠ .refused f := by
  obtain ⟨cs, ho⟩ := h.ready.pop
  rcases answer_cases ho.answers with ⟨hr, -⟩ | ⟨hr, -⟩ | ⟨x, xs, -, hr, -⟩ <;> simp [hr]

theorem pop (h : BetweenPops w late ns) : ∃ ns', BetweenPops w.pop late ns' := by
  obtain ⟨cs, ho⟩ := h.ready.pop
  obtain ⟨front, -, hs⟩ := h.sound
  obtain ⟨r, hr⟩ := h.idle
  have howed : w.pop.Owed late :=
    hs.owed.of_unfinished rfl ho.stub (by simp [hr]) (by simp [Traffic.pop])
  have hstub (n : Nat) : w.pop.queue.stub ≠ .node n := by
    rw [Traffic.pop, ho.stub]
    exact hs.stub n
  have hnone (hi : (w.queue.pop w.links).1.item? = none) (hcs : cs = ns.map .node) :
      BetweenPops w.pop late ns := by
    refine of_ready (hcs ▸ ho.ready) howed hstub (fun n => ?_) ?_ rfl h.not_refused hs.fault
    · simp [Traffic.pop, hi, h.lent_iff]
    · simp [Traffic.pop, hi, h.logs]
  rcases answer_cases ho.answers with ⟨hp, hcs, -⟩ | ⟨hp, hcs, -⟩ | ⟨x, xs, rfl, hp, rfl, -⟩
  · exact ⟨ns, hnone (by rw [hp]; rfl) hcs⟩
  · exact ⟨ns, hnone (by rw [hp]; rfl) hcs⟩
  · refine ⟨xs, of_ready ho.ready howed hstub (fun n => ?_) ?_ rfl h.not_refused hs.fault⟩
    · have hd : x ∉ xs := by
        have hnd := hs.line.inLine.nodup
        rw [List.nodup_append, List.map_cons, List.nodup_cons] at hnd
        exact fun hm => hnd.2.1.1 (List.mem_map_of_mem hm)
      have hl := h.lent_iff n
      by_cases hn : n = x
      · simp [Traffic.pop, hp, Popped.item?, hn, hd]
      · simpa [Traffic.pop, hp, Popped.item?, hn] using hl
    · simp [Traffic.pop, hp, Popped.item?, h.logs]

theorem pop_nothing (h : BetweenPops w late ns)
    (hn : ((w.queue.pop w.links).1.filterMap Cell.node?).item? = none) :
    (w.queue.pop w.links).2.2 = w.links ∧ (w.queue.pop w.links).2.1.tail = w.queue.tail ∧
      (w.queue.pop w.links).2.1.pop (w.queue.pop w.links).2.2 = w.queue.pop w.links := by
  obtain ⟨cs, ho⟩ := h.ready.pop
  apply ho.again
  rcases answer_cases ho.answers with ⟨hr, -⟩ | ⟨hr, -⟩ | ⟨x, xs, -, hr, -⟩ <;> rw [hr] at hn ⊢
  · rfl
  · rfl
  · cases hn

/-- The oldest node leaves when its push is finished, and that of the node behind it too. -/
theorem item_iff (h : BetweenPops w late ns) (n : Nat) : (w.queue.pop w.links).1 = .item (.node n) ↔
    ∃ xs, w.waiting = n :: xs ∧ w.Finished n ∧ ∀ y ∈ xs.head?, w.Finished y := by
  obtain ⟨cs, ho⟩ := h.ready.pop
  simp only [h.finished_iff, h.waiting_eq]
  rcases answer_cases ho.answers with ⟨hr, -, hx⟩ | ⟨hr, -, x, y, xs, rfl, hx, hy⟩ |
    ⟨x, xs, rfl, hr, -, hx, hy⟩
  · rw [hr]
    refine ⟨nofun, ?_⟩
    rintro ⟨xs, rfl, hn, -⟩
    exact absurd hn (hx n rfl)
  · rw [hr]
    refine ⟨nofun, ?_⟩
    rintro ⟨zs, he, -, hz⟩
    obtain ⟨rfl, rfl⟩ := List.cons.inj he
    exact absurd (hz y rfl) hy
  · rw [hr]
    constructor
    · intro he
      obtain rfl : x = n := by simpa using he
      exact ⟨xs, rfl, hx, hy⟩
    · rintro ⟨zs, he, -, -⟩
      rw [(List.cons.inj he).1]

theorem inFlight_iff (h : BetweenPops w late ns) : (w.queue.pop w.links).1 = .inFlight ↔
    ∃ x y xs, w.waiting = x :: y :: xs ∧ w.Finished x ∧ ¬ w.Finished y := by
  obtain ⟨cs, ho⟩ := h.ready.pop
  simp only [h.finished_iff, h.waiting_eq]
  rcases answer_cases ho.answers with ⟨hr, -, hx⟩ | ⟨hr, -, x, y, xs, rfl, hx, hy⟩ |
    ⟨x, xs, rfl, hr, -, hx, hy⟩
  · rw [hr]
    refine ⟨nofun, ?_⟩
    rintro ⟨x, y, xs, rfl, hx', -⟩
    exact absurd hx' (hx x rfl)
  · exact ⟨fun _ => ⟨x, y, xs, rfl, hx, hy⟩, fun _ => hr⟩
  · rw [hr]
    refine ⟨nofun, ?_⟩
    rintro ⟨x', y, ys, he, -, hy'⟩
    obtain ⟨-, rfl⟩ := List.cons.inj he
    exact absurd (hy y rfl) hy'

theorem elsewhere (h : BetweenPops w late ns) {m : Links}
    (stub : m.read w.queue.stub = w.links.read w.queue.stub)
    (same : ∀ c, w.lent c = true → m.read c = w.links.read c) :
    BetweenPops { w with links := m } late ns := by
  obtain ⟨front, hf, hs⟩ := h.sound
  exact ⟨⟨front, hf, hs.elsewhere stub same⟩, h.idle⟩

theorem step (h : BetweenPops w late ns) (t : Turn w w') :
    ∃ late' ns', BetweenPops w' late' ns' := by
  cases t with
  | announce p n idle free => exact ⟨_, _, h.announce idle free⟩
  | join p a c hp => exact ⟨_, _, h.join hp⟩
  | pop => exact ⟨late, h.pop⟩
  | elsewhere m stub same => exact ⟨late, ns, h.elsewhere stub same⟩

end BetweenPops

def Orderly (k : Nat) (m : Links) : Traffic → Prop := Relation.ReflTransGen Turn (start k m)

theorem Orderly.betweenPops {k : Nat} {m : Links} (h : Orderly k m w) :
    ∃ late ns, BetweenPops w late ns := by
  have hr : Relation.ReflTransGen Turn (Traffic.start k m) w := h
  induction hr with
  | refl => exact ⟨_, _, .start k m⟩
  | tail _ t ih =>
    obtain ⟨late, ns, ht⟩ := ih ‹_›
    exact ht.step t

end Traffic

namespace Container

def stubQueue? : Container → Option StubQueue
  | mpsc q | spmc q _ | mpmc q _ => some q
  | stamped _ | chain _ | stack _ => none

/-- The three kinds with a stub pop in the same way. -/
theorem exists_wrap {c : Container} {q : StubQueue} (hc : c.stubQueue? = some q) :
    ∃ wrap : StubQueue → Container, c = wrap q ∧ (∀ p, (wrap p).stubQueue? = some p) ∧
      ∀ p h, (wrap p).pop h = ((p.pop h.links).1.filterMap Cell.node?, wrap (p.pop h.links).2.1,
        { h with links := (p.pop h.links).2.2 }) := by
  cases c with
  | mpsc p => exact ⟨mpsc, by simpa [stubQueue?] using hc, fun _ => rfl, fun _ _ => rfl⟩
  | spmc p s => exact ⟨(spmc · s), by simpa [stubQueue?] using hc, fun _ => rfl, fun _ _ => rfl⟩
  | mpmc p s => exact ⟨(mpmc · s), by simpa [stubQueue?] using hc, fun _ => rfl, fun _ _ => rfl⟩
  | stamped p => cases hc
  | chain p => cases hc
  | stack p => cases hc

def popAgain (r : Popped Nat × Container × Heap) : Popped Nat × Container × Heap := r.2.1.pop r.2.2

end Container

namespace Popped

theorem filterMap_node?_eq_item {p : Popped Cell} {n : Nat} :
    p.filterMap Cell.node? = .item n ↔ p = .item (.node n) := by
  cases p with
  | item c => cases c <;> simp [filterMap, ofOption, Cell.node?]
  | _ => simp [filterMap]

theorem events_filterMap_eq {α β : Type} {p : Popped α} {f : α → Option β} :
    (p.filterMap f).events = [.pushInFlight] ↔ p = .inFlight := by
  cases p with
  | item a => simp [filterMap]
  | _ => simp [filterMap, events]

theorem filterMap_ne_refused {α β : Type} {p : Popped α} {f : α → Option β} {e : Fault}
    (h : p ≠ .refused e) : p.filterMap f ≠ .refused e := by
  cases p with
  | item a => cases hf : f a <;> simp [filterMap, ofOption, hf]
  | empty => simp [filterMap]
  | inFlight => simp [filterMap]
  | refused _ => simpa [filterMap] using h

end Popped

namespace Traffic

variable {w : Traffic} {k : Nat} {m : Links} {c : Container} {heap : Heap}

/-- A pop of any of the three kinds, whatever is unfinished: the oldest node comes out exactly when
its push is finished, and that of the second oldest if there is one. A push in flight is reported
exactly when it is the second one that is missing. A pop without a node changes no link and not the
tail, and all further pops repeat it until a producer goes on. -/
theorem pop_decided_by_two_oldest (h : Orderly k m w) (hc : c.stubQueue? = some w.queue)
    (hl : heap.links = w.links) :
    let r := c.pop heap
    (∀ x, r.1 = .item x ↔
      ∃ xs, w.waiting = x :: xs ∧ w.Finished x ∧ ∀ y ∈ xs.head?, w.Finished y) ∧
    (∀ f, r.1 ≠ .refused f) ∧
    (r.1.events = [.pushInFlight] ↔
      ∃ x y xs, w.waiting = x :: y :: xs ∧ w.Finished x ∧ ¬ w.Finished y) ∧
    (r.1.item? = none → r.2.2 = heap ∧
      (∃ q, r.2.1.stubQueue? = some q ∧ q.tail = w.queue.tail) ∧
      ∀ n, (Container.popAgain^[n]) r = r) := by
  obtain ⟨late, ns, ht⟩ := h.betweenPops
  obtain ⟨wrap, rfl, hwrap, hpop⟩ := Container.exists_wrap hc
  intro r
  have hr : r = ((w.queue.pop w.links).1.filterMap Cell.node?, wrap (w.queue.pop w.links).2.1,
      { heap with links := (w.queue.pop w.links).2.2 }) := hl ▸ hpop w.queue heap
  refine ⟨fun x => ?_, fun f => ?_, ?_, fun hn => ?_⟩
  · rw [hr, Popped.filterMap_node?_eq_item, ht.item_iff]
  · rw [hr]
    exact Popped.filterMap_ne_refused (ht.not_refused f)
  · rw [hr, Popped.events_filterMap_eq, ht.inFlight_iff]
  · rw [hr] at hn
    obtain ⟨hm, htail, hagain⟩ := ht.pop_nothing hn
    have hheap : r.2.2 = heap := by rw [hr, hm, ← hl]
    have hfix : Container.popAgain r = r := by
      rw [Container.popAgain, hheap, hr, hpop, hl]
      rw [hm] at hagain
      rw [hagain]
    exact ⟨hheap, ⟨_, by rw [hr]; exact hwrap _, htail⟩, fun n => Function.iterate_fixed hfix n⟩

/-- The push of node `5` is finished, and that of node `7` is not. -/
def halfway : Traffic :=
  (((start 3 .empty).announce 0 5).join 0 (.stub 3) (.node 5)).announce 1 7

theorem orderly_halfway : Orderly 3 .empty halfway := by
  have step {w w' : Traffic} (h : Orderly 3 .empty w) (t : Turn w w') : Orderly 3 .empty w' :=
    Relation.ReflTransGen.tail h t
  have h₁ := step .refl (.announce _ 0 5 rfl rfl)
  have h₂ := step h₁ (.join _ 0 (.stub 3) (.node 5) rfl)
  exact step h₂ (.announce _ 1 7 rfl rfl)

theorem unfinished_halfway (p : Nat) :
    halfway.unfinished p = if p = 1 then some (.node 5, .node 7) else none := by
  by_cases h₁ : p = 1
  · simp [halfway, announce, join, start, StubQueue.announce, StubQueue.empty, h₁]
  · by_cases h₀ : p = 0 <;>
      simp [halfway, announce, join, start, StubQueue.announce, StubQueue.empty, h₁, h₀]

theorem pop_decided_halfway :
    let r := (Container.spmc halfway.queue 4).pop ⟨halfway.links, .empty, 9⟩
    Orderly 3 .empty halfway ∧ halfway.waiting = [5, 7] ∧ r.1.events = [.pushInFlight] ∧
      r.1.item? = none ∧ ∀ n, (Container.popAgain^[n]) r = r := by
  intro r
  have hlinks : (⟨halfway.links, .empty, 9⟩ : Heap).links = halfway.links := rfl
  obtain ⟨-, -, hevents, hagain⟩ :=
    pop_decided_by_two_oldest orderly_halfway (c := .spmc halfway.queue 4) rfl hlinks
  have hfirst : halfway.Finished 5 := by
    intro p a
    rw [unfinished_halfway]
    split <;> simp
  have hsecond : ¬ halfway.Finished 7 := fun h => h 1 (.node 5) rfl
  have hnone : r.1.item? = none := rfl
  exact ⟨orderly_halfway, rfl, hevents.mpr ⟨5, 7, [], rfl, hfirst, hsecond⟩, hnone,
    (hagain hnone).2.2⟩

end Traffic

end LinkedQueues

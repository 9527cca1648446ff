import LinkedQueues.Proofs.PoolQueue.Recycling
import LinkedQueues.Proofs.Session.Accounts

/-!
How many nodes pool queues have. The gauge of a queue follows the number of its values through the
commands and the replies, and remembers the largest one. With the sentinel, a queue has as many
nodes as it ever had values at once, or as it had in reserve at first.
-/
namespace LinkedQueues

namespace ValueQueue

variable {α : Type} {q : ValueQueue α} {vs : List α}

/-- What a push does to the number of nodes depends on the number of values alone. -/
theorem Holds.push_counted (h : q.Holds vs) (v : α) (allocates : Bool) :
    ((q.push v allocates).1 = .stored ∧ (q.push v allocates).2.nodes? = q.nodes? ∧
      ∀ n, q.nodes? = some n → vs.length + 1 ≠ n) ∨
    (allocates = true ∧ (q.push v allocates).1 = .grown (vs.length + 2) ∧
      (q.push v allocates).2.nodes? = some (vs.length + 2) ∧ q.nodes? = some (vs.length + 1)) ∨
    (allocates = false ∧ (q.push v allocates).1 = .failed ∧ (q.push v allocates).2 = q ∧
      ∀ n, q.nodes? = some n → vs.length + 1 = n) := by
  cases q with
  | pool q =>
    obtain ⟨free, lag, live, h⟩ := h
    have hidle := h.idle_eq_nil_iff
    rcases h.push_cases v allocates with ⟨hi, hp, hn⟩ | ⟨hi, ha, hp, hn⟩ | ⟨hi, ha, hp⟩
    · exact Or.inl ⟨hp, congrArg some hn, fun n he =>
        Option.some.inj he ▸ fun hl => hi (hidle.mpr hl)⟩
    · have hnodes := hidle.mp hi
      rw [← hnodes] at hp hn
      exact Or.inr (Or.inl ⟨ha, hp, congrArg some hn, congrArg some hnodes.symm⟩)
    · refine Or.inr (Or.inr ⟨ha, ?_, ?_, fun n he => Option.some.inj he ▸ hidle.mp hi⟩)
      · rw [ValueQueue.push, hp]
      · rw [ValueQueue.push, hp]
  | twoLock q =>
    cases allocates with
    | true => exact Or.inl ⟨rfl, rfl, fun n he => by cases he⟩
    | false => exact Or.inr (Or.inr ⟨rfl, rfl, rfl, fun n he => by cases he⟩)

theorem nodes?_pop (q : ValueQueue α) : q.pop.2.nodes? = q.nodes? := by
  cases q with
  | pool q => exact congrArg some (PoolQueue.nodes_pop q)
  | twoLock q =>
    rw [ValueQueue.pop]
    rfl

theorem exists_pool_of_nodes? {n : Nat} (h : q.nodes? = some n) :
    ∃ p, q = .pool p ∧ p.nodes = n := by
  cases q with
  | pool p => exact ⟨p, rfl, Option.some.inj h⟩
  | twoLock p => cases h

end ValueQueue

namespace Values

variable {α : Type}

/-- How many values a queue holds, and how many it ever held at once. -/
structure Gauge where
  id : Nat
  /-- So many nodes were in reserve at first. -/
  capacity : Nat
  held : Nat := 0
  peak : Nat := 0
  deriving DecidableEq

namespace Gauge

def blank (capacity id : Nat) : Gauge := { id := id, capacity := capacity }

def rise (g : Gauge) : Gauge := { g with held := g.held + 1, peak := max g.peak (g.held + 1) }

def fall (g : Gauge) (n : Nat) : Gauge := { g with held := g.held - n }

end Gauge

def Setup.capacity : Setup → Nat
  | .poolWithCapacity capacity _ => capacity
  | .pool | .twoLock _ => 0

def Command.gauge (b : Book Gauge) : Command α → Reply α → Book Gauge
  | .create slot setup, .done => b.place (.blank setup.capacity) slot
  | .push slot .., .done => b.enter slot .rise
  | .pop slot _, .items vs => b.enter slot (·.fall vs.length)
  | .take slot into, .done => b.take (.blank 0) slot into
  | .dispose slot, .done => b.dispose slot
  | .split slot producer consumer, .done => b.split slot producer consumer
  | .reclaim slot into, .flag true => b.reclaim slot into
  | _, _ => b

structure Gauged (e : ValueQueue α × Gauge) (vs : List α) : Prop where
  holds : e.1.Holds vs
  held : e.2.held = vs.length
  below : e.2.held ≤ e.2.peak
  nodes : ∀ n, e.1.nodes? = some n → n = 1 + max e.2.capacity e.2.peak

namespace Gauged

variable {q : ValueQueue α} {g : Gauge} {vs : List α}

theorem blank {capacity : Nat} (hq : q.Holds []) (hn : ∀ n, q.nodes? = some n → n = 1 + capacity)
    (id : Nat) : Gauged (q, .blank capacity id) [] := by
  refine ⟨hq, rfl, Nat.le_refl _, fun n he => ?_⟩
  rw [hn n he]
  exact congrArg (1 + ·) (Nat.max_zero capacity).symm

theorem leftBehind (spinCount : Nat) (q : ValueQueue α) (id : Nat) :
    Gauged (q.leftBehind spinCount, .blank 0 id) [] := by
  refine blank (.leftBehind spinCount q) (fun n he => ?_) id
  cases q with
  | pool q => exact (Option.some.inj he).symm
  | twoLock q => cases he

/-- A node is added exactly when the number of values passes both its peak and the reserve. -/
theorem push (h : Gauged (q, g) vs) {v : α} {allocates : Bool}
    (hf : (q.push v allocates).1 ≠ .failed) :
    Gauged ((q.push v allocates).2, g.rise) (vs ++ [v]) := by
  have hheld : g.held = vs.length := h.held
  have hbelow : g.held ≤ g.peak := h.below
  have hnodes : ∀ n, q.nodes? = some n → n = 1 + max g.capacity g.peak := h.nodes
  obtain ⟨hf', -⟩ | ⟨-, hh⟩ := h.holds.push v allocates
  · exact absurd hf' hf
  refine ⟨hh, by simp [Gauge.rise, hheld], Nat.le_max_right _ _, fun n he => ?_⟩
  simp only [Gauge.rise]
  rcases h.holds.push_counted v allocates with ⟨-, hn, hne⟩ | ⟨-, -, hn, hn'⟩ | ⟨-, hp, -⟩
  · have hn' := hnodes n (hn ▸ he)
    have hne' := hne n (hn ▸ he)
    omega
  · have hn'' := hnodes _ hn'
    rw [hn, Option.some.injEq] at he
    omega
  · exact absurd hp hf

theorem pop (h : Gauged (q, g) vs) :
    Gauged (q.pop.2, g.fall vs.head?.toList.length) vs.tail := by
  refine ⟨h.holds.pop.2, ?_, Nat.le_trans (Nat.sub_le ..) h.below, fun n he =>
    h.nodes n (q.nodes?_pop ▸ he)⟩
  have hheld : g.held = vs.length := h.held
  rw [Gauge.fall, hheld]
  cases vs <;> simp

end Gauged

structure Metered (p : Registry (ValueQueue α × Gauge)) (s : Session α) (b : Book Gauge) :
    Prop where
  covers : b.Covers Gauge.id p s.registry
  gauged : ∀ e ∈ p.queues, ∃ vs, Gauged e vs

/-- A push that finds no node in front of the head turns the queue of `e` into that of `e'`. -/
def Grows (c : Command α) (a : Answer α) (e e' : ValueQueue α × Gauge) : Prop :=
  ∃ slot v access n, c = .push slot v true access ∧ e.1.toList.length + 1 = n ∧
    e.1.nodes? = some n ∧ e'.1.nodes? = some (n + 1) ∧ a = ⟨.done, [.poolGrows (n + 1)]⟩

/-- The gauges of the book are right, and of the queues of `p` only those that had to grow have
another number of nodes now. -/
def Carries (p : Registry (ValueQueue α × Gauge)) (c : Command α) (a : Answer α) (s : Session α)
    (b : Book Gauge) : Prop :=
  ∃ p', Metered p' s b ∧ ∀ e ∈ p.queues, ∀ e' ∈ p'.queues, e'.2.id = e.2.id →
    e'.1.nodes? = e.1.nodes? ∨ Grows c a e e'

def Meters (p : Registry (ValueQueue α × Gauge)) (s : Session α) (b : Book Gauge) (c : Command α) :
    Prop :=
  let o := s.step c
  Carries p c o.answer o.session (c.gauge b o.answer.reply)

namespace Metered

variable {p : Registry (ValueQueue α × Gauge)} {s : Session α} {b b' : Book Gauge}
  {e : ValueQueue α × Gauge} {slot into : String} {access : Access} {c : Command α} {a : Answer α}
  {new : List (ValueQueue α × Gauge)} {vs : List α}
  {change : List (ValueQueue α × Gauge) × Registry (ValueQueue α × Gauge)}
  {change' : List (ValueQueue α) × Registry (ValueQueue α)}

theorem start (layout : Layout) : Metered (α := α) .empty (.start layout) {} := by
  have hq : (Registry.empty : Registry (ValueQueue α × Gauge)).queues = [] := rfl
  exact ⟨.empty, by simp [hq]⟩

theorem still (hm : Metered p s b) : Carries p c a s b :=
  ⟨p, hm, fun _ he _ he' hid => Or.inl (by rw [hm.covers.eq_of_number he he' hid])⟩

theorem query (hm : Metered p s b) (r : Option (Reply α)) :
    Carries p c (s.ofOption r).answer (s.ofOption r).session b := by
  cases r <;> exact hm.still

theorem settle (hm : Metered p s b) (hf : Book.Follows Gauge.id p b new change change' b')
    (hnew : ∀ e ∈ new, ∃ vs, Gauged e vs) : Carries p c a { s with registry := change'.2 } b' := by
  refine ⟨change.2, ⟨hf.covers hm.covers, fun e he => ?_⟩, fun e he e' he' hid =>
    Or.inl (by rw [hf.eq_of_number hm.covers he he' hid])⟩
  rcases List.mem_append.mp (hf.passes.perm.mem_iff.mp (List.mem_append_right change.1 he)) with
    he | he
  · exact hnew e he
  · exact hm.gauged e he

theorem setQueue {d : ValueQueue α × Gauge} (hm : Metered p s b) (hq : p.queue? slot = some e)
    (hd : Gauged d vs) (hid : d.2.id = e.2.id)
    (hn : d.1.nodes? = e.1.nodes? ∨ Grows c a e d) :
    Carries p c a (s.update slot d.1) (b.update slot d.2) := by
  refine ⟨p.setQueue slot d, ⟨hm.covers.setQueue hq hid, fun f hf => ?_⟩,
    fun f hf f' hf' hnumber => ?_⟩
  · have hmem := (Registry.setQueue_perm hq d).mem_iff.mp (List.mem_cons_of_mem e hf)
    rcases List.mem_cons.mp hmem with rfl | hmem
    · exact ⟨vs, hd⟩
    · exact hm.gauged f hmem
  · rcases hm.covers.eq_or_of_setQueue hq hid hf hf' hnumber with rfl | ⟨rfl, rfl⟩
    · exact Or.inl rfl
    · exact hn

theorem enter_eq (hm : Metered p s b) (hq : p.queue? slot = some e) (f : Gauge → Gauge) :
    b.enter slot f = b.update slot (f e.2) := by
  rw [Book.enter, (hm.covers.queue?_eq hq).2]

theorem create {setup : Setup} (hm : Metered p s b) : Meters p s b (.create slot setup) := by
  have hplace {q : ValueQueue α} {capacity : Nat} (hq : ∀ id, Gauged (q, .blank capacity id) []) :
      Carries p (.create slot setup) Reply.done.quiet
        (s.settle .done (s.registry.place slot (.owned q))).session
        (b.place (.blank capacity) slot) := by
    obtain ⟨change, hf⟩ := hm.covers.place (.blank capacity) (fun _ => rfl) slot q
    exact hm.settle hf (by simpa using ⟨[], hq b.opened⟩)
  cases setup with
  | pool => exact hplace (.blank .empty fun n he => (Option.some.inj he).symm)
  | twoLock spinCount => exact hplace (.blank (.twoLock spinCount) fun n he => by cases he)
  | poolWithCapacity capacity failAt =>
    rw [Meters, Session.step, Session.create]
    by_cases hf : failAt.any (· < capacity) = true
    · simp only [if_pos hf]
      exact hm.still
    · simp only [if_neg hf]
      exact hplace (.blank (.withCapacity capacity) fun n he =>
        (Option.some.inj he).symm.trans (PoolQueue.nodes_withCapacity capacity))

theorem push {v : α} {allocates : Bool} (hm : Metered p s b) :
    Meters p s b (.push slot v allocates access) := by
  have hproducing : s.producing? slot access =
      (p.producing? slot fun e => Session.usable access e.1).map Prod.fst := by
    rw [Session.producing?, hm.covers.queues, Registry.producing?_map]
  rw [Meters, Session.step, Session.push, hproducing]
  cases he : p.producing? slot fun e => Session.usable access e.1 with
  | none => exact hm.still
  | some e =>
    have hq := Registry.queue?_of_producing? he
    obtain ⟨vs, hg⟩ := hm.gauged e (Registry.queue?_mem_queues hq)
    have hset {a : Answer α} (hf : (e.1.push v allocates).1 ≠ .failed)
        (hn : (e.1.push v allocates).2.nodes? = e.1.nodes? ∨
          Grows (.push slot v allocates access) a e ((e.1.push v allocates).2, e.2.rise)) :=
      hm.enter_eq hq Gauge.rise ▸ hm.setQueue hq (hg.push hf) rfl hn
    simp only [Option.map_some]
    rcases hg.holds.push_counted v allocates with
      ⟨hp, hn, -⟩ | ⟨rfl, hp, hn, hn'⟩ | ⟨-, hp, hsame, -⟩
    · simp only [hp]
      exact hset (by simp [hp]) (Or.inl hn)
    · simp only [hp]
      refine hset (by simp [hp]) (Or.inr ⟨slot, v, access, vs.length + 1, rfl, ?_, hn', hn, rfl⟩)
      rw [hg.holds.toList_eq]
    · simp only [hp, hsame]
      rw [Session.update, Registry.setQueue_self (hm.covers.queue?_eq hq).1]
      exact hm.still

theorem pop (hm : Metered p s b) : Meters p s b (.pop slot access) := by
  have hconsuming : s.consuming? slot access =
      (p.consuming? slot fun e => Session.usable access e.1).map Prod.fst := by
    rw [Session.consuming?, hm.covers.queues, Registry.consuming?_map]
  rw [Meters, Session.step, Session.pop, hconsuming]
  cases he : p.consuming? slot fun e => Session.usable access e.1 with
  | none => exact hm.still
  | some e =>
    have hq := Registry.queue?_of_consuming? he
    obtain ⟨vs, hg⟩ := hm.gauged e (Registry.queue?_mem_queues hq)
    have hset := hm.setQueue (c := .pop slot access) (a := (Reply.items vs.head?.toList).quiet) hq
      hg.pop rfl (Or.inl (ValueQueue.nodes?_pop e.1))
    rw [← hm.enter_eq hq (·.fall vs.head?.toList.length)] at hset
    simp only [Option.map_some, hg.holds.pop.1]
    exact hset

theorem take (hm : Metered p s b) : Meters p s b (.take slot into) := by
  rw [Meters, Session.step, Session.take]
  cases hq : s.owned? slot with
  | none => exact hm.still
  | some q =>
    obtain ⟨change, hf⟩ := hm.covers.take (.blank 0) (fun _ => rfl) hq
      (q.leftBehind defaultSpinCount) into
    exact hm.settle hf (by simpa using ⟨[], Gauged.leftBehind defaultSpinCount q b.opened⟩)

theorem dispose (hm : Metered p s b) : Meters p s b (.dispose slot) := by
  rw [Meters, Session.step, Session.dispose]
  cases s.registry.holding? slot with
  | none => exact hm.still
  | some h =>
    obtain ⟨change, hf⟩ := hm.covers.dispose slot
    exact hm.settle hf (by simp)

theorem split {producer consumer : String} (hm : Metered p s b) :
    Meters p s b (.split slot producer consumer) := by
  rw [Meters, Session.step, Session.split]
  cases hq : s.owned? slot with
  | none => exact hm.still
  | some q =>
    by_cases hsplit : q.canSplit = true
    · obtain ⟨change, hf⟩ := hm.covers.split hq producer consumer
      simp only [if_pos hsplit]
      exact hm.settle hf (by simp)
    · simp only [if_neg hsplit]
      exact hm.still

theorem reclaim (hm : Metered p s b) : Meters p s b (.reclaim slot into) := by
  rw [Meters, Session.step, Session.reclaim]
  split
  · next id hh =>
    cases hu : s.registry.unshare slot id into with
    | none => exact hm.still
    | some change =>
      obtain ⟨c, hf⟩ := hm.covers.reclaim hh hu
      exact hm.settle hf (by simp)
  · exact hm.still

/-- Every single command keeps the gauges right. -/
theorem step (hm : Metered p s b) (hc : c.isSingle) : Meters p s b c := by
  cases c with
  | create slot setup => exact hm.create
  | push slot v allocates access => exact hm.push
  | pushAll => cases hc
  | pop slot access => exact hm.pop
  | drain => cases hc
  | isEmpty slot => exact hm.query _
  | nodes slot => exact hm.query _
  | spinCount slot => exact hm.query _
  | describe slot onLines => exact hm.query _
  | take slot into => exact hm.take
  | dispose slot => exact hm.dispose
  | split slot producer consumer => exact hm.split
  | reclaim slot into => exact hm.reclaim

theorem exists_gauge {q : ValueQueue α} (hm : Metered p s b)
    (hq : s.registry.queue? slot = some q) :
    ∃ g vs, p.queue? slot = some (q, g) ∧ b.registry.queue? slot = some g ∧ Gauged (q, g) vs := by
  rw [hm.covers.queues, Registry.queue?_map, Option.map_eq_some_iff] at hq
  obtain ⟨e, he, rfl⟩ := hq
  obtain ⟨vs, hg⟩ := hm.gauged e (Registry.queue?_mem_queues he)
  exact ⟨e.2, vs, he, (hm.covers.queue?_eq he).2, hg⟩

end Metered

structure Meter (α : Type) where
  session : Session α
  gauges : Book Gauge := {}

namespace Meter

def start (layout : Layout) : Meter α := { session := .start layout }

def step (m : Meter α) (c : Command α) : Meter α :=
  let o := m.session.step c
  ⟨o.session, c.gauge m.gauges o.answer.reply⟩

def run (m : Meter α) (cs : List (Command α)) : Meter α := cs.foldl step m

theorem metered_run {p : Registry (ValueQueue α × Gauge)} {m : Meter α}
    (hm : Metered p m.session m.gauges) {cs : List (Command α)} (hcs : ∀ c ∈ cs, c.isSingle) :
    ∃ p', Metered p' (m.run cs).session (m.run cs).gauges := by
  induction cs generalizing m p with
  | nil => exact ⟨p, hm⟩
  | cons c cs ih =>
    obtain ⟨p', hm', -⟩ := hm.step (hcs c List.mem_cons_self)
    exact ih (m := m.step c) hm' fun d hd => hcs d (List.mem_cons_of_mem c hd)

/-- How the number of nodes of a pool queue and the number of its values hang together. -/
structure Recycles (m : Meter α) : Prop where
  /-- There is the sentinel, and a node for each value that was ever held at the same time, unless
  there were more in reserve. -/
  counted : ∀ slot q, m.session.registry.queue? slot = some (.pool q) →
    ∃ g, m.gauges.registry.queue? slot = some g ∧ g.held = q.toList.length ∧
      q.nodes = 1 + max g.capacity g.peak
  /-- The number is the answer for whoever may ask. -/
  answered : ∀ slot q, m.session.registry.queue? slot = some (.pool q) →
    (∀ id, m.session.registry.holding? slot ≠ some (.consumer id)) →
    (m.session.step (.nodes slot)).answer = (Reply.number q.nodes).quiet
  /-- A push that finds a node needs no memory. -/
  reuses : ∀ slot q v allocates access, m.session.producing? slot access = some (.pool q) →
    q.toList.length + 1 ≠ q.nodes →
    let o := m.session.step (.push slot v allocates access)
    o.answer = Reply.done.quiet ∧
      ∃ q', o.session.registry.queue? slot = some (.pool q') ∧ q'.nodes = q.nodes
  /-- A push that finds none adds one. -/
  grows : ∀ slot q v access, m.session.producing? slot access = some (.pool q) →
    q.toList.length + 1 = q.nodes →
    let o := m.session.step (.push slot v true access)
    o.answer = ⟨.done, [.poolGrows (q.nodes + 1)]⟩ ∧
      ∃ q', o.session.registry.queue? slot = some (.pool q') ∧ q'.nodes = q.nodes + 1
  /-- Without memory for it the push fails, and everything stays as it is. -/
  fails : ∀ slot q v access, m.session.producing? slot access = some (.pool q) →
    q.toList.length + 1 = q.nodes →
    m.session.step (.push slot v false access) = ⟨m.session.outOfMemory, [v], m.session⟩
  /-- Nothing else changes the number of nodes of a queue, wherever the queue is afterwards. -/
  only : ∀ c : Command α, c.isSingle → ∀ slot into q q' g g',
    m.session.registry.queue? slot = some (.pool q) → m.gauges.registry.queue? slot = some g →
    (m.step c).session.registry.queue? into = some (.pool q') →
    (m.step c).gauges.registry.queue? into = some g' → g'.id = g.id → q'.nodes ≠ q.nodes →
    ∃ slot v access, c = .push slot v true access ∧ q.toList.length + 1 = q.nodes ∧
      q'.nodes = q.nodes + 1

variable {p : Registry (ValueQueue α × Gauge)} {m : Meter α} {slot into : String} {access : Access}
  {q q' : PoolQueue α} {g g' : Gauge} {v : α} {c : Command α}

theorem counted (hm : Metered p m.session m.gauges)
    (hq : m.session.registry.queue? slot = some (.pool q)) :
    ∃ g, m.gauges.registry.queue? slot = some g ∧ g.held = q.toList.length ∧
      q.nodes = 1 + max g.capacity g.peak := by
  obtain ⟨g, vs, -, hg, hright⟩ := hm.exists_gauge hq
  have hvs : q.toList = vs := hright.holds.toList_eq
  exact ⟨g, hg, hvs ▸ hright.held, hright.nodes q.nodes rfl⟩

theorem answered (hq : m.session.registry.queue? slot = some (.pool q))
    (hh : ∀ id, m.session.registry.holding? slot ≠ some (.consumer id)) :
    (m.session.step (.nodes slot)).answer = (Reply.number q.nodes).quiet := by
  have hn : m.session.nodes? slot = some q.nodes := by
    rw [Session.nodes?, hq]
    split
    · next id hc => exact absurd hc (hh id)
    · rfl
  rw [Session.step, hn]
  rfl

/-- The queue that a push works on, and where it is afterwards. -/
theorem pushed (hm : Metered p m.session m.gauges)
    (hp : m.session.producing? slot access = some (.pool q)) :
    m.session.registry.queue? slot = some (.pool q) ∧
      (∃ vs, (ValueQueue.pool q).Holds vs ∧ q.toList.length = vs.length) ∧
      ∀ d n, ValueQueue.nodes? d = some n →
        ∃ q', (m.session.update slot d).registry.queue? slot = some (.pool q') ∧ q'.nodes = n := by
  have hq := Registry.queue?_of_producing? hp
  obtain ⟨g, vs, -, -, hright⟩ := hm.exists_gauge hq
  refine ⟨hq, ⟨vs, hright.holds, congrArg List.length hright.holds.toList_eq⟩, fun d n hn => ?_⟩
  obtain ⟨q', rfl, hnodes⟩ := ValueQueue.exists_pool_of_nodes? hn
  refine ⟨q', ?_, hnodes⟩
  rw [Session.update, Registry.queue?_setQueue hq]

theorem reuses {allocates : Bool} (hm : Metered p m.session m.gauges)
    (hp : m.session.producing? slot access = some (.pool q)) (hn : q.toList.length + 1 ≠ q.nodes) :
    let o := m.session.step (.push slot v allocates access)
    o.answer = Reply.done.quiet ∧
      ∃ q', o.session.registry.queue? slot = some (.pool q') ∧ q'.nodes = q.nodes := by
  obtain ⟨-, ⟨vs, hh, hl⟩, hset⟩ := pushed hm hp
  rw [hl] at hn
  rcases hh.push_counted v allocates with ⟨hstored, hsame, -⟩ | ⟨-, -, -, hall⟩ | ⟨-, -, -, hall⟩
  · simp only [Session.step, Session.push, hp, hstored]
    exact ⟨rfl, hset _ _ hsame⟩
  · exact absurd (Option.some.inj hall).symm hn
  · exact absurd (hall _ rfl) hn

theorem grows (hm : Metered p m.session m.gauges)
    (hp : m.session.producing? slot access = some (.pool q)) (hn : q.toList.length + 1 = q.nodes) :
    let o := m.session.step (.push slot v true access)
    o.answer = ⟨.done, [.poolGrows (q.nodes + 1)]⟩ ∧
      ∃ q', o.session.registry.queue? slot = some (.pool q') ∧ q'.nodes = q.nodes + 1 := by
  obtain ⟨-, ⟨vs, hh, hl⟩, hset⟩ := pushed hm hp
  rw [hl] at hn
  rcases hh.push_counted v true with ⟨-, -, hidle⟩ | ⟨-, hgrown, hmore, -⟩ | ⟨hfalse, -⟩
  · exact absurd hn (hidle _ rfl)
  · simp only [Session.step, Session.push, hp, hgrown]
    rw [← hn]
    exact ⟨rfl, hset _ _ hmore⟩
  · cases hfalse

theorem fails (hm : Metered p m.session m.gauges)
    (hp : m.session.producing? slot access = some (.pool q)) (hn : q.toList.length + 1 = q.nodes) :
    m.session.step (.push slot v false access) = ⟨m.session.outOfMemory, [v], m.session⟩ := by
  obtain ⟨hq, ⟨vs, hh, hl⟩, -⟩ := pushed hm hp
  rw [hl] at hn
  rcases hh.push_counted v false with ⟨-, -, hidle⟩ | ⟨htrue, -⟩ | ⟨-, hfailed, hsame, -⟩
  · exact absurd hn (hidle _ rfl)
  · cases htrue
  · simp only [Session.step, Session.push, hp, hfailed, hsame]
    rw [Session.update, Registry.setQueue_self hq]

theorem only (hm : Metered p m.session m.gauges) (hc : c.isSingle)
    (hq : m.session.registry.queue? slot = some (.pool q))
    (hg : m.gauges.registry.queue? slot = some g)
    (hq' : (m.step c).session.registry.queue? into = some (.pool q'))
    (hg' : (m.step c).gauges.registry.queue? into = some g') (hid : g'.id = g.id)
    (hne : q'.nodes ≠ q.nodes) :
    ∃ slot v access, c = .push slot v true access ∧ q.toList.length + 1 = q.nodes ∧
      q'.nodes = q.nodes + 1 := by
  obtain ⟨p', hm', hkept⟩ := hm.step hc
  obtain ⟨d, -, he, hd, -⟩ := hm.exists_gauge hq
  obtain ⟨d', -, he', hd', -⟩ := hm'.exists_gauge hq'
  obtain rfl : d = g := Option.some.inj (hd.symm.trans hg)
  obtain rfl : d' = g' := Option.some.inj (hd'.symm.trans hg')
  rcases hkept _ (Registry.queue?_mem_queues he) _ (Registry.queue?_mem_queues he') hid with
    hsame | ⟨slot, v, access, n, rfl, hl, hn, hn', -⟩
  · exact absurd (Option.some.inj hsame) hne
  · obtain rfl : q.nodes = n := Option.some.inj hn
    exact ⟨slot, v, access, rfl, hl, Option.some.inj hn'⟩

/-- Whatever happens to a queue, it has as many nodes as it ever held values at once, or as it had
in reserve at first, and one more. -/
theorem run_recycles (layout : Layout) (cs : List (Command α)) (hcs : ∀ c ∈ cs, c.isSingle) :
    ((Meter.start layout).run cs).Recycles := by
  obtain ⟨p, hm⟩ := metered_run (m := .start layout) (.start layout) hcs
  exact ⟨fun _ _ hq => counted hm hq, fun _ _ hq hh => answered hq hh,
    fun _ _ _ _ _ hp hn => reuses hm hp hn, fun _ _ _ _ hp hn => grows hm hp hn,
    fun _ _ _ _ hp hn => fails hm hp hn,
    fun _ hc _ _ _ _ _ _ hq hg hq' hg' hid hne => only hm hc hq hg hq' hg' hid hne⟩

/-- The queue of "a" fills up, moves to "b", and comes back from its handles as "d". -/
def refilling : List (Command Nat) :=
  [.create "a" (.poolWithCapacity 2 none), .push "a" 1 false .direct, .push "a" 2 false .direct,
   .push "a" 3 false .direct, .push "a" 4 true .direct, .pop "a" .direct, .take "a" "b",
   .split "b" "p" "c", .push "p" 5 false .direct, .dispose "p", .reclaim "c" "d", .pop "d" .direct]

theorem run_recycles_refilling :
    let m := (Meter.start ⟨16, 8⟩).run refilling
    (∀ c ∈ refilling, c.isSingle) ∧ m.Recycles ∧
      m.gauges.registry.queue? "d" = some ⟨0, 2, 2, 3⟩ ∧
      (m.session.step (.nodes "d")).answer = (Reply.number 4).quiet ∧
      (m.session.step (.push "d" 6 false .direct)).answer = Reply.done.quiet ∧
      m.gauges.registry.queue? "a" = some ⟨1, 0, 0, 0⟩ ∧
      (m.session.step (.push "a" 6 false .direct)).answer = m.session.outOfMemory ∧
      (m.session.step (.push "a" 6 true .direct)).answer = ⟨.done, [.poolGrows 2]⟩ := by
  have hsingle : ∀ c ∈ refilling, c.isSingle := by decide
  exact ⟨hsingle, run_recycles ⟨16, 8⟩ refilling hsingle, by decide +kernel⟩

end Meter

end Values

end LinkedQueues

import LinkedQueues.Proofs.Session.Linkage

/-!
Nodes that go from one container to another while nobody touches their hooks. A node that comes out
of a queue with a stub is still linked, and a chain refuses it. An itinerary says so in advance, and
the session does exactly as it says.
-/
namespace LinkedQueues.Linked

/-- A ledger that also keeps how the nodes were used last. -/
structure Itinerary where
  ledger : Ledger
  past : Nat → Past

namespace Itinerary

def start (nodes : Nat) : Itinerary := ⟨.start nodes, fun _ => .untouched⟩

/-- A chain does not take a node whose link is left over from another container. -/
def Refuses (i : Itinerary) : Command → Prop
  | .push slot node access =>
    (i.past node).isLinked = true ∧ ∃ r ∈ i.ledger.producing? slot access, r.kind = .chain
  | _ => False

instance (i : Itinerary) : (c : Command) → Decidable (i.Refuses c)
  | .push .. => inferInstanceAs (Decidable (_ ∧ _))
  | .create .. | .pushRange .. | .pop .. | .drain .. | .isEmpty _ | .spinCount _ | .isLockFree _
  | .top _ | .describe .. | .take .. | .append .. | .dispose _ | .split .. | .clone .. | .reclaim ..
  | .toMpmc .. | .clear _ | .clearStamp _ | .isLinked _ | .stamp _ | .describeHook ..
  | .describeStampHook .. => isFalse id

def step (i : Itinerary) (c : Command) : Answer Nat × Itinerary :=
  if i.Refuses c then ((Reply.fault .stillLinked).quiet, i)
  else
    let (a, l) := i.ledger.step c
    (a, ⟨l, i.ledger.past i.past c⟩)

def run (i : Itinerary) (cs : List Command) : List (Answer Nat) × Itinerary := answerAll step i cs

/-- Containers are made, and nodes go in while they are in no container, and come out. -/
def Allows (i : Itinerary) : Command → Prop
  | .create slot .. => i.ledger.registry.isHeld slot = false
  | .push slot node access => node < i.ledger.nodes ∧
    ∀ r ∈ i.ledger.producing? slot access, i.ledger.Outside (r.kind.site node) ∧
      (r.kind = .stamped → r.pushed.length + 1 < UInt32.size)
  | .pop .. | .isEmpty _ | .top _ => True
  | _ => False

instance decidableAllows (i : Itinerary) : (c : Command) → Decidable (i.Allows c)
  | .create slot .. => inferInstanceAs (Decidable (i.ledger.registry.isHeld slot = false))
  | .push .. => inferInstanceAs (Decidable (_ ∧ _))
  | .pop .. | .isEmpty _ | .top _ => isTrue trivial
  | .pushRange .. | .drain .. | .spinCount _ | .isLockFree _ | .describe .. | .take .. | .append ..
  | .dispose _ | .split .. | .clone .. | .reclaim .. | .toMpmc .. | .clear _ | .clearStamp _
  | .isLinked _ | .stamp _ | .describeHook .. | .describeStampHook .. => isFalse id

def Keeps (i : Itinerary) : List Command → Prop
  | [] => True
  | c :: cs => i.Allows c ∧ (i.step c).2.Keeps cs

instance decidableKeeps (i : Itinerary) : (cs : List Command) → Decidable (i.Keeps cs)
  | [] => isTrue trivial
  | c :: cs =>
    have := decidableKeeps (i.step c).2 cs
    inferInstanceAs (Decidable (_ ∧ _))

end Itinerary

/-- A node that went in is still inside. -/
def StillInside (l : Ledger) (p : Nat → Past) : Prop :=
  ∀ n, p n = .entered → ∃ o r, l.registry.at? o = some r ∧ r.kind ≠ .stamped ∧ n ∈ r.waiting

namespace StillInside

variable {l : Ledger} {p g : Nat → Past} {r t : Roster} {slot : String} {access : Access}
  {n node : Nat}

theorem ne_entered (hh : StillInside l p) (hn : l.Outside (.cell (.node n))) : p n ≠ .entered := by
  intro he
  obtain ⟨o, r, ho, hk, hm⟩ := hh n he
  refine hn r (Registry.mem_queues_iff.mpr ⟨o, ho⟩) ?_
  rw [← Container.Kind.site_eq hk]
  exact Roster.site_mem_sites.mpr hm

theorem update (hh : StillInside l p) (hq : l.registry.queue? slot = some r) (hk : t.kind = r.kind)
    (hp : ∀ n, g n = .entered → (r.kind ≠ .stamped ∧ n ∈ t.waiting) ∨
      (p n = .entered ∧ (r.kind ≠ .stamped → n ∈ r.waiting → n ∈ t.waiting))) :
    StillInside (l.update slot t) g := by
  obtain ⟨o, howner, ho⟩ := Registry.exists_owner hq
  have hat := Registry.at?_setQueue howner ho t
  intro n hn
  rcases hp n hn with ⟨hst, hm⟩ | ⟨hpast, hstay⟩
  · exact ⟨o, t, by rw [Ledger.update, hat, Function.update_self], hk ▸ hst, hm⟩
  · obtain ⟨o', d, hd, hst, hm⟩ := hh n hpast
    by_cases ho' : o' = o
    · obtain rfl : r = d := Option.some.inj (ho.symm.trans (ho' ▸ hd))
      exact ⟨o, t, by rw [Ledger.update, hat, Function.update_self], hk ▸ hst, hstay hst hm⟩
    · exact ⟨o', d, by rw [Ledger.update, hat, Function.update_of_ne ho', hd], hst, hm⟩

theorem push (hh : StillInside l p) :
    StillInside (l.push slot node access).2 (l.past p (.push slot node access)) := by
  simp only [Ledger.push, Ledger.past]
  split
  · cases hr : l.producing? slot access with
    | none => exact hh
    | some r =>
      refine hh.update (g := mark p r.kind node .entered) (Registry.queue?_of_producing? hr) rfl
        fun n hn => ?_
      have hmem (m : Nat) : m ∈ (r.push node).waiting ↔ m = node ∨ m ∈ r.waiting := by
        rw [Roster.push]
        split <;> simp [or_comm]
      by_cases hnode : n = node
      · by_cases hk : r.kind = .stamped
        · rw [mark, if_pos hk] at hn
          exact Or.inr ⟨hn, fun hst => absurd hk hst⟩
        · exact Or.inl ⟨hk, (hmem n).mpr (Or.inl hnode)⟩
      · rw [mark_of_ne hnode] at hn
        exact Or.inr ⟨hn, fun _ hm => (hmem n).mpr (Or.inr hm)⟩
  · exact hh

theorem pop (hh : StillInside l p) :
    StillInside (l.pop slot access).2 (l.past p (.pop slot access)) := by
  simp only [Ledger.pop, Ledger.past]
  cases hr : l.consuming? slot access with
  | none => exact hh
  | some r =>
    have hq := Registry.queue?_of_consuming? hr
    cases hw : r.waiting with
    | nil =>
      simp only [hw, List.head?_nil]
      exact hh.update hq rfl fun n hn => Or.inr ⟨hn, fun _ hm => by simp [hw] at hm⟩
    | cons k ns =>
      simp only [hw, List.head?_cons]
      refine hh.update (t := r.pop) (g := mark p r.kind k (.left r.kind false)) hq rfl
        fun n hn => Or.inr ?_
      by_cases hk : r.kind = .stamped
      · rw [mark, if_pos hk] at hn
        exact ⟨hn, fun hst => absurd hk hst⟩
      · have hne : n ≠ k := by
          rintro rfl
          simp [mark_self hk] at hn
        rw [mark_of_ne hne] at hn
        exact ⟨hn, fun _ hm => by simpa [Roster.pop, hw, hne] using hm⟩

theorem place (hh : StillInside l p) (hfree : l.registry.isHeld slot = false) (r : Roster) :
    StillInside (l.place slot r) p := by
  have hnone : l.registry.holding? slot = none := by
    rwa [Registry.isHeld, Option.isSome_eq_false_iff, Option.isNone_iff_eq_none] at hfree
  intro n hn
  obtain ⟨o, t, ht, hk, hm⟩ := hh n hn
  refine ⟨o, t, ?_, hk, hm⟩
  have hne : o ≠ .name slot := by
    rintro rfl
    simp [Registry.at?, Registry.owned?, hnone] at ht
  simp only [Ledger.place, Registry.place, hnone]
  rw [Registry.at?_write_slot, Function.update_of_ne hne, ht]

theorem step {i : Itinerary} {c : Command} (hh : StillInside i.ledger i.past) (hc : i.Allows c) :
    StillInside (i.ledger.step c).2 (i.ledger.past i.past c) := by
  cases c with
  | push slot node access => exact hh.push
  | pop slot access => exact hh.pop
  | create slot kind byDefault spinCount =>
    simp only [Ledger.step, Ledger.create]
    split
    · exact hh
    · exact hh.place hc _
  | isEmpty slot =>
    simp only [Ledger.step, Ledger.isEmpty]
    split <;> exact hh
  | top slot =>
    simp only [Ledger.step, Ledger.top]
    split <;> exact hh
  | _ => exact hc.elim

end StillInside

structure Tracks (q : Registry Entry) (s : Session) (i : Itinerary) : Prop where
  agree : Agree q s i.ledger
  hooks : HooksMatch s.heap.links i.ledger i.past
  inside : StillInside i.ledger i.past

namespace Tracks

variable {q : Registry Entry} {s : Session} {i : Itinerary} {c : Command} {cs : List Command}
  {slot : String} {access : Access} {node : Nat}

theorem start {heap : Heap} (hclear : ∀ n, heap.links.isLinked (.node n) = false) (nodes : Nat) :
    Tracks .empty (.onHeap nodes heap) (.start nodes) :=
  ⟨.start nodes heap, .start hclear nodes, fun _ hn => by cases hn⟩

theorem isLinked_eq (h : Tracks q s i) (hn : i.ledger.Outside (.cell (.node node))) :
    s.heap.links.isLinked (.node node) = (i.past node).isLinked :=
  h.hooks.fits node (h.inside.ne_entered hn)

theorem step_refused (h : Tracks q s i) (hc : i.Allows c) (hr : i.Refuses c) :
    s.step c = ((Reply.fault .stillLinked).quiet, s) := by
  cases c with
  | push slot node access =>
    obtain ⟨hnode, hpromise⟩ := hc
    obtain ⟨hlinked, r, hr, hk⟩ := hr
    obtain ⟨t, hs, hl, hq⟩ := h.agree.producing? slot access
    rw [hl] at hr
    obtain ⟨e, rfl, rfl⟩ := Option.map_eq_some_iff.mp hr
    have hout := (hpromise e.roster hl).1
    rw [hk] at hout
    rw [← h.isLinked_eq hout] at hlinked
    cases hcon : e.container with
    | chain a =>
      have hpush : e.container.push s.heap node = (some .stillLinked, e.container, s.heap) := by
        simp [hcon, Container.push, ChainQueue.push, hlinked]
      have hqueue : s.registry.queue? slot = some e.container := by
        rw [h.agree.containers, Registry.queue?_map, hq e rfl, Option.map_some]
      rw [← h.agree.nodes] at hnode
      simp only [Session.step, Session.push, if_pos hnode, hs, Option.map_some, hpush]
      rw [Session.update, Registry.setQueue_self hqueue]
      rfl
    | _ => simp [← e.kind_eq, hcon, Container.kind] at hk
  | _ => exact hr.elim

/-- What is not refused is permitted. -/
theorem permits (h : Tracks q s i) (hc : i.Allows c) (hr : ¬ i.Refuses c) :
    i.ledger.Permits s.heap c := by
  cases c with
  | push slot node access =>
    intro r hmem
    obtain ⟨hout, hstamps⟩ := hc.2 r hmem
    refine ⟨hout, fun hk => ?_, hstamps⟩
    rw [hk] at hout
    rw [h.isLinked_eq hout, ← Bool.not_eq_true]
    exact fun hl => hr ⟨hl, r, hmem, hk⟩
  | create | pop | isEmpty | top => trivial
  | _ => exact hc.elim

theorem step (h : Tracks q s i) (hc : i.Allows c) :
    (s.step c).1 = (i.step c).1 ∧ ∃ q', Tracks q' (s.step c).2 (i.step c).2 := by
  by_cases hr : i.Refuses c
  · rw [h.step_refused hc hr, Itinerary.step, if_pos hr]
    exact ⟨rfl, q, h⟩
  · have hp := h.permits hc hr
    obtain ⟨hanswer, q', hagree⟩ := h.agree.step hp
    rw [Itinerary.step, if_neg hr]
    exact ⟨hanswer, q', hagree, h.hooks.step h.agree hp, h.inside.step hc⟩

theorem run (h : Tracks q s i) (ho : i.Keeps cs) :
    (s.run cs).1 = (i.run cs).1 ∧ ∃ q', Tracks q' (s.run cs).2 (i.run cs).2 := by
  induction cs generalizing q s i with
  | nil => exact ⟨rfl, q, h⟩
  | cons c cs ih =>
    obtain ⟨hanswer, q', h'⟩ := h.step ho.1
    obtain ⟨hanswers, hsettled⟩ := ih h' ho.2
    refine ⟨?_, hsettled⟩
    show (s.step c).1 :: _ = (i.step c).1 :: _
    exact congrArg₂ List.cons hanswer hanswers

/-- Only what the itinerary refuses comes to a fault. -/
theorem fault_iff (h : Tracks q s i) (hc : i.Allows c) (f : Fault) :
    (s.step c).1.reply = .fault f ↔ f = .stillLinked ∧ i.Refuses c := by
  by_cases hr : i.Refuses c
  · rw [h.step_refused hc hr]
    simp [Reply.quiet, hr, eq_comm]
  · rw [(h.step hc).1, Itinerary.step, if_neg hr]
    simp [hr, (i.ledger.step_uneventful c).2 f]

end Tracks

namespace Session

/-- All hooks are clear at the start, and nobody touches them afterwards: containers are made, nodes
are pushed while they are in no container, and popped. Then a push fails exactly when a node that
a queue with a stub gave back comes next to a chain, and this changes nothing. Besides, all
containers give back their nodes as their lists say. -/
theorem stale_links_are_refused (nodes : Nat) (heap : Heap) (cs : List Command)
    (hclear : ∀ n, heap.links.isLinked (.node n) = false) (ho : (Itinerary.start nodes).Keeps cs) :
    let s := (onHeap nodes heap).run cs
    let i := (Itinerary.start nodes).run cs
    s.1 = i.1 ∧
      (∀ r ∈ i.2.ledger.registry.queues, r.kind ≠ .stack → r.pushed = r.popped ++ r.waiting) ∧
      (∀ slot c, s.2.registry.queue? slot = some c →
        ∃ r, i.2.ledger.registry.queue? slot = some r ∧ c.kind = r.kind ∧
          (c.pop s.2.heap).1 = .ofOption r.waiting.head?) ∧
      ∀ c, i.2.Allows c →
        (∀ f, (s.2.step c).1.reply = .fault f ↔ f = .stillLinked ∧ i.2.Refuses c) ∧
          (i.2.Refuses c → (s.2.step c).2 = s.2) := by
  obtain ⟨hanswers, q, h⟩ := (Tracks.start hclear nodes).run ho
  refine ⟨hanswers, fun r hr => h.agree.roster_inOrder hr, fun slot c hc => ?_,
    fun c hc => ⟨h.fault_iff hc, fun hr => congrArg Prod.snd (h.step_refused hc hr)⟩⟩
  obtain ⟨e, rfl, hr, he⟩ := h.agree.exists_entry hc
  obtain ⟨e', h', hpop, -⟩ := he.pop
  exact ⟨e.roster, hr, e.kind_eq, by rw [hpop]⟩

/-- Node `0` comes out of a queue with a stub and is pushed into a chain, a stack, and the chain
again. -/
def transfer : List Command :=
  [.create "shared" .mpsc false none, .create "local" .chain false none,
   .create "pile" .stack false none, .push "shared" 0 .direct, .pop "shared" .direct,
   .push "local" 0 .direct, .push "pile" 0 .direct, .pop "pile" .direct, .push "local" 0 .direct,
   .pop "local" .direct, .push "shared" 0 .direct, .push "shared" 1 .direct, .pop "shared" .direct]

theorem transfer_is_refused :
    (Itinerary.start 2).Keeps transfer ∧
      ((onHeap 2 .empty).run transfer).1.map Answer.reply =
        [.done, .done, .done, .done, .item (some 0), .fault .stillLinked, .done, .item (some 0),
         .done, .item (some 0), .done, .done, .item (some 0)] ∧
      (((onHeap 2 .empty).run transfer).2.step (.push "local" 0 .direct)).1.reply =
        .fault .stillLinked := by
  have ho : (Itinerary.start 2).Keeps transfer := by decide +kernel
  obtain ⟨hanswers, -, -, hfault⟩ := stale_links_are_refused 2 .empty transfer isLinked_empty ho
  refine ⟨ho, ?_, ?_⟩
  · rw [hanswers]
    decide +kernel
  · exact ((hfault (.push "local" 0 .direct) (by decide +kernel)).1 .stillLinked).mpr
      ⟨rfl, by decide +kernel⟩

def handover : List Command :=
  [.create "a" .mpsc false none, .create "b" .chain false none, .push "a" 0 .direct,
   .pop "a" .direct, .push "b" 0 .direct]

/-- Nodes do not move freely. -/
theorem handover_fails :
    ¬ ∀ (nodes : Nat) (heap : Heap) (cs : List Command),
      (∀ n, heap.links.isLinked (.node n) = false) → (Itinerary.start nodes).Keeps cs →
        ∀ a ∈ ((onHeap nodes heap).run cs).1, ∀ f, a.reply ≠ .fault f := by
  intro h
  have hfault : (Reply.fault .stillLinked).quiet ∈ ((onHeap 1 .empty).run handover).1 := by
    decide +kernel
  exact h 1 .empty handover isLinked_empty (by decide +kernel) _ hfault .stillLinked rfl

end Session

end LinkedQueues.Linked

import LinkedQueues.Proofs.StubQueue.InLine

/-!
Stub queues between whole operations. No link is late then, and a queue holds a list of nodes: a
push appends to it, and a pop takes its first node.
-/
namespace LinkedQueues.StubQueue

variable {q : StubQueue} {m m' : Links} {late : Cell → Option Cell} {cs : List Cell}
  {ns : List Nat} {a b : Cell} {n : Nat}

theorem pop_empty (hs : q.head = q.stub) (hn : m.read q.head = none) :
    q.pop m = (.empty, q, m) := by
  simp only [pop, hn, if_pos hs]

theorem pop_item (hs : q.head ≠ q.stub) (hb : m.read q.head = some b) :
    q.pop m = (.item q.head, q.advance b, m) := by
  simp [pop, hb, hs]

theorem pop_last (hs : q.head ≠ q.stub) (hn : m.read q.head = none) : q.pop m = q.popLast m := by
  simp only [pop, hn, if_neg hs]

theorem pop_behind_stub (hs : q.head = q.stub) (ha : m.read q.head = some a) (hne : a ≠ q.stub) :
    q.pop m = (q.advance a).pop m := by
  have hne' : (q.advance a).head ≠ (q.advance a).stub := hne
  cases hb : m.read a with
  | none =>
    rw [pop_last hne' hb]
    simp only [pop, ha, if_pos hs, hb]
  | some b =>
    rw [pop_item hne' hb]
    simp only [pop, ha, if_pos hs, hb, advance]

theorem LateLine.popLast (h : LateLine q m late [q.head]) (hs : q.head ≠ q.stub) :
    q.popLast m = (.item q.head, .empty q.stub, (m.clear q.stub).join q.head q.stub) ∧
      LateLine (.empty q.stub) ((m.clear q.stub).join q.head q.stub) late [q.stub] := by
  have ht : q.head = q.tail := h.inLine.head_eq_tail_iff.mpr rfl
  have hts : q.tail ≠ q.stub := ht ▸ hs
  have hnone (a : Cell) : late a = none := by
    by_cases ha : a ∈ [q.head]
    · rw [List.mem_singleton.mp ha, ht]
      exact h.tail_none.2
    · exact h.late_of_notMem ha
  constructor
  · simp [StubQueue.popLast, push_of_ne q m hts, ht, StubQueue.advance, StubQueue.empty]
  · refine ⟨.empty _ ?_, fun x y hxy => ?_⟩
    · simp [hs, hnone]
    · simp [hnone] at hxy

/-- The queue holds exactly the nodes `ns`, the oldest first, and all their links are stored. -/
def Holds (q : StubQueue) (m : Links) (ns : List Nat) : Prop :=
  q.stub.node? = none ∧ ∃ cs, q.LateLine m (fun _ => none) cs ∧ waiting q.stub cs = ns.map .node

namespace Holds

theorem node_ne_stub (h : q.Holds m ns) (n : Nat) : Cell.node n ≠ q.stub := by
  intro he
  have hs := h.1
  simp [← he, Cell.node?] at hs

theorem empty {stub : Cell} (hs : stub.node? = none) (hn : m.read stub = none) :
    (StubQueue.empty stub).Holds m [] :=
  ⟨hs, [stub], ⟨.empty stub (by simp [hn]), by simp⟩, waiting_cons_stub⟩

theorem congr (h : q.Holds m ns) (hs : m'.read q.stub = m.read q.stub)
    (hn : ∀ n ∈ ns, m'.read (.node n) = m.read (.node n)) : q.Holds m' ns := by
  rcases h with ⟨hstub, cs, hl, hw⟩
  have same (c : Cell) (hc : c ∈ cs) : m'.read c = m.read c := by
    by_cases he : c = q.stub
    · rw [he, hs]
    · have hm : c ∈ ns.map Cell.node := hw ▸ mem_waiting.mpr ⟨hc, he⟩
      obtain ⟨n, hmem, rfl⟩ := List.mem_map.mp hm
      exact hn n hmem
  refine ⟨hstub, cs, ⟨hl.inLine.congr fun c hc => ?_, by simp⟩, hw⟩
  simp [same c hc]

theorem notMem (h : q.Holds m ns) (hn : n ∉ ns) {cs : List Cell}
    (hw : waiting q.stub cs = ns.map .node) : Cell.node n ∉ cs := by
  intro hc
  have hm : Cell.node n ∈ ns.map Cell.node := hw ▸ mem_waiting.mpr ⟨hc, h.node_ne_stub n⟩
  simp [hn] at hm

theorem tail_ne (h : q.Holds m ns) (hn : n ∉ ns) : q.tail ≠ .node n := by
  rcases id h with ⟨-, cs, hl, hw⟩
  exact fun he => h.notMem hn hw (he ▸ hl.inLine.tail_mem)

theorem push (h : q.Holds m ns) (hn : n ∉ ns) : ∃ q' m',
    q.push m (.node n) = (none, q', m') ∧ q'.Holds m' (ns ++ [n]) ∧ q'.stub = q.stub ∧
      ∀ c, c ≠ q.stub → c ∉ (ns ++ [n]).map Cell.node → m'.read c = m.read c := by
  rcases id h with ⟨hs, cs, hl, hw⟩
  have ht := h.tail_ne hn
  have hj := (hl.announce (h.notMem hn hw)).join (a := q.tail) (b := .node n) (by simp)
  refine ⟨_, _, push_of_ne q m ht, ⟨hs, cs ++ [.node n], ?_, ?_⟩, rfl, fun c hcs hc => ?_⟩
  · convert hj using 1
    funext a
    by_cases ha : a = q.tail <;> simp [ha]
  · rw [waiting_append, waiting_cons (h.node_ne_stub n), hw]
    simp
  · have hcn : Cell.node n ≠ c := by
      rintro rfl
      simp at hc
    have hct : q.tail ≠ c := by
      rintro rfl
      have hm := mem_waiting.mpr ⟨hl.inLine.tail_mem, hcs⟩
      rw [hw] at hm
      exact hc (by simpa using Or.inl (by simpa using hm))
    simp [hcn, hct]

end Holds

/-- The first cell in line but for the stub is the oldest node. -/
theorem exists_of_waiting {stub c : Cell} {cs : List Cell} (hc : c ≠ stub)
    (hw : waiting stub (c :: cs) = ns.map .node) :
    ∃ n ns', ns = n :: ns' ∧ c = .node n ∧ waiting stub cs = ns'.map .node := by
  rw [waiting_cons hc] at hw
  cases ns with
  | nil => simp at hw
  | cons n ns =>
    simp only [List.map_cons, List.cons.injEq] at hw
    exact ⟨n, ns, rfl, hw.1, hw.2⟩

/-- Without late links, only the last cell in line leads nowhere. -/
theorem LateLine.eq_singleton (h : LateLine q m (fun _ => none) cs) (hn : m.read q.head = none) :
    cs = [q.head] := by
  obtain ⟨rest, rfl⟩ := h.inLine.eq_cons
  have hs := h.inLine.succ_head
  rw [hn] at hs
  cases rest with
  | nil => rfl
  | cons d rest => simp at hs

namespace Holds

theorem popLast {q : StubQueue} (hs : q.stub.node? = none)
    (hl : q.LateLine m (fun _ => none) [.node n]) : ∃ q' m',
      q.popLast m = (.item (.node n), q', m') ∧ q'.Holds m' [] ∧ q'.stub = q.stub ∧
        ∀ c, c ≠ q.stub → c ≠ .node n → m'.read c = m.read c := by
  have hh : q.head = .node n := hl.inLine.head_eq
  have hne : q.head ≠ q.stub := by
    intro he
    simp [← he, hh, Cell.node?] at hs
  obtain ⟨hp, hl'⟩ := LateLine.popLast (by rwa [← hh] at hl) hne
  rw [hh] at hp hl'
  refine ⟨_, _, hp, ⟨hs, [q.stub], hl', waiting_cons_stub⟩, rfl, fun c hc hcn => ?_⟩
  simp [Ne.symm hc, Ne.symm hcn]

theorem pop_node {q : StubQueue} (hs : q.stub.node? = none)
    (hl : q.LateLine m (fun _ => none) cs) (hw : waiting q.stub cs = ns.map .node)
    (hne : q.head ≠ q.stub) : ∃ q' m',
      q.pop m = (.ofOption (ns.head?.map .node), q', m') ∧ q'.Holds m' ns.tail ∧
        q'.stub = q.stub ∧ ∀ c, c ≠ q.stub → c ∉ ns.map Cell.node → m'.read c = m.read c := by
  obtain ⟨rest, rfl⟩ := hl.inLine.eq_cons
  obtain ⟨n, ns', rfl, hn, hw'⟩ := exists_of_waiting hne hw
  cases hr : m.read q.head with
  | none =>
    obtain rfl : rest = [] := by simpa using hl.eq_singleton hr
    obtain rfl : ns' = [] := by simpa using hw'.symm
    obtain ⟨q', m', hp, hh, hq, hm⟩ := popLast (q := q) hs (hn ▸ hl)
    exact ⟨q', m', (pop_last hne hr).trans hp, hh, hq, fun c hc hcn => hm c hc (by simpa using hcn)⟩
  | some b =>
    obtain ⟨rest', he, hl'⟩ := hl.advance hr
    obtain ⟨-, rfl⟩ := List.cons.inj he
    have hp : q.pop m = (.item (.node n), q.advance b, m) := hn ▸ pop_item hne hr
    exact ⟨q.advance b, m, hp, ⟨hs, _, hl', hw'⟩, rfl, fun _ _ _ => rfl⟩

/-- A pop writes no links but those of the stub and of the node that it takes. -/
theorem pop (h : q.Holds m ns) : ∃ q' m',
    q.pop m = (.ofOption (ns.head?.map .node), q', m') ∧ q'.Holds m' ns.tail ∧ q'.stub = q.stub ∧
      ∀ c, c ≠ q.stub → c ∉ ns.map Cell.node → m'.read c = m.read c := by
  rcases id h with ⟨hs, cs, hl, hw⟩
  by_cases hst : q.head = q.stub
  · cases hr : m.read q.head with
    | none =>
      rw [hl.eq_singleton hr, hst, waiting_cons_stub] at hw
      obtain rfl : ns = [] := by simpa using hw.symm
      exact ⟨q, m, pop_empty hst hr, h, rfl, fun _ _ _ => rfl⟩
    | some a =>
      obtain ⟨rest, rfl, hl'⟩ := hl.advance hr
      have hne : a ≠ q.stub := by
        rintro rfl
        have hd := hl.inLine.nodup
        simp [hst] at hd
      rw [hst, waiting_cons_stub] at hw
      rw [pop_behind_stub hst hr hne]
      exact pop_node hs hl' hw hne
  · exact pop_node hs hl hw hst

theorem isEmpty_iff (h : q.Holds m ns) : q.isEmpty m = true ↔ ns = [] := by
  rcases h with ⟨hs, cs, hl, hw⟩
  obtain ⟨rest, rfl⟩ := hl.inLine.eq_cons
  have hhead : m.read q.head = rest.head? := by simpa using hl.inLine.succ_head
  by_cases hst : q.head = q.stub
  · rw [hst, waiting_cons_stub] at hw
    rw [hst] at hhead
    cases rest with
    | nil =>
      obtain rfl : ns = [] := by simpa using hw.symm
      simp [isEmpty, hst, Links.isLinked, hhead]
    | cons d rest =>
      have hd := hl.inLine.nodup
      have hne : d ≠ q.stub := by
        rintro rfl
        simp [hst] at hd
      obtain ⟨n, ns', rfl, -, -⟩ := exists_of_waiting hne hw
      simp [isEmpty, Links.isLinked, hhead]
  · obtain ⟨n, ns', rfl, -, -⟩ := exists_of_waiting hst hw
    simp [isEmpty, hst]

end Holds

end LinkedQueues.StubQueue

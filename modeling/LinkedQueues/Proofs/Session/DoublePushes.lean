import LinkedQueues.Proofs.Session.Linkage

/-!
Nodes that are pushed although they are in a container already. A chain notices every node that it
holds, a stack the one on top, and a queue with a stub the one at its tail. Where the mistake is
noticed nothing has changed, although a queue with a stub has written to the node by then.
-/
namespace LinkedQueues

theorem Links.clear_eq_self {m : Links} {c : Cell} (h : m.read c = none) : m.clear c = m := by
  rw [Links.clear, ← h, Store.write_read_self]

namespace StubQueue

variable {q : StubQueue} {m : Links} {ns : List Nat} {n : Nat}

theorem fault_push (q : StubQueue) (m : Links) (c : Cell) :
    (q.push m c).1 = if q.tail = c then some .pushedTwice else none := by
  split
  · next h => rw [← h, push_tail]
  · next h => rw [push_of_ne q m h]

theorem Holds.tail_eq_node_iff (h : q.Holds m ns) (hr : m.Row ns) :
    q.tail = .node n ↔ ns.getLast? = some n := by
  refine ⟨fun ht => ?_, h.tail_eq hr⟩
  have hmem : n ∈ ns := by
    by_contra hn
    exact h.tail_ne hn ht
  have hne : ns ≠ [] := List.ne_nil_of_mem hmem
  obtain ⟨t, hlast⟩ := Option.isSome_iff_exists.mp (List.getLast?_isSome.mpr hne)
  rw [h.tail_eq hr hlast, Cell.node.injEq] at ht
  exact ht ▸ hlast

/-- The tail leads nowhere, so that it loses nothing when it is pushed. -/
theorem Holds.push_tail_eq (h : q.Holds m ns) :
    q.push m q.tail = (some .pushedTwice, q, m) := by
  obtain ⟨-, cs, hl, -⟩ := h
  rw [push_tail, Links.clear_eq_self hl.tail_none.1]

theorem Holds.push_refused (h : q.Holds m ns) {c : Cell} {f : Fault}
    (hf : (q.push m c).1 = some f) : q.push m c = (some f, q, m) := by
  rw [fault_push] at hf
  split at hf
  · next ht =>
    obtain rfl := Option.some.inj hf
    exact ht ▸ h.push_tail_eq
  · cases hf

end StubQueue

theorem ChainQueue.Holds.push_of_mem {q : ChainQueue} {m : Links} {ns : List Nat} {n : Nat}
    (h : q.Holds m ns) (hn : n ∈ ns) : q.push m (.node n) = .error .stillLinked := by
  have hrow : m.Row ns := .of_trail h.trail
  refine if_pos ?_
  by_cases hlast : ns.getLast? = some n
  · exact Or.inl (h.last.trans (Links.Row.getLast?_map_node.mpr hlast))
  · exact Or.inr ((hrow.isLinked_iff hn).mpr hlast)

namespace ChainStack

variable {s : ChainStack} {m : Links} {ns : List Nat} {n : Nat}

theorem Holds.top_eq_node_iff (h : s.Holds m ns) : s.top = some (.node n) ↔ ns.head? = some n := by
  rw [h.top_eq, Option.map_eq_some_iff]
  simp

theorem push_of_top (h : s.top = some (.node n)) :
    s.push m (.node n) = .error .stillLinked := if_pos h

theorem push_of_ne (h : s.top ≠ some (.node n)) :
    s.push m (.node n) = .ok (⟨some (.node n)⟩, m.write (.node n) s.top) := if_neg h

end ChainStack

namespace Entry.Holds

variable {e : Entry} {h : Heap} {n : Nat} {f : Fault}

/-- A container that refuses a node is as it was, and so is the heap. -/
theorem push_refused (he : e.Holds h) (hf : (e.container.push h n).1 = some f) :
    e.container.push h n = (some f, e.container, h) := by
  have hstub {wrap : StubQueue → Container} {k : Container.Kind} {q : StubQueue}
      (w : Container.Wraps wrap k) (hq : e.container = wrap q)
      (hf : (Container.onLinks h wrap (q.push h.links (.node n))).1 = some f) :
      Container.onLinks h wrap (q.push h.links (.node n)) = (some f, wrap q, h) := by
    rw [Container.onLinks, (he.stub w hq).2.1.push_refused hf]
  cases hcon : e.container <;> rw [hcon] at hf
  case mpsc q => exact hstub Container.wraps_mpsc hcon hf
  case spmc q s => exact hstub (Container.wraps_spmc s) hcon hf
  case mpmc q s => exact hstub (Container.wraps_mpmc s) hcon hf
  case stamped q => cases hf
  all_goals
    simp only [Container.push] at hf ⊢
    split at hf
    · cases hf
    · obtain rfl := Option.some.inj hf
      rfl

theorem push_chain_inside (he : e.Holds h) (hk : e.roster.kind = .chain)
    (hn : n ∈ e.roster.waiting) : (e.container.push h n).1 = some .stillLinked := by
  rw [← e.kind_eq] at hk
  cases hcon : e.container with
  | chain q => simp only [Container.push, (he.chain hcon).2.1.push_of_mem hn]
  | _ => simp [hcon, Container.kind] at hk

theorem fault_push_stack (he : e.Holds h) (hk : e.roster.kind = .stack) :
    (e.container.push h n).1 =
      if e.roster.waiting.head? = some n then some .stillLinked else none := by
  rw [← e.kind_eq] at hk
  cases hcon : e.container with
  | stack s =>
    have htop := (he.stack hcon).2.1.top_eq_node_iff (n := n)
    split
    · next hn => simp only [Container.push, ChainStack.push_of_top (htop.mpr hn)]
    · next hn => simp only [Container.push, ChainStack.push_of_ne (mt htop.mp hn)]
  | _ => simp [hcon, Container.kind] at hk

theorem fault_push_stub (he : e.Holds h) (hk : e.roster.kind.hasStub = true)
    (hrow : h.links.Row e.roster.waiting) : (e.container.push h n).1 =
      if e.roster.waiting.getLast? = some n then some .pushedTwice else none := by
  have hstub {wrap : StubQueue → Container} {k : Container.Kind} {q : StubQueue}
      (w : Container.Wraps wrap k) (hq : e.container = wrap q) :
      (q.push h.links (.node n)).1 =
        if e.roster.waiting.getLast? = some n then some .pushedTwice else none := by
    rw [StubQueue.fault_push]
    exact if_congr ((he.stub w hq).2.1.tail_eq_node_iff hrow) rfl rfl
  rw [← e.kind_eq] at hk
  cases hcon : e.container with
  | mpsc q => exact hstub Container.wraps_mpsc hcon
  | spmc q s => exact hstub (Container.wraps_spmc s) hcon
  | mpmc q s => exact hstub (Container.wraps_mpmc s) hcon
  | _ => simp [hcon, Container.kind, Container.Kind.hasStub] at hk

end Entry.Holds

namespace Linked

namespace HooksMatch

variable {q : Registry Entry} {s : Session} {l : Ledger} {p : Nat → Past} {r : Roster} {n : Nat}
  {m : Links}

/-- Nothing needs to be known about the nodes of a session that starts. -/
theorem start_unknown (m : Links) (nodes : Nat) : HooksMatch m (.start nodes) fun _ => .entered :=
  ⟨.empty, fun _ => Past.fits_entered rfl⟩

theorem not_mem_of_left (ht : HooksMatch m l p) {o : Owner} (ho : l.registry.at? o = some r)
    (hk : r.kind ≠ .stamped) {k : Container.Kind} {cleared : Bool} (hn : p n = .left k cleared) :
    n ∉ r.waiting := by
  intro hm
  have hin := (ht.lined o r ho).inside hk n hm
  rw [hn] at hin
  cases hin

end HooksMatch

namespace Session

variable {s : Session} {slot : String} {node : Nat} {access : Access} {c : Container}

theorem push_eq (hn : node < s.nodes) (hc : s.producing? slot access = some c) :
    s.step (.push slot node access) = ((Reply.ofFault? (c.push s.heap node).1).quiet,
      s.update slot (c.push s.heap node).2.1 (c.push s.heap node).2.2) := by
  rw [step, push, if_pos hn, hc]
  rfl

/-- Callers kept their promises so far, and now any node is pushed to any container. A chain refuses
the node if it has it, wherever in line. A stack refuses it exactly if it is on top, and a queue
with a stub exactly if it is the last one in line, which no node is that came out. A refused push
changes neither the heap nor a container. -/
theorem fault_of_double_push (nodes : Nat) (heap : Heap) (cs : List Command)
    (ho : (onHeap nodes heap).Obeys (.start nodes) cs) :
    let s := ((onHeap nodes heap).run cs).2
    let l := ((Ledger.start nodes).run cs).2
    let past := (Ledger.start nodes).pasts (fun _ => .entered) cs
    ∀ slot node access c, node < s.nodes → s.producing? slot access = some c →
      ∃ r, l.producing? slot access = some r ∧ r.kind = c.kind ∧
        let a := s.step (.push slot node access)
        (c.kind = .chain → node ∈ r.waiting → a.1 = (Reply.fault .stillLinked).quiet) ∧
        (c.kind = .stack → a.1 = (Reply.ofFault?
          (if r.waiting.head? = some node then some .stillLinked else none)).quiet) ∧
        (c.kind.hasStub = true → a.1 = (Reply.ofFault?
          (if r.waiting.getLast? = some node then some .pushedTwice else none)).quiet) ∧
        (c.kind.hasStub = true → ∀ k cleared, past node = .left k cleared →
          a.1 = Reply.done.quiet) ∧
        ∀ f, a.1.reply = .fault f → a.2 = s := by
  intro s l past slot node access c hn hc
  have hstart := Agree.start nodes heap
  obtain ⟨-, p, ha⟩ := hstart.run ho
  have ht : HooksMatch s.heap.links l past :=
    (HooksMatch.start_unknown heap.links nodes).run (s := onHeap nodes heap) hstart ho
  obtain ⟨t, hs, hl, hq⟩ := ha.producing? slot access
  obtain ⟨e, rfl, rfl⟩ := Option.map_eq_some_iff.mp (hs.symm.trans hc)
  obtain ⟨o, -, hat⟩ := Registry.exists_owner (hq e rfl)
  have he := ha.separate.holds hat
  have hrow := (ht.lined_entry ha hat).row
  have hpush := push_eq hn hc
  have hkind : e.roster.kind = e.container.kind := e.kind_eq.symm
  refine ⟨e.roster, hl, hkind, ?_⟩
  have hstub (hk : e.container.kind.hasStub = true) :
      e.roster.kind ≠ .stamped ∧ (e.container.push s.heap node).1 =
        if e.roster.waiting.getLast? = some node then some .pushedTwice else none := by
    rw [← hkind] at hk
    have hst : e.roster.kind ≠ .stamped := fun he => by simp [he, Container.Kind.hasStub] at hk
    exact ⟨hst, he.fault_push_stub hk (hrow hst)⟩
  rw [hpush]
  refine ⟨fun hk hm => ?_, fun hk => ?_, fun hk => ?_, fun hk k cleared hleft => ?_, fun f hf => ?_⟩
  · rw [he.push_chain_inside (hkind.trans hk) hm]
    rfl
  · rw [he.fault_push_stack (hkind.trans hk)]
  · rw [(hstub hk).2]
  · have hout := ht.not_mem_of_left (ha.at?_eq hat).2 (hstub hk).1 hleft
    have hlast : e.roster.waiting.getLast? ≠ some node := fun h => hout (List.mem_of_getLast? h)
    rw [(hstub hk).2, if_neg hlast]
    rfl
  · have hfault : (e.container.push s.heap node).1 = some f := by
      cases hp : (e.container.push s.heap node).1 with
      | none => simp [hp, Reply.ofFault?, Reply.quiet] at hf
      | some g =>
        rw [hp] at hf
        exact congrArg some (Reply.fault.inj hf)
    have hqueue : s.registry.queue? slot = some e.container := by
      rw [ha.containers, Registry.queue?_map, hq e rfl, Option.map_some]
    rw [he.push_refused hfault, update, Registry.setQueue_self hqueue]

/-- A row of two chains, a pile, a queue whose producers have handles, and one that lost a node. -/
def crowded : List Command :=
  [.create "row" .chain false none, .create "end" .chain false none, .push "row" 0 .direct,
   .push "end" 1 .direct, .push "end" 2 .direct, .append "row" "end",
   .create "pile" .stack false none, .push "pile" 3 .direct, .push "pile" 4 .direct,
   .create "many" .mpsc false none, .split "many" "in" "out", .push "in" 5 .interface,
   .push "in" 6 .interface, .create "turns" .mpmc false none, .push "turns" 7 .direct,
   .push "turns" 8 .direct, .pop "turns" .direct]

theorem fault_of_double_push_crowded :
    (onHeap 9 .empty).Obeys (.start 9) crowded ∧
      let s := ((onHeap 9 .empty).run crowded).2
      s.step (.push "row" 1 .direct) = ((Reply.fault .stillLinked).quiet, s) ∧
        s.step (.push "pile" 4 .direct) = ((Reply.fault .stillLinked).quiet, s) ∧
        (s.step (.push "pile" 3 .direct)).1 = Reply.done.quiet ∧
        s.step (.push "in" 6 .interface) = ((Reply.fault .pushedTwice).quiet, s) ∧
        (s.step (.push "turns" 7 .direct)).1 = Reply.done.quiet := by
  have ho : (onHeap 9 .empty).Obeys (.start 9) crowded := by decide +kernel
  have hpush := fault_of_double_push 9 .empty crowded ho
  have hrow : ((Ledger.start 9).run crowded).2.producing? "row" .direct =
      some ⟨.chain, [0, 1, 2], [0, 1, 2], []⟩ := by decide +kernel
  have hpile : ((Ledger.start 9).run crowded).2.producing? "pile" .direct =
      some ⟨.stack, [4, 3], [3, 4], []⟩ := by decide +kernel
  have hmany : ((Ledger.start 9).run crowded).2.producing? "in" .interface =
      some ⟨.mpsc, [5, 6], [5, 6], []⟩ := by decide +kernel
  have hcontainer (slot : String) (access : Access)
      (h : (((onHeap 9 .empty).run crowded).2.producing? slot access).isSome = true) :
      ∃ c, ((onHeap 9 .empty).run crowded).2.producing? slot access = some c :=
    Option.isSome_iff_exists.mp h
  refine ⟨ho, ?_, ?_, ?_, ?_, ?_⟩
  · obtain ⟨c, hc⟩ := hcontainer "row" .direct (by decide +kernel)
    obtain ⟨r, hr, hk, hinside, -, -, -, hsame⟩ := hpush "row" 1 .direct c (by decide +kernel) hc
    obtain rfl := Option.some.inj (hrow.symm.trans hr)
    have hfault := hinside hk.symm (by decide)
    exact Prod.ext hfault (hsame _ (congrArg Answer.reply hfault))
  · obtain ⟨c, hc⟩ := hcontainer "pile" .direct (by decide +kernel)
    obtain ⟨r, hr, hk, -, htop, -, -, hsame⟩ := hpush "pile" 4 .direct c (by decide +kernel) hc
    obtain rfl := Option.some.inj (hpile.symm.trans hr)
    have hfault := htop hk.symm
    exact Prod.ext hfault (hsame _ (congrArg Answer.reply hfault))
  · obtain ⟨c, hc⟩ := hcontainer "pile" .direct (by decide +kernel)
    obtain ⟨r, hr, hk, -, htop, -⟩ := hpush "pile" 3 .direct c (by decide +kernel) hc
    obtain rfl := Option.some.inj (hpile.symm.trans hr)
    exact htop hk.symm
  · obtain ⟨c, hc⟩ := hcontainer "in" .interface (by decide +kernel)
    obtain ⟨r, hr, hk, -, -, hlast, -, hsame⟩ := hpush "in" 6 .interface c (by decide +kernel) hc
    obtain rfl := Option.some.inj (hmany.symm.trans hr)
    have hfault := hlast (hk ▸ rfl)
    exact Prod.ext hfault (hsame _ (congrArg Answer.reply hfault))
  · obtain ⟨c, hc⟩ := hcontainer "turns" .direct (by decide +kernel)
    obtain ⟨r, hr, hk, -, -, -, hleft, -⟩ := hpush "turns" 7 .direct c (by decide +kernel) hc
    have hkind : ((((Ledger.start 9).run crowded).2.producing? "turns" .direct).map Roster.kind) =
        some .mpmc := by decide +kernel
    rw [hr, Option.map_some, Option.some.injEq] at hkind
    exact hleft (hk ▸ hkind ▸ rfl) .mpmc false (by decide +kernel)

end Session

end Linked

end LinkedQueues

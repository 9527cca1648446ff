import LinkedQueues.Proofs.Container

/-!
The links between the nodes of a container. They lead from every node to the one that leaves after
it, and the last node leads nowhere, whatever cells a stub queue has in line besides. A node that
leaves keeps a link if it leaves a stub queue.
-/
namespace LinkedQueues

namespace Links

variable {m m' : Links} {a : Option Cell} {ns : List Nat} {n : Nat}

/-- Every node leads to the next one, and the last one nowhere. -/
def Row (m : Links) (ns : List Nat) : Prop :=
  Trail m.read (ns.head?.map .node) (ns.map .node) none

namespace Row

theorem nil (m : Links) : m.Row [] := rfl

theorem of_trail (h : Trail m.read a (ns.map .node) none) : m.Row ns := by
  have ha := h.start_eq
  rw [List.head?_map] at ha
  rwa [Row, ← ha]

theorem congr (h : m.Row ns) (hn : ∀ n ∈ ns, m'.read (.node n) = m.read (.node n)) : m'.Row ns := by
  refine Trail.congr h fun c hc => ?_
  obtain ⟨n, hm, rfl⟩ := List.mem_map.mp hc
  exact hn n hm

theorem tail (h : m.Row ns) : m.Row ns.tail := by
  cases ns with
  | nil => exact h
  | cons n ns => exact of_trail h.2

theorem nodup (h : m.Row ns) : ns.Nodup := List.Nodup.of_map _ (Trail.nodup h)

theorem getLast?_map_node {t : Nat} :
    (ns.map Cell.node).getLast? = some (.node t) ↔ ns.getLast? = some t := by
  rw [List.getLast?_map, Option.map_eq_some_iff]
  simp

theorem read_eq_none_iff (h : m.Row ns) (hn : n ∈ ns) :
    m.read (.node n) = none ↔ ns.getLast? = some n := by
  rw [← getLast?_map_node]
  exact Trail.next_eq_none_iff h (List.mem_map_of_mem hn)

theorem isLinked_iff (h : m.Row ns) (hn : n ∈ ns) :
    m.isLinked (.node n) = true ↔ ns.getLast? ≠ some n := by
  rw [isLinked, Option.isSome_iff_ne_none, Ne, h.read_eq_none_iff hn]

end Row

end Links

namespace StubQueue

variable {q : StubQueue} {m : Links} {cs : List Cell} {ns : List Nat} {n t : Nat}

theorem Holds.tail_eq (h : q.Holds m ns) (hr : m.Row ns) (ht : ns.getLast? = some t) :
    q.tail = .node t := by
  rcases id h with ⟨-, cs, hl, hw⟩
  have hmem : Cell.node t ∈ waiting q.stub cs := by
    rw [hw]
    exact List.mem_map_of_mem (List.mem_of_getLast? ht)
  have hnone : m.read (.node t) = none := (hr.read_eq_none_iff (List.mem_of_getLast? ht)).mpr ht
  have hlast := (hl.inLine.trail.next_eq_none_iff (mem_waiting.mp hmem).1).mp (by simp [hnone])
  rw [hl.inLine.last] at hlast
  exact Option.some.inj hlast

theorem Holds.push_row (h : q.Holds m ns) (hr : m.Row ns) (hn : n ∉ ns) :
    (q.push m (.node n)).2.2.Row (ns ++ [n]) := by
  have ht := h.tail_ne hn
  rw [push_of_ne q m ht]
  rcases List.eq_nil_or_concat ns with rfl | ⟨front, t, rfl⟩
  · refine Links.Row.of_trail (a := some (.node n)) ⟨rfl, ?_⟩
    simp [ht]
  · have htail := h.tail_eq hr (t := t) (by simp)
    refine Links.Row.of_trail (a := (front.concat t).head?.map .node) ?_
    rw [List.map_append]
    refine Trail.snoc hr (t := .node t) (by simp) (fun c hc hct => ?_) (by simp [htail]) ?_
    · obtain ⟨k, hk, rfl⟩ := List.mem_map.mp hc
      have hnk : n ≠ k := fun he => hn (he ▸ hk)
      simp [htail, Ne.symm hct, hnk]
    · simp [ht]

/-- The first cell leaves, when it is not the stub. Its link stays, or leads to the stub. -/
theorem pop_node_links (hs : q.stub.node? = none) (hl : q.LateLine m (fun _ => none) cs)
    (hh : q.head = .node n) :
    (∀ k, k ≠ n → (q.pop m).2.2.read (.node k) = m.read (.node k)) ∧
      (q.pop m).2.2.isLinked (.node n) = true := by
  have hstub (k : Nat) : q.stub ≠ .node k := fun he => by simp [he, Cell.node?] at hs
  have hne : q.head ≠ q.stub := hh ▸ (hstub n).symm
  cases hr : m.read q.head with
  | none =>
    obtain ⟨hp, -⟩ := LateLine.popLast (hl.eq_singleton hr ▸ hl) hne
    rw [pop_last hne hr, hp, hh]
    exact ⟨fun k hk => by simp [Ne.symm hk, hstub], by simp [Links.isLinked]⟩
  | some b =>
    rw [pop_item hne hr]
    exact ⟨fun _ _ => rfl, (Links.isLinked_iff ..).mpr ⟨b, hh ▸ hr⟩⟩

/-- A pop writes to no other node than the one that it takes, which is linked afterwards even if it
was the last one. -/
theorem Holds.pop_links (h : q.Holds m (n :: ns)) :
    (∀ k, k ≠ n → (q.pop m).2.2.read (.node k) = m.read (.node k)) ∧
      (q.pop m).2.2.isLinked (.node n) = true := by
  rcases id h with ⟨hs, cs, hl, hw⟩
  obtain ⟨rest, rfl⟩ := hl.inLine.eq_cons
  by_cases hst : q.head = q.stub
  · rw [hst, waiting_cons_stub] at hw
    cases rest with
    | nil => simp at hw
    | cons a rest =>
      have hd := hl.inLine.nodup
      have hne : a ≠ q.stub := by
        rintro rfl
        simp [hst] at hd
      have hr : m.read q.head = some a := by simpa using hl.inLine.succ_head
      obtain ⟨rest', he, hl'⟩ := hl.advance hr
      obtain ⟨k, ks, hks, rfl, -⟩ := exists_of_waiting hne hw
      obtain ⟨rfl, -⟩ := List.cons.inj hks
      rw [pop_behind_stub hst hr hne]
      exact pop_node_links (q := q.advance _) hs hl' rfl
  · obtain ⟨k, ks, hks, hh, -⟩ := exists_of_waiting hst hw
    obtain ⟨rfl, -⟩ := List.cons.inj hks
    exact pop_node_links hs hl hh

end StubQueue

def Container.Kind.hasStub : Container.Kind → Bool
  | mpsc | spmc | mpmc => true
  | stamped | chain | stack => false

namespace Entry

variable {e d : Entry} {h h' : Heap} {n : Nat} {ns : List Nat}

theorem Holds.row_of_no_stub (he : e.Holds h) (hk : e.roster.kind ≠ .stamped)
    (hs : e.roster.kind.hasStub = false) : h.links.Row e.roster.waiting := by
  have hh := he.holds
  rw [← e.kind_eq] at hk hs
  cases hcon : e.container <;> rw [hcon] at hh hk hs
  case chain q => exact .of_trail hh.trail
  case stack s => exact .of_trail hh
  all_goals simp [Container.kind, Container.Kind.hasStub] at hk hs

theorem Holds.push_row (he : e.Holds h) (hrow : h.links.Row e.roster.waiting)
    (hn : n ∉ e.roster.waiting) (hk : e.roster.kind ≠ .stamped)
    (hp : e.container.push h n = (none, d.container, h')) (hr : d.roster = e.roster.push n)
    (hd : d.Holds h') : h'.links.Row d.roster.waiting := by
  have hstub {wrap : StubQueue → Container} {k : Container.Kind} {q : StubQueue}
      (w : Container.Wraps wrap k) (hq : e.container = wrap q)
      (hp : Container.onLinks h wrap (q.push h.links (.node n)) = (none, d.container, h')) :
      h'.links.Row d.roster.waiting := by
    obtain ⟨hk, hh, -⟩ := he.stub w hq
    have hw : d.roster.waiting = e.roster.waiting ++ [n] := by
      simp [hr, Roster.push, hk, w.not_stack]
    have hlinks : h'.links = (q.push h.links (.node n)).2.2 := by
      rw [show h' = _ from (congrArg (·.2.2) hp).symm]
      rfl
    rw [hw, hlinks]
    exact hh.push_row hrow hn
  cases hcon : e.container <;> rw [hcon] at hp
  case mpsc q => exact hstub Container.wraps_mpsc hcon hp
  case spmc q s => exact hstub (Container.wraps_spmc s) hcon hp
  case mpmc q s => exact hstub (Container.wraps_mpmc s) hcon hp
  all_goals
    have hkind : d.roster.kind = e.roster.kind := by rw [hr]; rfl
    refine hd.row_of_no_stub (hkind ▸ hk) ?_
    rw [hkind, ← e.kind_eq, hcon]
    rfl

/-- A pop writes to no other node than the one that it takes. Its link is gone, or it leads on. -/
theorem Holds.pop_links (he : e.Holds h) (hk : e.roster.kind ≠ .stamped)
    (hw : e.roster.waiting = n :: ns) :
    (∀ k, k ≠ n → (e.container.pop h).2.2.links.read (.node k) = h.links.read (.node k)) ∧
      (e.container.pop h).2.2.links.isLinked (.node n) = e.roster.kind.hasStub := by
  have hstub {wrap : StubQueue → Container} {k : Container.Kind} {q : StubQueue}
      (w : Container.Wraps wrap k) (hq : e.container = wrap q) :
      (∀ k, k ≠ n → (q.pop h.links).2.2.read (.node k) = h.links.read (.node k)) ∧
        (q.pop h.links).2.2.isLinked (.node n) = true := by
    obtain ⟨-, hh, -⟩ := he.stub w hq
    rw [hw] at hh
    exact hh.pop_links
  have hclear : (∀ k, k ≠ n → (h.links.clear (.node n)).read (.node k) = h.links.read (.node k)) ∧
      (h.links.clear (.node n)).isLinked (.node n) = false :=
    ⟨fun k hk => by simp [Ne.symm hk], by simp [Links.isLinked]⟩
  rw [← e.kind_eq] at hk ⊢
  cases hcon : e.container with
  | mpsc q => exact hstub Container.wraps_mpsc hcon
  | spmc q s => exact hstub (Container.wraps_spmc s) hcon
  | mpmc q s => exact hstub (Container.wraps_mpmc s) hcon
  | stamped q => exact absurd (hcon ▸ rfl) hk
  | chain q =>
    obtain ⟨-, hh, -⟩ := he.chain hcon
    have hhead : q.head = some (.node n) := by rw [hh.trail.start_eq, hw]; rfl
    have hm : (q.pop h.links).2.2 = h.links.clear (.node n) := by
      cases hr : h.links.read (.node n) <;> simp [ChainQueue.pop, hhead, hr]
    simp only [Container.pop, hm]
    exact hclear
  | stack s =>
    obtain ⟨-, hh, -⟩ := he.stack hcon
    have htop : s.top = some (.node n) := by rw [hh.top_eq, hw]; rfl
    simp only [Container.pop, ChainStack.pop, htop]
    exact hclear

end Entry

end LinkedQueues

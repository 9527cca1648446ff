import LinkedQueues.Proofs.Container

/-!
What the operations of a container depend on. In two heaps that agree at its sites an operation has
the same answer and leaves the same container, and wherever the heaps agree they still do so
afterwards.
-/
namespace LinkedQueues

/-- Two outcomes that differ only in the links of cells outside of `P`. -/
structure Links.Alike {α β : Type} (P : Cell → Prop) (r r' : α × β × Links) : Prop where
  answer : r'.1 = r.1
  words : r'.2.1 = r.2.1
  same : ∀ c, P c → r'.2.2.read c = r.2.2.read c

namespace StubQueue

variable {q : StubQueue} {m m' : Links} {cs : List Cell} {ns : List Nat} {c : Cell}

theorem push_alike (q : StubQueue) (m m' : Links) (c : Cell) :
    Links.Alike (fun d => d = c ∨ m'.read d = m.read d) (q.push m c) (q.push m' c) := by
  have hclear (d : Cell) (hd : d = c ∨ m'.read d = m.read d) :
      (m'.clear c).read d = (m.clear c).read d := by
    rcases hd with rfl | hd <;> simp [*]
  by_cases ht : q.tail = c
  · subst ht
    rw [push_tail, push_tail]
    exact ⟨rfl, rfl, hclear⟩
  · rw [push_of_ne q m ht, push_of_ne q m' ht]
    refine ⟨rfl, rfl, fun d hd => ?_⟩
    rw [Links.read_join, Links.read_join, hclear d hd]

theorem popLast_alike (q : StubQueue) (m m' : Links) :
    Links.Alike (fun d => m'.read d = m.read d) (q.popLast m) (q.popLast m') := by
  have hp := push_alike q m m' q.stub
  unfold popLast
  by_cases hh : q.head = q.tail
  · rw [if_pos hh, if_pos hh]
    by_cases ht : q.tail = q.stub
    · rw [← ht] at hp ⊢
      rw [push_tail, push_tail] at hp ⊢
      exact ⟨rfl, rfl, fun d hd => hp.same d (Or.inr hd)⟩
    · rw [push_of_ne q m ht, push_of_ne q m' ht] at hp ⊢
      simp only [hh, Links.read_join, if_true]
      exact ⟨rfl, rfl, fun d hd => hp.same d (Or.inr hd)⟩
  · rw [if_neg hh, if_neg hh]
    exact ⟨rfl, rfl, fun _ hd => hd⟩

/-- Besides, a pop reads the link of the head, and that of the cell behind a stub. -/
theorem pop_alike (hh : m'.read q.head = m.read q.head)
    (hn : ∀ a, m.read q.head = some a → m'.read a = m.read a) :
    Links.Alike (fun d => m'.read d = m.read d) (q.pop m) (q.pop m') := by
  unfold pop
  rw [hh]
  cases hr : m.read q.head with
  | none =>
    by_cases hs : q.head = q.stub
    · simp only [if_pos hs]
      exact ⟨rfl, rfl, fun _ hd => hd⟩
    · simp only [if_neg hs]
      exact popLast_alike q m m'
  | some a =>
    by_cases hs : q.head = q.stub
    · simp only [if_pos hs, hn a hr]
      cases m.read a with
      | none => exact popLast_alike (q.advance a) m m'
      | some b => exact ⟨rfl, rfl, fun _ hd => hd⟩
    · simp only [if_neg hs]
      exact ⟨rfl, rfl, fun _ hd => hd⟩

theorem Holds.pop_alike (h : q.Holds m ns) (hs : m'.read q.stub = m.read q.stub)
    (hn : ∀ n ∈ ns, m'.read (.node n) = m.read (.node n)) :
    Links.Alike (fun d => m'.read d = m.read d) (q.pop m) (q.pop m') := by
  rcases h with ⟨-, cs, hl, hw⟩
  have hsame (c : Cell) (hc : c ∈ cs) : m'.read c = m.read c := by
    by_cases he : c = q.stub
    · rw [he, hs]
    · have hm : c ∈ ns.map Cell.node := hw ▸ mem_waiting.mpr ⟨hc, he⟩
      obtain ⟨n, hmem, rfl⟩ := List.mem_map.mp hm
      exact hn n hmem
  obtain ⟨rest, rfl⟩ := hl.inLine.eq_cons
  refine StubQueue.pop_alike (hsame _ (by simp)) fun a ha => hsame a ?_
  obtain ⟨ds, hd⟩ := hl.inLine.exists_of_succ_head (b := a) (by simp [ha])
  simp [hd]

end StubQueue

namespace ChainQueue

variable {q : ChainQueue} {m m' : Links} {ns : List Nat} {n : Nat}

/-- A push of a node whose link is clear in both memories reads nothing else. -/
theorem push_alike (ht : q.tail ≠ some (.node n)) (hl : m.isLinked (.node n) = false)
    (hl' : m'.isLinked (.node n) = false) : ∃ q₁ m₁ m₁',
      q.push m (.node n) = .ok (q₁, m₁) ∧ q.push m' (.node n) = .ok (q₁, m₁') ∧
        ∀ d, d = .node n ∨ m'.read d = m.read d → m₁'.read d = m₁.read d := by
  have hclear (d : Cell) (hd : d = .node n ∨ m'.read d = m.read d) :
      (m'.clear (.node n)).read d = (m.clear (.node n)).read d := by
    rcases hd with rfl | hd <;> simp [*]
  cases hq : q.tail with
  | none =>
    exact ⟨⟨some (.node n), some (.node n)⟩, m.clear (.node n), m'.clear (.node n),
      by simp [push, hq, hl, attach], by simp [push, hq, hl', attach], hclear⟩
  | some t =>
    rw [hq] at ht
    refine ⟨_, _, _, by simp only [push, hq, ht, hl, attach]; rfl,
      by simp only [push, hq, ht, hl', attach]; rfl, fun d hd => ?_⟩
    rw [Links.read_join, Links.read_join, hclear d hd]

theorem pop_alike (hh : ∀ c, q.head = some c → m'.read c = m.read c) :
    Links.Alike (fun d => m'.read d = m.read d) (q.pop m) (q.pop m') := by
  unfold pop
  cases hq : q.head with
  | none => exact ⟨rfl, rfl, fun _ hd => hd⟩
  | some c =>
    have hsame (d : Cell) (hd : m'.read d = m.read d) :
        (m'.clear c).read d = (m.clear c).read d := by
      simp [hd]
    simp only [hh c hq]
    cases m.read c with
    | none => exact ⟨rfl, rfl, hsame⟩
    | some a => exact ⟨rfl, rfl, hsame⟩

end ChainQueue

namespace ChainStack

variable {s : ChainStack} {m m' : Links} {c : Cell}

theorem push_alike (s : ChainStack) (m m' : Links) (ht : s.top ≠ some c) : ∃ s₁ m₁ m₁',
    s.push m c = .ok (s₁, m₁) ∧ s.push m' c = .ok (s₁, m₁') ∧
      ∀ d, d = c ∨ m'.read d = m.read d → m₁'.read d = m₁.read d := by
  refine ⟨_, _, _, if_neg ht, if_neg ht, fun d hd => ?_⟩
  rw [Store.read_write, Store.read_write]
  split
  · rfl
  · exact hd.resolve_left fun he => by simp_all

theorem pop_alike (hh : ∀ c, s.top = some c → m'.read c = m.read c) :
    Links.Alike (fun d => m'.read d = m.read d) (s.pop m) (s.pop m') := by
  unfold pop
  cases hs : s.top with
  | none => exact ⟨rfl, rfl, fun _ hd => hd⟩
  | some c =>
    simp only [hh c hs]
    exact ⟨rfl, rfl, fun d hd => by simp [hd]⟩

end ChainStack

namespace StampQueue

variable {q : StampQueue} {m m' : Stamps} {ns : List Nat} {j : Nat}

theorem push_alike (q : StampQueue) (m m' : Stamps) (n : Nat) :
    (q.push m' n).1 = (q.push m n).1 ∧
      ∀ k, k = n ∨ m'.hook k = m.hook k → (q.push m' n).2.hook k = (q.push m n).2.hook k := by
  refine ⟨rfl, fun k hk => ?_⟩
  simp only [push, stack, Stamps.hook_put]
  split
  · rfl
  · exact hk.resolve_left fun he => by simp_all

/-- A reversal leaves links that are determined by the order of the nodes. -/
theorem Holds.pop_alike (h : q.Holds m j ns) (hs : ∀ n ∈ ns, m'.hook n = m.hook n) :
    ∃ a q₁ m₁ m₁', q.pop m = .ok (a, q₁, m₁) ∧ q.pop m' = .ok (a, q₁, m₁') ∧
      ∀ k, m'.hook k = m.hook k → m₁'.hook k = m₁.hook k := by
  obtain ⟨batch, stacked, rfl, ht, hb, o, hstack⟩ := h.parts
  have hp := h.published
  cases batch with
  | nil =>
    have hh : q.head = none := hb
    cases stacked with
    | nil =>
      have he : q.published = q.taken := UInt32.toNat_inj.mp (hp.trans ht.symm)
      have hpop (m : Stamps) : q.pop m = .ok (none, q, m) := by
        simp [StampQueue.pop, StampQueue.popBatch, hh, he]
      exact ⟨none, q, m, m', hpop m, hpop m', fun _ hk => hk⟩
    | cons x ns =>
      have hstack' : Trail m'.next q.tail (x :: ns).reverse o :=
        hstack.congr fun k hk => by
          rw [Stamps.next, hs k (by simpa [or_comm] using hk), Stamps.next]
      have hnum' : m'.Numbered j (x :: ns) := h.numbered.congr fun k hk => by rw [hs k hk]
      obtain ⟨m₁, hpop, htrail, hother, hkeep⟩ := popBatch_eq h.numbered ht hp hstack
      obtain ⟨m₁', hpop', htrail', hother', hkeep'⟩ := popBatch_eq hnum' ht hp hstack'
      refine ⟨_, _, m₁, m₁', by simpa [StampQueue.pop, hh] using hpop,
        by simpa [StampQueue.pop, hh] using hpop', fun k hk => ?_⟩
      by_cases hm : k ∈ ns
      · have hnext : (m₁'.hook k).next = (m₁.hook k).next := htrail.next_eq htrail' hm
        have hstamp : (m₁'.hook k).stamp = (m₁.hook k).stamp := by rw [hkeep, hkeep', hk]
        exact Stamps.hook_ext hnext hstamp
      · rw [hother k hm, hother' k hm, hk]
  | cons n batch =>
    have hh : q.head = some n := hb.1
    exact ⟨some n, { q with head := (m.hook n).next }, m, m', by simp [StampQueue.pop, hh],
      by simp [StampQueue.pop, hh, hs n (by simp)], fun _ hk => hk⟩

end StampQueue

/-- Two outcomes that differ only at sites outside of `P`. -/
structure Heap.Alike {α : Type} (P : Site → Prop) (r r' : α × Container × Heap) : Prop where
  answer : r'.1 = r.1
  container : r'.2.1 = r.2.1
  same : ∀ x, P x → r.2.2.Same r'.2.2 x

namespace Heap.Alike

variable {α β : Type} {h h' : Heap} {P : Site → Prop} {a : α} {c : Container}

theorem of_links {m m' : Links} (hm : ∀ d, P (.cell d) → m'.read d = m.read d)
    (hk : ∀ n, P (.hook n) → h.Same h' (.hook n)) :
    Alike P (a, c, { h with links := m }) (a, c, { h' with links := m' }) := by
  refine ⟨rfl, rfl, fun x hx => ?_⟩
  cases x with
  | cell d => exact hm d hx
  | hook n => exact hk n hx

theorem of_stamps {m m' : Stamps} (hm : ∀ n, P (.hook n) → m'.hook n = m.hook n)
    (hc : ∀ d, P (.cell d) → h.Same h' (.cell d)) :
    Alike P (a, c, { h with stamps := m }) (a, c, { h' with stamps := m' }) := by
  refine ⟨rfl, rfl, fun x hx => ?_⟩
  cases x with
  | cell d => exact hc d hx
  | hook n => exact hm n hx

/-- The operation writes besides to the link of one cell, and the links agree there afterwards. -/
theorem of_links_node {m m' : Links} {x : Site} {d : Cell} (hx : x = .cell d)
    (hm : ∀ c, c = d ∨ h'.links.read c = h.links.read c → m'.read c = m.read c) :
    Alike (fun y => y = x ∨ h.Same h' y) (a, c, { h with links := m })
      (a, c, { h' with links := m' }) := by
  subst hx
  exact of_links (fun c hc => hm c (hc.imp_left Site.cell.inj)) fun n hn =>
    hn.resolve_left Site.noConfusion

theorem map (f : α → β) {r r' : α × Container × Heap} (hr : Alike P r r') :
    Alike P (f r.1, r.2) (f r'.1, r'.2) := ⟨congrArg f hr.answer, hr.container, hr.same⟩

theorem onLinks {wrap : StubQueue → Container} {Q : Cell → Prop}
    {r r' : α × StubQueue × Links} (hr : Links.Alike Q r r') (hQ : ∀ d, P (.cell d) → Q d)
    (hk : ∀ n, P (.hook n) → h.Same h' (.hook n)) :
    Alike P (Container.onLinks h wrap r) (Container.onLinks h' wrap r') := by
  rw [Container.onLinks, Container.onLinks, hr.answer, hr.words]
  exact of_links (fun d hd => hr.same d (hQ d hd)) hk

end Heap.Alike

namespace Entry

variable {e : Entry} {h h' : Heap} {n : Nat}

theorem Holds.pop_alike (he : e.Holds h) (hs : ∀ x ∈ e.sites, h.Same h' x) :
    Heap.Alike (h.Same h') (e.container.pop h) (e.container.pop h') := by
  have hwait (n : Nat) (hn : n ∈ e.roster.waiting) : h.Same h' (e.roster.kind.site n) :=
    hs _ (e.roster_sites_subset (Roster.site_mem_sites.mpr hn))
  have hstub {wrap : StubQueue → Container} {k : Container.Kind} {q : StubQueue}
      (w : Container.Wraps wrap k) (hq : e.container = wrap q) :
      Heap.Alike (h.Same h') (Container.onLinks h wrap (q.pop h.links))
        (Container.onLinks h' wrap (q.pop h'.links)) := by
    obtain ⟨hk, hh, hsites⟩ := he.stub w hq
    have hnode (n : Nat) : e.roster.kind.site n = .cell (.node n) := hk ▸ w.site n
    refine .onLinks (hh.pop_alike (hs (.cell q.stub) ?_) fun n hn => ?_) (fun _ => id) fun _ => id
    · rw [hsites]
      exact List.mem_cons_self
    · have hx := hwait n hn
      rwa [hnode] at hx
  have hfirst {c : Cell} (hnode : ∀ n, e.roster.kind.site n = .cell (.node n))
      (hc : (e.roster.waiting.map Cell.node).head? = some c) :
      h'.links.read c = h.links.read c := by
    obtain ⟨n, hn, rfl⟩ := List.mem_map.mp (List.mem_of_head? hc)
    have hx := hwait n hn
    rwa [hnode] at hx
  cases hcon : e.container with
  | mpsc q => exact (hstub Container.wraps_mpsc hcon).map (Popped.filterMap Cell.node?)
  | spmc q s => exact (hstub (Container.wraps_spmc s) hcon).map (Popped.filterMap Cell.node?)
  | mpmc q s => exact (hstub (Container.wraps_mpmc s) hcon).map (Popped.filterMap Cell.node?)
  | stamped q =>
    obtain ⟨hk, hh, hsites⟩ := he.stamped hcon
    rw [hk] at hwait
    obtain ⟨a, q₁, m, m', hp, hp', hm⟩ := hh.pop_alike hwait
    simp only [Container.pop, hp, hp']
    exact .of_stamps hm fun _ => id
  | chain q =>
    obtain ⟨hk, hh, -⟩ := he.chain hcon
    have hp := ChainQueue.pop_alike fun c hc =>
      hfirst (fun _ => hk ▸ rfl) (hh.trail.start_eq.symm.trans hc)
    simp only [Container.pop, hp.answer, hp.words]
    exact .of_links hp.same fun _ => id
  | stack s =>
    obtain ⟨hk, hh, -⟩ := he.stack hcon
    have hp := ChainStack.pop_alike fun c hc =>
      hfirst (fun _ => hk ▸ rfl) ((Trail.start_eq hh).symm.trans hc)
    simp only [Container.pop, hp.answer, hp.words]
    exact .of_links hp.same fun _ => id

theorem Holds.push_alike (he : e.Holds h) (hn : n ∉ e.roster.waiting)
    (hc : e.roster.kind = .chain →
      h.links.isLinked (.node n) = false ∧ h'.links.isLinked (.node n) = false) :
    Heap.Alike (fun x => x = e.roster.kind.site n ∨ h.Same h' x) (e.container.push h n)
      (e.container.push h' n) := by
  have hstub {wrap : StubQueue → Container} {k : Container.Kind} {q : StubQueue}
      (w : Container.Wraps wrap k) (hq : e.container = wrap q) :
      Heap.Alike (fun x => x = e.roster.kind.site n ∨ h.Same h' x)
        (Container.onLinks h wrap (q.push h.links (.node n)))
        (Container.onLinks h' wrap (q.push h'.links (.node n))) := by
    obtain ⟨hk, -, -⟩ := he.stub w hq
    refine .onLinks (q.push_alike h.links h'.links (.node n)) (fun d hd => ?_) fun j hj => ?_
    · rwa [hk, w.site, Site.cell.injEq] at hd
    · exact hj.resolve_left (by simp [hk, w.site])
  cases hcon : e.container with
  | mpsc q => exact hstub Container.wraps_mpsc hcon
  | spmc q s => exact hstub (Container.wraps_spmc s) hcon
  | mpmc q s => exact hstub (Container.wraps_mpmc s) hcon
  | stamped q =>
    obtain ⟨hk, -, -⟩ := he.stamped hcon
    obtain ⟨hq, hm⟩ := q.push_alike h.stamps h'.stamps n
    simp only [Container.push, hq]
    rw [show e.roster.kind.site n = .hook n from hk ▸ rfl]
    exact .of_stamps (fun j hj => hm j (hj.imp_left Site.hook.inj)) fun d hd =>
      hd.resolve_left Site.noConfusion
  | chain q =>
    obtain ⟨hk, hh, -⟩ := he.chain hcon
    obtain ⟨q₁, m, m', hp, hp', hm⟩ := ChainQueue.push_alike
      (fun ht => hn (by simpa using hh.tail_mem ht)) (hc hk).1 (hc hk).2
    simp only [Container.push, hp, hp']
    exact .of_links_node (hk ▸ rfl) hm
  | stack s =>
    obtain ⟨hk, hh, -⟩ := he.stack hcon
    obtain ⟨s₁, m, m', hp, hp', hm⟩ := s.push_alike h.links h'.links (hh.top_ne hn)
    simp only [Container.push, hp, hp']
    exact .of_links_node (hk ▸ rfl) hm

theorem Holds.isEmpty_alike (he : e.Holds h) (hs : ∀ x ∈ e.sites, h.Same h' x) :
    e.container.isEmpty h' = e.container.isEmpty h := by
  rw [(he.congr hs).isEmpty_eq, he.isEmpty_eq]

end Entry

end LinkedQueues

import LinkedQueues.Container
import LinkedQueues.Proofs.ChainQueue
import LinkedQueues.Proofs.StampQueue
import LinkedQueues.Proofs.StubQueue.Holds

/-!
Containers as lists. A roster lists the nodes of one container, and an entry pairs a container with
its roster. An operation reads and writes the heap only at the sites of the container that it is
called on, and the container holds what its roster says afterwards.
-/
namespace LinkedQueues

/-- A place of the heap: the link of a cell, or the hook of a stamped node. -/
inductive Site
  | cell (c : Cell)
  | hook (n : Nat)
  deriving DecidableEq

/-- Where containers of a kind keep what they know about a node. -/
def Container.Kind.site : Container.Kind → Nat → Site
  | .stamped, n => .hook n
  | _, n => .cell (.node n)

theorem Container.Kind.site_inj (k : Container.Kind) {a b : Nat} : k.site a = k.site b ↔ a = b := by
  cases k <;> simp [site]

theorem Container.Kind.site_ne_stub (k : Container.Kind) (n id : Nat) :
    k.site n ≠ .cell (.stub id) := by
  cases k <;> simp [site]

namespace Heap

def Same (h h' : Heap) : Site → Prop
  | .cell c => h'.links.read c = h.links.read c
  | .hook n => h'.stamps.hook n = h.stamps.hook n

theorem Same.of_common {h h₁ h₂ : Heap} {x : Site} (hs : h.Same h₁ x) (hs' : h.Same h₂ x) :
    h₁.Same h₂ x := by
  cases x with
  | cell c => exact Eq.trans hs' (Eq.symm hs)
  | hook n => exact Eq.trans hs' (Eq.symm hs)

/-- From `h` to `h'` only the listed sites may change. -/
structure Changes (h h' : Heap) (xs : List Site) : Prop where
  fresh : h.freshStub ≤ h'.freshStub
  same : ∀ x, x ∉ xs → h.Same h' x

namespace Changes

variable {h h' : Heap} {xs ys : List Site} {m : Links}

theorem refl (h : Heap) (xs : List Site) : h.Changes h xs :=
  ⟨Nat.le_refl _, fun x _ => by cases x <;> rfl⟩

theorem mono (hc : h.Changes h' xs) (hs : xs ⊆ ys) : h.Changes h' ys :=
  ⟨hc.fresh, fun x hx => hc.same x fun hm => hx (hs hm)⟩

theorem ofLinks {cs : List Cell} (hm : ∀ c, c ∉ cs → m.read c = h.links.read c) :
    h.Changes { h with links := m } (cs.map .cell) := by
  refine ⟨Nat.le_refl _, fun x hx => ?_⟩
  cases x with
  | cell c => exact hm c fun hc => hx (List.mem_map.mpr ⟨c, hc, rfl⟩)
  | hook n => rfl

theorem clear (h : Heap) (n : Nat) :
    h.Changes { h with links := h.links.clear (.node n) } [.cell (.node n)] := by
  show h.Changes _ ([Cell.node n].map .cell)
  refine ofLinks fun c hc => ?_
  have hne : Cell.node n ≠ c := fun he => hc (by simp [he])
  simp [hne]

theorem ofStamps {m : Stamps} {ns : List Nat}
    (hm : ∀ n, n ∉ ns → m.hook n = h.stamps.hook n) :
    h.Changes { h with stamps := m } (ns.map .hook) := by
  refine ⟨Nat.le_refl _, fun x hx => ?_⟩
  cases x with
  | cell c => rfl
  | hook n => exact hm n fun hn => hx (List.mem_map.mpr ⟨n, hn, rfl⟩)

end Changes

end Heap

/-- A container as its users see it. -/
structure Roster where
  kind : Container.Kind
  /-- The nodes inside, in the order in which they leave. -/
  waiting : List Nat := []
  /-- All nodes that came, in order. -/
  pushed : List Nat := []
  /-- All nodes that left, in order. -/
  popped : List Nat := []
  deriving DecidableEq

namespace Roster

variable {r : Roster}

def push (r : Roster) (n : Nat) : Roster :=
  { r with
    waiting := if r.kind = .stack then n :: r.waiting else r.waiting ++ [n],
    pushed := r.pushed ++ [n] }

def pop (r : Roster) : Roster :=
  { r with waiting := r.waiting.tail, popped := r.popped ++ r.waiting.head?.toList }

def append (r other : Roster) : Roster :=
  { r with waiting := r.waiting ++ other.waiting, pushed := r.pushed ++ other.waiting }

def top? (r : Roster) : Option (Option Nat) :=
  if r.kind = .stack then some r.waiting.head? else none

def InOrder (r : Roster) : Prop := r.kind ≠ .stack → r.pushed = r.popped ++ r.waiting

theorem InOrder.push (h : r.InOrder) (n : Nat) : (r.push n).InOrder := fun hk => by
  have hk' : r.kind ≠ .stack := hk
  simp [Roster.push, hk', h hk']

theorem InOrder.pop (h : r.InOrder) : r.pop.InOrder := fun hk => by
  have hk' : r.kind ≠ .stack := hk
  simp only [Roster.pop, h hk']
  cases r.waiting <;> simp

theorem InOrder.append (h : r.InOrder) (other : Roster) : (r.append other).InOrder := fun hk => by
  simp [Roster.append, h hk]

def sites (r : Roster) : List Site := r.waiting.map r.kind.site

theorem site_mem_sites {n : Nat} : r.kind.site n ∈ r.sites ↔ n ∈ r.waiting := by
  simp [sites, Container.Kind.site_inj]

theorem sites_push (n : Nat) : (r.push n).sites ⊆ r.kind.site n :: r.sites := by
  intro x hx
  simp only [sites, push] at hx ⊢
  split at hx <;> simpa [or_comm] using hx

theorem cons_sites_push (x : Site) (n : Nat) :
    x :: (r.push n).sites ⊆ r.kind.site n :: x :: r.sites := by
  intro y hy
  rcases List.mem_cons.mp hy with rfl | hy
  · simp
  · have hs := sites_push n hy
    simp only [List.mem_cons] at hs ⊢
    tauto

theorem sites_pop : r.pop.sites ⊆ r.sites := by
  intro x hx
  obtain ⟨n, hn, rfl⟩ := List.mem_map.mp hx
  exact List.mem_map.mpr ⟨n, List.mem_of_mem_tail hn, rfl⟩

end Roster

namespace Container

def stub? : Container → Option Cell
  | mpsc q | spmc q _ | mpmc q _ => some q.stub
  | stamped _ | chain _ | stack _ => none

def Holds (h : Heap) (r : Roster) : Container → Prop
  | mpsc q | spmc q _ | mpmc q _ => q.Holds h.links r.waiting
  | stamped q => q.Holds h.stamps r.popped.length r.waiting
  | chain q => q.Holds h.links r.waiting
  | stack s => s.Holds h.links r.waiting

/-- What the kinds with a stub have in common. -/
structure Wraps (wrap : StubQueue → Container) (k : Kind) : Prop where
  kind : ∀ q, (wrap q).kind = k
  stub : ∀ q, (wrap q).stub? = some q.stub
  holds : ∀ q h r, (wrap q).Holds h r ↔ q.Holds h.links r.waiting
  site : ∀ n, k.site n = .cell (.node n)
  not_stack : k ≠ .stack

theorem wraps_mpsc : Wraps mpsc .mpsc :=
  ⟨fun _ => rfl, fun _ => rfl, fun _ _ _ => Iff.rfl, fun _ => rfl, by decide⟩

theorem wraps_spmc (s : Nat) : Wraps (spmc · s) .spmc :=
  ⟨fun _ => rfl, fun _ => rfl, fun _ _ _ => Iff.rfl, fun _ => rfl, by decide⟩

theorem wraps_mpmc (s : Nat) : Wraps (mpmc · s) .mpmc :=
  ⟨fun _ => rfl, fun _ => rfl, fun _ _ _ => Iff.rfl, fun _ => rfl, by decide⟩

end Container

structure Entry where
  container : Container
  roster : Roster
  kind_eq : container.kind = roster.kind

namespace Entry

def sites (e : Entry) : List Site :=
  (e.container.stub?.map Site.cell).toList ++ e.roster.sites

/-- The container holds what the roster lists. -/
structure Holds (e : Entry) (h : Heap) : Prop where
  holds : e.container.Holds h e.roster
  inOrder : e.roster.InOrder

variable {e : Entry} {h h' : Heap} {n : Nat}

theorem roster_sites_subset (e : Entry) : e.roster.sites ⊆ e.sites := List.subset_append_right _ _

theorem Holds.congr (he : e.Holds h) (hs : ∀ x ∈ e.sites, h.Same h' x) : e.Holds h' := by
  refine ⟨?_, he.inOrder⟩
  rcases e with ⟨c, ⟨k, ns, _, _⟩, hk⟩
  have hh := he.holds
  obtain rfl : c.kind = k := hk
  have hn (n : Nat) (hm : n ∈ ns) : h.Same h' (c.kind.site n) :=
    hs _ (roster_sites_subset _ (Roster.site_mem_sites.mpr hm))
  have hstub {stub : Cell} (hc : c.stub? = some stub) : h.Same h' (.cell stub) :=
    hs _ (by simp [sites, hc])
  cases c with
  | mpsc q => exact StubQueue.Holds.congr hh (hstub rfl) hn
  | spmc q _ => exact StubQueue.Holds.congr hh (hstub rfl) hn
  | mpmc q _ => exact StubQueue.Holds.congr hh (hstub rfl) hn
  | stamped q => exact StampQueue.Holds.congr hh hn
  | chain q => exact ChainQueue.Holds.congr hh hn
  | stack s => exact ChainStack.Holds.congr hh hn

theorem Holds.exists_stub (he : e.Holds h) {c : Cell} (hc : e.container.stub? = some c) :
    ∃ id, c = .stub id := by
  have hh := he.holds
  have hnode : c.node? = none := by
    cases hcon : e.container <;> rw [hcon] at hc hh
    case mpsc q => exact Option.some.inj hc ▸ hh.1
    case spmc q s => exact Option.some.inj hc ▸ hh.1
    case mpmc q s => exact Option.some.inj hc ▸ hh.1
    all_goals simp [Container.stub?] at hc
  cases c with
  | node n => simp [Cell.node?] at hnode
  | stub id => exact ⟨id, rfl⟩

/-- The site of a node is used only for a node inside. -/
theorem Holds.site_mem_sites (he : e.Holds h) {k : Container.Kind} (hs : k.site n ∈ e.sites) :
    k.site n ∈ e.roster.sites := by
  rw [sites, List.mem_append] at hs
  apply hs.resolve_left
  intro hstub
  cases hc : e.container.stub? with
  | none => simp [hc] at hstub
  | some c =>
    obtain ⟨id, rfl⟩ := he.exists_stub hc
    exact k.site_ne_stub n id (by simpa [hc] using hstub)

/-- An operation on a heap `h` that may use only the sites `xs` leaves `e` in the heap `h'`. -/
structure Outcome (xs : List Site) (h : Heap) (e : Entry) (h' : Heap) : Prop where
  holds : e.Holds h'
  sites : e.sites ⊆ xs
  changes : h.Changes h' xs

theorem Outcome.mono {xs ys : List Site} (ho : Outcome xs h e h') (hs : xs ⊆ ys) :
    Outcome ys h e h' :=
  ⟨ho.holds, List.Subset.trans ho.sites hs, ho.changes.mono hs⟩

theorem sites_of_stub {c : Cell} (hc : e.container.stub? = some c) :
    e.sites = .cell c :: e.roster.sites := by
  simp [sites, hc]

theorem sites_of_no_stub (hc : e.container.stub? = none) : e.sites = e.roster.sites := by
  simp [sites, hc]

theorem changes_of_links {r : Roster} {m : Links} (hr : ∀ n, r.kind.site n = .cell (.node n))
    (hm : ∀ c, c ∉ r.waiting.map Cell.node → m.read c = h.links.read c) :
    h.Changes { h with links := m } r.sites := by
  have hs : r.sites = (r.waiting.map Cell.node).map .cell := by simp [Roster.sites, hr]
  rw [hs]
  exact .ofLinks hm

theorem changes_of_links_stub {r : Roster} {stub : Cell} {m : Links}
    (hr : ∀ n, r.kind.site n = .cell (.node n))
    (hm : ∀ c, c ≠ stub → c ∉ r.waiting.map Cell.node → m.read c = h.links.read c) :
    h.Changes { h with links := m } (.cell stub :: r.sites) := by
  have hs : .cell stub :: r.sites = (stub :: r.waiting.map Cell.node).map .cell := by
    simp [Roster.sites, hr]
  rw [hs]
  apply Heap.Changes.ofLinks
  intro c hc
  rw [List.mem_cons, not_or] at hc
  exact hm c hc.1 hc.2

section Stub

variable {wrap : StubQueue → Container} {k : Container.Kind} {q : StubQueue}

theorem Holds.stub (w : Container.Wraps wrap k) (hq : e.container = wrap q) (he : e.Holds h) :
    e.roster.kind = k ∧ q.Holds h.links e.roster.waiting ∧
      e.sites = .cell q.stub :: e.roster.sites := by
  refine ⟨by rw [← e.kind_eq, hq, w.kind], ?_, sites_of_stub (hq ▸ w.stub q)⟩
  rw [← w.holds, ← hq]
  exact he.holds

theorem Holds.push_stub (w : Container.Wraps wrap k) (hq : e.container = wrap q) (he : e.Holds h)
    (hn : n ∉ e.roster.waiting) : ∃ e' h',
      Container.onLinks h wrap (q.push h.links (.node n)) = (none, e'.container, h') ∧
        e'.roster = e.roster.push n ∧ Outcome (e.roster.kind.site n :: e.sites) h e' h' := by
  obtain ⟨hk, hh, hsites⟩ := he.stub w hq
  have hw : (e.roster.push n).waiting = e.roster.waiting ++ [n] := by
    simp [Roster.push, hk, w.not_stack]
  obtain ⟨q', m', hp, hh', hs, hm⟩ := hh.push hn
  rw [← hw] at hh' hm
  have hsites' : Entry.sites ⟨wrap q', e.roster.push n, (w.kind q').trans hk.symm⟩ =
      .cell q.stub :: (e.roster.push n).sites := hs ▸ sites_of_stub (w.stub q')
  refine ⟨_, { h with links := m' }, by rw [hp, Container.onLinks], rfl, Outcome.mono
    ⟨⟨(w.holds ..).mpr hh', he.inOrder.push n⟩, fun x hx => hx, ?_⟩
    (hsites' ▸ hsites ▸ Roster.cons_sites_push _ n)⟩
  rw [hsites']
  exact changes_of_links_stub (fun j => hk ▸ w.site j) hm

theorem Holds.pop_stub (w : Container.Wraps wrap k) (hq : e.container = wrap q) (he : e.Holds h) :
    ∃ e' h', Container.onLinks h wrap (q.pop h.links) =
        (.ofOption (e.roster.waiting.head?.map .node), e'.container, h') ∧
      e'.roster = e.roster.pop ∧ Outcome e.sites h e' h' := by
  obtain ⟨hk, hh, hsites⟩ := he.stub w hq
  obtain ⟨q', m', hp, hh', hs, hm⟩ := hh.pop
  refine ⟨⟨wrap q', e.roster.pop, (w.kind q').trans hk.symm⟩, { h with links := m' },
    by rw [hp, Container.onLinks], rfl, ⟨(w.holds ..).mpr hh', he.inOrder.pop⟩, ?_, ?_⟩
  · rw [sites_of_stub (w.stub q'), hs, hsites]
    exact List.cons_subset_cons _ Roster.sites_pop
  · rw [hsites]
    exact changes_of_links_stub (fun j => hk ▸ w.site j) hm

end Stub

section Stamped

variable {q : StampQueue}

theorem Holds.stamped (he : e.Holds h) (hq : e.container = .stamped q) :
    e.roster.kind = .stamped ∧ q.Holds h.stamps e.roster.popped.length e.roster.waiting ∧
      e.sites = e.roster.sites := by
  have hh := he.holds
  rw [hq] at hh
  exact ⟨by rw [← e.kind_eq, hq, Container.kind], hh, sites_of_no_stub (by rw [hq]; rfl)⟩

theorem Holds.push_stamped (hq : e.container = .stamped q) (he : e.Holds h)
    (hn : n ∉ e.roster.waiting) (hs : e.roster.pushed.length + 1 < UInt32.size) : ∃ e' : Entry,
      e'.container = .stamped (q.push h.stamps n).1 ∧ e'.roster = e.roster.push n ∧
        Outcome (e.roster.kind.site n :: e.sites) h e'
          { h with stamps := (q.push h.stamps n).2 } := by
  obtain ⟨hk, hh, hsites⟩ := he.stamped hq
  have hlen := he.inOrder (by rw [hk]; decide)
  have hw : (e.roster.push n).waiting = e.roster.waiting ++ [n] := by simp [Roster.push, hk]
  obtain ⟨hh', hm⟩ := hh.push hn (by rwa [← List.length_append, ← hlen])
  rw [← hw] at hh'
  have hch : h.Changes { h with stamps := (q.push h.stamps n).2 } ([n].map .hook) :=
    .ofStamps fun k hk => hm k (by simpa using hk)
  refine ⟨⟨.stamped (q.push h.stamps n).1, e.roster.push n, hk.symm⟩, rfl, rfl,
    ⟨hh', he.inOrder.push n⟩, ?_, hch.mono ?_⟩
  · rw [hsites]
    exact Roster.sites_push n
  · simp [hk, Container.Kind.site]

theorem Holds.pop_stamped (hq : e.container = .stamped q) (he : e.Holds h) : ∃ e' q' m,
    q.pop h.stamps = .ok (e.roster.waiting.head?, q', m) ∧ e'.container = .stamped q' ∧
      e'.roster = e.roster.pop ∧ Outcome e.sites h e' { h with stamps := m } := by
  obtain ⟨hk, hh, hsites⟩ := he.stamped hq
  obtain ⟨q', m, hp, hh', hm, -⟩ := hh.pop
  have hs : e.roster.sites = e.roster.waiting.map .hook := by
    simp [Roster.sites, hk, Container.Kind.site]
  rw [← List.length_append] at hh'
  refine ⟨⟨.stamped q', e.roster.pop, hk.symm⟩, q', m, hp, rfl, rfl, ⟨hh', he.inOrder.pop⟩, ?_, ?_⟩
  · rw [hsites]
    exact Roster.sites_pop
  · rw [hsites, hs]
    exact .ofStamps hm

end Stamped

section Chain

variable {q : ChainQueue}

theorem Holds.chain (he : e.Holds h) (hq : e.container = .chain q) :
    e.roster.kind = .chain ∧ q.Holds h.links e.roster.waiting ∧ e.sites = e.roster.sites := by
  have hh := he.holds
  rw [hq] at hh
  exact ⟨by rw [← e.kind_eq, hq, Container.kind], hh, sites_of_no_stub (by rw [hq]; rfl)⟩

theorem Holds.push_chain (hq : e.container = .chain q) (he : e.Holds h)
    (hn : n ∉ e.roster.waiting) (hl : h.links.isLinked (.node n) = false) : ∃ e' q' m,
      q.push h.links (.node n) = .ok (q', m) ∧ e'.container = .chain q' ∧
        e'.roster = e.roster.push n ∧
        Outcome (e.roster.kind.site n :: e.sites) h e' { h with links := m } := by
  obtain ⟨hk, hh, hsites⟩ := he.chain hq
  have hw : (e.roster.push n).waiting = e.roster.waiting ++ [n] := by simp [Roster.push, hk]
  obtain ⟨q', m, hp, hh', hm⟩ := hh.push hn hl
  rw [← hw] at hh' hm
  have hch : h.Changes { h with links := m } (e.roster.push n).sites :=
    changes_of_links (fun j => hk ▸ rfl) hm
  rw [hsites]
  exact ⟨⟨.chain q', e.roster.push n, hk.symm⟩, q', m, hp, rfl, rfl, ⟨hh', he.inOrder.push n⟩,
    Roster.sites_push n, hch.mono (Roster.sites_push n)⟩

theorem Holds.pop_chain (hq : e.container = .chain q) (he : e.Holds h) : ∃ e' q' m,
    q.pop h.links = (e.roster.waiting.head?.map .node, q', m) ∧ e'.container = .chain q' ∧
      e'.roster = e.roster.pop ∧ Outcome e.sites h e' { h with links := m } := by
  obtain ⟨hk, hh, hsites⟩ := he.chain hq
  obtain ⟨q', m, hp, hh', hm⟩ := hh.pop
  rw [hsites]
  exact ⟨⟨.chain q', e.roster.pop, hk.symm⟩, q', m, hp, rfl, rfl, ⟨hh', he.inOrder.pop⟩,
    Roster.sites_pop, changes_of_links (fun j => hk ▸ rfl) hm⟩

end Chain

section Stack

variable {s : ChainStack}

theorem Holds.stack (he : e.Holds h) (hs : e.container = .stack s) :
    e.roster.kind = .stack ∧ s.Holds h.links e.roster.waiting ∧ e.sites = e.roster.sites := by
  have hh := he.holds
  rw [hs] at hh
  exact ⟨by rw [← e.kind_eq, hs, Container.kind], hh, sites_of_no_stub (by rw [hs]; rfl)⟩

theorem Holds.push_stack (hs : e.container = .stack s) (he : e.Holds h)
    (hn : n ∉ e.roster.waiting) : ∃ e' s' m,
      s.push h.links (.node n) = .ok (s', m) ∧ e'.container = .stack s' ∧
        e'.roster = e.roster.push n ∧
        Outcome (e.roster.kind.site n :: e.sites) h e' { h with links := m } := by
  obtain ⟨hk, hh, hsites⟩ := he.stack hs
  have hw : (e.roster.push n).waiting = n :: e.roster.waiting := by simp [Roster.push, hk]
  obtain ⟨s', m, hp, hh', hm⟩ := hh.push hn
  rw [← hw] at hh'
  have hch : h.Changes { h with links := m } ([Cell.node n].map .cell) :=
    .ofLinks fun c hc => hm c (by simpa using hc)
  rw [hsites]
  refine ⟨⟨.stack s', e.roster.push n, hk.symm⟩, s', m, hp, rfl, rfl, ⟨hh', he.inOrder.push n⟩,
    Roster.sites_push n, hch.mono ?_⟩
  simp [hk, Container.Kind.site]

theorem Holds.pop_stack (hs : e.container = .stack s) (he : e.Holds h) : ∃ e' s' m,
    s.pop h.links = (e.roster.waiting.head?.map .node, s', m) ∧ e'.container = .stack s' ∧
      e'.roster = e.roster.pop ∧ Outcome e.sites h e' { h with links := m } := by
  obtain ⟨hk, hh, hsites⟩ := he.stack hs
  obtain ⟨s', m, hp, hh', hm⟩ := hh.pop
  rw [hsites]
  exact ⟨⟨.stack s', e.roster.pop, hk.symm⟩, s', m, hp, rfl, rfl, ⟨hh', he.inOrder.pop⟩,
    Roster.sites_pop, changes_of_links (fun j => hk ▸ rfl) hm⟩

end Stack

/-- A push of a node from outside never fails. Only a chain asks for a clear link, and only a
stamped queue runs out of stamps. -/
theorem Holds.push (he : e.Holds h) (hn : n ∉ e.roster.waiting)
    (hc : e.roster.kind = .chain → h.links.isLinked (.node n) = false)
    (hs : e.roster.kind = .stamped → e.roster.pushed.length + 1 < UInt32.size) : ∃ e' h',
      e.container.push h n = (none, e'.container, h') ∧ e'.roster = e.roster.push n ∧
        Outcome (e.roster.kind.site n :: e.sites) h e' h' := by
  cases hcon : e.container with
  | mpsc q => exact he.push_stub Container.wraps_mpsc hcon hn
  | spmc q s => exact he.push_stub (Container.wraps_spmc s) hcon hn
  | mpmc q s => exact he.push_stub (Container.wraps_mpmc s) hcon hn
  | stamped q =>
    obtain ⟨e', hq', hr⟩ := he.push_stamped hcon hn (hs (he.stamped hcon).1)
    exact ⟨e', _, by simp only [Container.push, hq'], hr⟩
  | chain q =>
    obtain ⟨e', q', m, hp, hq', hr⟩ := he.push_chain hcon hn (hc (he.chain hcon).1)
    exact ⟨e', _, by simp only [Container.push, hp, hq'], hr⟩
  | stack s =>
    obtain ⟨e', s', m, hp, hs', hr⟩ := he.push_stack hcon hn
    exact ⟨e', _, by simp only [Container.push, hp, hs'], hr⟩

theorem filterMap_node (o : Option Nat) :
    (Popped.ofOption (o.map Cell.node)).filterMap Cell.node? = .ofOption o := by
  cases o <;> rfl

/-- A pop never fails, and finds a node exactly when one waits. -/
theorem Holds.pop (he : e.Holds h) : ∃ e' h',
    e.container.pop h = (.ofOption e.roster.waiting.head?, e'.container, h') ∧
      e'.roster = e.roster.pop ∧ Outcome e.sites h e' h' := by
  cases hcon : e.container with
  | mpsc q =>
    obtain ⟨e', h', hp, hr⟩ := he.pop_stub Container.wraps_mpsc hcon
    exact ⟨e', h', by simp only [Container.pop, hp, filterMap_node], hr⟩
  | spmc q s =>
    obtain ⟨e', h', hp, hr⟩ := he.pop_stub (Container.wraps_spmc s) hcon
    exact ⟨e', h', by simp only [Container.pop, hp, filterMap_node], hr⟩
  | mpmc q s =>
    obtain ⟨e', h', hp, hr⟩ := he.pop_stub (Container.wraps_mpmc s) hcon
    exact ⟨e', h', by simp only [Container.pop, hp, filterMap_node], hr⟩
  | stamped q =>
    obtain ⟨e', q', m, hp, hq', hr⟩ := he.pop_stamped hcon
    exact ⟨e', _, by simp only [Container.pop, hp, hq', filterMap_node], hr⟩
  | chain q =>
    obtain ⟨e', q', m, hp, hq', hr⟩ := he.pop_chain hcon
    exact ⟨e', _, by simp only [Container.pop, hp, hq', filterMap_node], hr⟩
  | stack s =>
    obtain ⟨e', s', m, hp, hs', hr⟩ := he.pop_stack hcon
    exact ⟨e', _, by simp only [Container.pop, hp, hs', filterMap_node], hr⟩

theorem Holds.isEmpty_eq (he : e.Holds h) : e.container.isEmpty h = e.roster.waiting.isEmpty := by
  have hh := he.holds
  rw [Bool.eq_iff_iff, List.isEmpty_iff]
  cases hcon : e.container <;> rw [hcon] at hh
  case mpsc q => exact StubQueue.Holds.isEmpty_iff hh
  case spmc q s => exact StubQueue.Holds.isEmpty_iff hh
  case mpmc q s => exact StubQueue.Holds.isEmpty_iff hh
  case stamped q => exact StampQueue.Holds.isEmpty_iff hh
  case chain q => exact ChainQueue.Holds.isEmpty_iff hh
  case stack s => exact ChainStack.Holds.isEmpty_iff hh

theorem Holds.top?_eq (he : e.Holds h) : e.container.top? = e.roster.top? := by
  have hh := he.holds
  have hkind := e.kind_eq
  cases hcon : e.container <;> rw [hcon] at hh hkind
  case stack s =>
    have ht : s.top = _ := ChainStack.Holds.top_eq hh
    have hn : (e.roster.waiting.head?.map Cell.node).bind Cell.node? = e.roster.waiting.head? := by
      cases e.roster.waiting.head? <;> rfl
    simp only [Container.top?, Roster.top?, ← hkind, Container.kind, ht, hn, if_true]
  all_goals simp [Container.top?, Roster.top?, ← hkind, Container.kind]

/-- A container that was just created uses no site of the heap but a stub that no other one has. -/
structure Made (k : Container.Kind) (h : Heap) (e : Entry) (h' : Heap) : Prop where
  roster : e.roster = { kind := k }
  holds : e.Holds h'
  changes : h.Changes h' [.cell (.stub h.freshStub)]
  sites : ∀ x ∈ e.sites, x = .cell (.stub h.freshStub) ∧ h.freshStub < h'.freshStub

theorem made_stub {wrap : StubQueue → Container} {k : Container.Kind} (w : Container.Wraps wrap k)
    (h : Heap) :
    Made k h ⟨wrap (.empty h.newStub.1), { kind := k }, w.kind _⟩ h.newStub.2 := by
  refine ⟨rfl, ⟨(w.holds ..).mpr (.empty rfl ?_), fun _ => rfl⟩, ⟨Nat.le_succ _, fun x hx => ?_⟩,
    fun x hx => ?_⟩
  · simp [Heap.newStub]
  · cases x with
    | hook n => rfl
    | cell c =>
      have hc : Cell.stub h.freshStub ≠ c := by
        rintro rfl
        simp at hx
      simp [Heap.Same, Heap.newStub, hc]
  · rw [sites_of_stub (w.stub _)] at hx
    have hx' : x = .cell (.stub h.freshStub) := List.mem_singleton.mp hx
    exact ⟨hx', Nat.lt_succ_self _⟩

theorem made_of_no_stub {c : Container} (hc : c.stub? = none) (hh : c.Holds h { kind := c.kind }) :
    Made c.kind h ⟨c, { kind := c.kind }, rfl⟩ h := by
  refine ⟨rfl, ⟨hh, fun _ => rfl⟩, .refl h _, fun x hx => ?_⟩
  rw [sites_of_no_stub hc] at hx
  simp [Roster.sites] at hx

theorem exists_create (k : Container.Kind) (spinCount : Nat) (h : Heap) : ∃ e h',
    Container.create k spinCount h = (e.container, h') ∧ Made k h e h' := by
  cases k with
  | mpsc => exact ⟨_, _, rfl, made_stub Container.wraps_mpsc h⟩
  | spmc => exact ⟨_, _, rfl, made_stub (Container.wraps_spmc spinCount) h⟩
  | mpmc => exact ⟨_, _, rfl, made_stub (Container.wraps_mpmc spinCount) h⟩
  | stamped =>
    exact ⟨_, h, rfl, made_of_no_stub (c := .stamped .empty) rfl (StampQueue.Holds.empty h.stamps)⟩
  | chain =>
    exact ⟨_, h, rfl, made_of_no_stub (c := .chain .empty) rfl (ChainQueue.Holds.empty h.links)⟩
  | stack =>
    exact ⟨_, h, rfl, made_of_no_stub (c := .stack .empty) rfl (ChainStack.Holds.empty h.links)⟩

theorem Holds.append {d : Entry} {q p : ChainQueue} (he : e.Holds h) (hd : d.Holds h)
    (hq : e.container = .chain q) (hp : d.container = .chain p)
    (hdis : e.sites.Disjoint d.sites) : ∃ e' q' m,
      q.append p h.links = (q', .empty, m) ∧ e'.container = .chain q' ∧
        e'.roster = e.roster.append d.roster ∧
        Outcome (e.sites ++ d.sites) h e' { h with links := m } := by
  obtain ⟨hke, hhe, hse⟩ := he.chain hq
  obtain ⟨hkd, hhd, hsd⟩ := hd.chain hp
  rw [hse, hsd] at hdis ⊢
  have hwait : e.roster.waiting.Disjoint d.roster.waiting := fun n hne hnd => by
    have hsite : d.roster.kind.site n ∈ d.roster.sites := Roster.site_mem_sites.mpr hnd
    rw [hkd, ← hke] at hsite
    exact hdis (Roster.site_mem_sites.mpr hne) hsite
  obtain ⟨q', m, ha, hh', hm⟩ := hhe.append hhd hwait
  have hch : h.Changes { h with links := m } e.roster.sites :=
    changes_of_links (fun j => hke ▸ rfl) hm
  refine ⟨⟨.chain q', e.roster.append d.roster, hke.symm⟩, q', m, ha, rfl, rfl,
    ⟨hh', he.inOrder.append d.roster⟩, ?_, hch.mono (List.subset_append_left _ _)⟩
  rw [sites_of_no_stub rfl]
  simp [Roster.sites, Roster.append, hke, hkd]

end Entry

end LinkedQueues

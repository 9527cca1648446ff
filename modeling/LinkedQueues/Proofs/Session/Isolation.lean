import LinkedQueues.Proofs.Container.Locality
import LinkedQueues.Proofs.Session.Agreement

/-!
A container and the nodes outside of it. Two sessions that agree on the container, its stub and the
hooks of the nodes inside give the same answers to whoever uses the container, whatever the other
hooks are, and such a use reaches no further than these sites and the node that is pushed.
-/
namespace LinkedQueues

/-- The stub of the container, and the hooks of the nodes inside. -/
def Container.sites (c : Container) (r : Roster) : List Site :=
  (c.stub?.map Site.cell).toList ++ r.sites

namespace Registry

variable {Q : Type} {r : Registry Q} {name : String} {o : Owner} {q : Q}

theorem at?_of_owner? (hq : r.queue? name = some q) (ho : r.owner? name = some o) :
    r.at? o = some q := by
  obtain ⟨o', ho', hat⟩ := exists_owner hq
  obtain rfl : o' = o := Option.some.inj (ho'.symm.trans ho)
  exact hat

theorem owner?_setQueue (r : Registry Q) (name : String) (q : Q) :
    (r.setQueue name q).owner? = r.owner? := by
  funext n
  rw [setQueue]
  cases hh : r.holding? name with
  | none => rfl
  | some h =>
    cases h with
    | owned p =>
      by_cases hn : name = n
      · subst hn
        rw [owner?, owner?, hh]
        simp [holding?]
      · simp [owner?, holding?, Store.read_write_of_ne _ hn]
    | producer id => cases hr : r.shared.read id <;> simp [owner?, holding?, hr]
    | consumer id => cases hr : r.shared.read id <;> simp [owner?, holding?, hr]

end Registry

namespace Linked

namespace Command

def slot? : Command → Option String
  | .push slot .. | .pop slot _ | .isEmpty slot => some slot
  | _ => none

def Uses (r : Registry Container) (o : Owner) (u : Command) : Prop :=
  u.slot?.bind r.owner? = some o

instance (r : Registry Container) (o : Owner) (u : Command) : Decidable (u.Uses r o) :=
  inferInstanceAs (Decidable (_ = _))

def pushed (k : Container.Kind) : Command → List Site
  | .push _ node _ => [k.site node]
  | _ => []

end Command

/-- Two sessions that may differ in the hooks of the nodes outside of the container of `o`. -/
structure Twins (o : Owner) (l : Ledger) (s s' : Session) : Prop where
  nodes : s'.nodes = s.nodes
  registry : s'.registry = s.registry
  same : ∃ c r, s.registry.at? o = some c ∧ l.registry.at? o = some r ∧
    ∀ x ∈ c.sites r, s.heap.Same s'.heap x

/-- A command writes only to the hooks of the nodes that are in the container of `o` at this moment,
to the stub of the container and to the hook of the node that it pushes. -/
def KeepsTo (o : Owner) (l : Ledger) (s : Session) (u : Command) : Prop :=
  ∃ c r, s.registry.at? o = some c ∧ l.registry.at? o = some r ∧
    s.heap.Changes (s.step u).2.heap (u.pushed r.kind ++ c.sites r)

/-- What a use of the container of `o` does to twins. -/
structure Parallel (o : Owner) (l : Ledger) (s s' : Session) (u : Command) : Prop where
  answer : (s'.step u).1 = (s.step u).1
  twins : Twins o (l.step u).2 (s.step u).2 (s'.step u).2
  owners : (s.step u).2.registry.owner? = s.registry.owner?
  left : KeepsTo o l s u
  right : KeepsTo o l s' u

section Twins

variable {p : Registry Entry} {s s' t t' : Session} {l : Ledger} {o : Owner} {e d : Entry}
  {h h' : Heap} {u : Command} {us : List Command} {slot : String} {access : Access} {node : Nat}
  {xs : List Site}

namespace Twins

theorem exists_entry (ht : Twins o l s s') (ha : Agree p s l) :
    ∃ e, p.at? o = some e ∧ ∀ x ∈ e.sites, s.heap.Same s'.heap x := by
  obtain ⟨c, r, hc, hr, hs⟩ := ht.same
  have hc' := hc
  rw [ha.containers, Registry.at?_map, Option.map_eq_some_iff] at hc'
  obtain ⟨e, he, -⟩ := hc'
  obtain ⟨hc', hr'⟩ := ha.at?_eq he
  obtain rfl : c = e.container := Option.some.inj (hc.symm.trans hc')
  obtain rfl : r = e.roster := Option.some.inj (hr.symm.trans hr')
  exact ⟨e, he, hs⟩

theorem still (ht : Twins o l s s') {a b : Answer Nat} (hs : s.step u = (a, s))
    (hs' : s'.step u = (a, s')) (hl : l.step u = (b, l)) : Parallel o l s s' u := by
  obtain ⟨c, r, hc, hr, -⟩ := ht.same
  refine ⟨by rw [hs, hs'], by rw [hs, hs', hl]; exact ht, by rw [hs], ⟨c, r, hc, hr, ?_⟩,
    ⟨c, r, by rw [ht.registry, hc], hr, ?_⟩⟩
  · rw [hs]
    exact .refl ..
  · rw [hs']
    exact .refl ..

theorem update (ht : Twins o l s s') (ha : Agree p s l) (hn : p.owner? slot = some o)
    (ho : p.at? o = some e) (hanswer : (s'.step u).1 = (s.step u).1)
    (hs : (s.step u).2 = s.update slot d.container h)
    (hs' : (s'.step u).2 = s'.update slot d.container h')
    (hl : (l.step u).2 = l.update slot d.roster)
    (hagree : Agree (p.setQueue slot d) (s.update slot d.container h) (l.update slot d.roster))
    (hsame : ∀ x ∈ d.sites, h.Same h' x)
    (hc : s.heap.Changes h (u.pushed e.roster.kind ++ e.sites))
    (hc' : s'.heap.Changes h' (u.pushed e.roster.kind ++ e.sites)) : Parallel o l s s' u := by
  have hd : (p.setQueue slot d).at? o = some d := by
    rw [Registry.at?_setQueue hn ho, Function.update_self]
  obtain ⟨hsd, hld⟩ := hagree.at?_eq hd
  obtain ⟨hse, hle⟩ := ha.at?_eq ho
  refine ⟨hanswer, ?_, ?_, ⟨_, _, hse, hle, ?_⟩, ⟨_, _, ht.registry ▸ hse, hle, ?_⟩⟩
  · rw [hs, hs', hl]
    refine ⟨ht.nodes, ?_, ⟨_, _, hsd, hld, hsame⟩⟩
    rw [Session.update, Session.update, ht.registry]
  · rw [hs]
    exact Registry.owner?_setQueue ..
  · rw [hs]
    exact hc
  · rw [hs']
    exact hc'

theorem at?_eq (ht : Twins o l s s') (ha : Agree p s l) (hn : p.owner? slot = some o)
    (hq : p.queue? slot = some e) :
    p.at? o = some e ∧ ∀ x ∈ e.sites, s.heap.Same s'.heap x := by
  obtain ⟨d, ho, hsame⟩ := ht.exists_entry ha
  obtain rfl : e = d := Option.some.inj ((Registry.at?_of_owner? hq hn).symm.trans ho)
  exact ⟨ho, hsame⟩

theorem producing? (ht : Twins o l s s') (ha : Agree p s l) (hn : p.owner? slot = some o)
    (access : Access) : ∃ q : Option Entry,
    s.producing? slot access = q.map Entry.container ∧
      s'.producing? slot access = q.map Entry.container ∧
      l.producing? slot access = q.map Entry.roster ∧
      ∀ e, q = some e → p.at? o = some e ∧ ∀ x ∈ e.sites, s.heap.Same s'.heap x := by
  obtain ⟨q, hs, hl, hq⟩ := ha.producing? slot access
  refine ⟨q, hs, ?_, hl, fun e he => ht.at?_eq ha hn (hq e he)⟩
  rw [Session.producing?, ht.registry]
  exact hs

theorem consuming? (ht : Twins o l s s') (ha : Agree p s l) (hn : p.owner? slot = some o)
    (access : Access) : ∃ q : Option Entry,
    s.consuming? slot access = q.map Entry.container ∧
      s'.consuming? slot access = q.map Entry.container ∧
      l.consuming? slot access = q.map Entry.roster ∧
      ∀ e, q = some e → p.at? o = some e ∧ ∀ x ∈ e.sites, s.heap.Same s'.heap x := by
  obtain ⟨q, hs, hl, hq⟩ := ha.consuming? slot access
  refine ⟨q, hs, ?_, hl, fun e he => ht.at?_eq ha hn (hq e he)⟩
  rw [Session.consuming?, ht.registry]
  exact hs

theorem push (ht : Twins o l s s') (ha : Agree p s l) (hn : p.owner? slot = some o)
    (hp : l.Permits s.heap (.push slot node access))
    (hp' : l.Permits s'.heap (.push slot node access)) :
    Parallel o l s s' (.push slot node access) := by
  have hstep : s.step (.push slot node access) = s.push slot node access := rfl
  have hstep' : s'.step (.push slot node access) = s'.push slot node access := rfl
  have hlist : l.step (.push slot node access) = l.push slot node access := rfl
  obtain ⟨q, hs, hs', hl, hq⟩ := ht.producing? ha hn access
  rw [Session.push, hs] at hstep
  rw [Session.push, hs', ht.nodes] at hstep'
  rw [Ledger.push, hl, ← ha.nodes] at hlist
  by_cases hnode : node < s.nodes
  · rw [if_pos hnode] at hstep hstep' hlist
    cases q with
    | none => exact ht.still hstep hstep' hlist
    | some e =>
      obtain ⟨ho, hsame⟩ := hq e rfl
      have hfit : l.Admits s.heap e.roster node := hp e.roster hl
      have hfit' : l.Admits s'.heap e.roster node := hp' e.roster hl
      have he := ha.separate.holds ho
      have hwait := ha.not_mem_waiting ho hfit
      obtain ⟨d₁, h, hpush, hr, hout, hagree⟩ := ha.pushEntry hn ho hfit
      obtain ⟨d₂, h', hpush', -, hout'⟩ :=
        (he.congr hsame).push hwait hfit'.clear hfit'.stamps
      -- Only a chain reads the hook of a node that comes, and it is clear in both heaps.
      have hal : Heap.Alike _ (e.container.push s.heap node) (e.container.push s'.heap node) :=
        he.push_alike hwait fun hk => ⟨hfit.clear hk, hfit'.clear hk⟩
      rw [hpush, hpush'] at hal
      have hd : d₂.container = d₁.container := hal.container
      simp only [Option.map_some, hpush] at hstep
      simp only [Option.map_some, hpush', hd] at hstep'
      simp only [Option.map_some, ← hr] at hlist
      exact ht.update ha hn ho (by rw [hstep, hstep']; rfl) (congrArg Prod.snd hstep)
        (congrArg Prod.snd hstep') (congrArg Prod.snd hlist) hagree
        (fun x hx => hal.same x ((List.mem_cons.mp (hout.sites hx)).imp_right (hsame x)))
        hout.changes hout'.changes
  · rw [if_neg hnode] at hstep hstep' hlist
    exact ht.still hstep hstep' hlist

theorem pop (ht : Twins o l s s') (ha : Agree p s l) (hn : p.owner? slot = some o) :
    Parallel o l s s' (.pop slot access) := by
  have hstep : s.step (.pop slot access) = s.pop slot access := rfl
  have hstep' : s'.step (.pop slot access) = s'.pop slot access := rfl
  have hlist : l.step (.pop slot access) = l.pop slot access := rfl
  obtain ⟨q, hs, hs', hl, hq⟩ := ht.consuming? ha hn access
  rw [Session.pop, hs] at hstep
  rw [Session.pop, hs'] at hstep'
  rw [Ledger.pop, hl] at hlist
  cases q with
  | none => exact ht.still hstep hstep' hlist
  | some e =>
    obtain ⟨ho, hsame⟩ := hq e rfl
    have he := ha.separate.holds ho
    obtain ⟨d₁, h, hpop, hr, hout, hagree⟩ := ha.popEntry hn ho
    obtain ⟨d₂, h', hpop', -, hout'⟩ := (he.congr hsame).pop
    have hal : Heap.Alike _ (e.container.pop s.heap) (e.container.pop s'.heap) :=
      he.pop_alike hsame
    rw [hpop, hpop'] at hal
    have hd : d₂.container = d₁.container := hal.container
    simp only [Option.map_some, hpop] at hstep
    simp only [Option.map_some, hpop', hd] at hstep'
    simp only [Option.map_some, ← hr] at hlist
    exact ht.update ha hn ho (by rw [hstep, hstep']) (congrArg Prod.snd hstep)
      (congrArg Prod.snd hstep') (congrArg Prod.snd hlist) hagree
      (fun x hx => hal.same x (hsame x (hout.sites hx))) hout.changes hout'.changes

theorem isEmpty (ht : Twins o l s s') (ha : Agree p s l) (hn : p.owner? slot = some o) :
    Parallel o l s s' (.isEmpty slot) := by
  have hstep : s.step (.isEmpty slot) = s.isEmpty slot := rfl
  have hstep' : s'.step (.isEmpty slot) = s'.isEmpty slot := rfl
  have hlist : l.step (.isEmpty slot) = l.isEmpty slot := rfl
  obtain ⟨q, hs, hs', hl, hq⟩ := ht.consuming? ha hn .direct
  rw [Session.isEmpty, hs] at hstep
  rw [Session.isEmpty, hs'] at hstep'
  rw [Ledger.isEmpty, hl] at hlist
  cases q with
  | none => exact ht.still hstep hstep' hlist
  | some e =>
    obtain ⟨ho, hsame⟩ := hq e rfl
    have hempty := (ha.separate.holds ho).isEmpty_alike hsame
    simp only [Option.map_some] at hstep hstep' hlist
    rw [hempty] at hstep'
    exact ht.still hstep hstep' hlist

theorem step (ht : Twins o l s s') (ha : Agree p s l) (hu : u.Uses s.registry o)
    (hp : l.Permits s.heap u) (hp' : l.Permits s'.heap u) : Parallel o l s s' u := by
  rw [Command.Uses, ha.owner?_eq.1] at hu
  cases u with
  | push slot node access => exact ht.push ha hu hp hp'
  | pop slot access => exact ht.pop ha hu
  | isEmpty slot => exact ht.isEmpty ha hu
  | _ => cases hu

theorem of_common (ht : Twins o l s t) (ht' : Twins o l s t') : Twins o l t t' := by
  obtain ⟨c, r, hc, hr, hs⟩ := ht.same
  obtain ⟨c', r', hc', hr', hs'⟩ := ht'.same
  obtain rfl : c = c' := Option.some.inj (hc.symm.trans hc')
  obtain rfl : r = r' := Option.some.inj (hr.symm.trans hr')
  refine ⟨ht'.nodes.trans ht.nodes.symm, ht'.registry.trans ht.registry.symm, c, r, ?_, hr,
    fun x hx => (hs x hx).of_common (hs' x hx)⟩
  rw [ht.registry, hc]

theorem frame (ht : Twins o l s t) (ha : Agree p s l) (hc : s.heap.Changes h xs)
    (hx : Avoids p.at? xs) : Twins o l { s with heap := h } t := by
  obtain ⟨e, ho, hs⟩ := ht.exists_entry ha
  obtain ⟨hc', hr⟩ := ha.at?_eq ho
  refine ⟨ht.nodes, ht.registry, e.container, e.roster, hc', hr, fun x hxe => ?_⟩
  exact (hc.same x fun hm => hx o e ho hm hxe).of_common (hs x hxe)

end Twins

theorem Parallel.of_common (h : Parallel o l s t u) (h' : Parallel o l s t' u)
    (ht : Twins o l s t) : Parallel o l t t' u := by
  refine ⟨h'.answer.trans h.answer.symm, h.twins.of_common h'.twins, ?_, h.right, h'.right⟩
  rw [h.twins.registry, h.owners, ht.registry]

/-- What is permitted to a twin is permitted once the hook of the pushed node is clear. -/
theorem Agree.ready (ha : Agree p s l) (hu : u.Uses s.registry o) (hp : l.Permits h u) :
    ∃ g xs, s.heap.Changes g xs ∧ Avoids p.at? xs ∧ l.Permits g u := by
  have hstill : s.heap.Changes s.heap [] ∧ Avoids p.at? [] := ⟨.refl _ _, fun _ _ _ => by simp⟩
  cases u with
  | push slot node access =>
    by_cases hx : l.Outside (.cell (.node node))
    · refine ⟨_, _, .clear s.heap node, ha.avoids_of_outside (k := .mpsc) hx, fun r hr => ?_⟩
      have hfit : l.Admits h r node := hp r hr
      exact ⟨hfit.outside, fun _ => by simp [Links.isLinked], hfit.stamps⟩
    · -- The node is linked elsewhere, so it is not pushed into a chain.
      refine ⟨_, _, hstill.1, hstill.2, fun r hr => ?_⟩
      have hfit : l.Admits h r node := hp r hr
      refine ⟨hfit.outside, fun hk => absurd ?_ hx, hfit.stamps⟩
      have hout := hfit.outside
      rwa [hk] at hout
  | pop slot access => exact ⟨_, _, hstill.1, hstill.2, trivial⟩
  | isEmpty slot => exact ⟨_, _, hstill.1, hstill.2, trivial⟩
  | _ => cases hu

theorem Twins.run (ht : Twins o l s t) (ht' : Twins o l s t') (ha : Agree p s l)
    (hu : ∀ u ∈ us, u.Uses s.registry o) (ho : t.Obeys l us) (ho' : t'.Obeys l us) :
    (t'.run us).1 = (t.run us).1 ∧ ∀ xs u, xs ++ [u] <+: us →
      Parallel o (l.run xs).2 (t.run xs).2 (t'.run xs).2 u := by
  induction us generalizing p s t t' l with
  | nil => exact ⟨rfl, fun xs u hx => by simp at hx⟩
  | cons c cs ih =>
    have huse := hu c List.mem_cons_self
    obtain ⟨g, xs, hc, hx, hp⟩ := ha.ready huse ho.1
    have hag := ha.frame hc hx
    have htg := ht.frame ha hc hx
    have hpar := htg.step hag huse hp ho.1
    have hpar' := (ht'.frame ha hc hx).step hag huse hp ho'.1
    have hboth := hpar.of_common hpar' htg
    obtain ⟨-, p', ha'⟩ := hag.step hp
    obtain ⟨hanswers, hrest⟩ := ih hpar.twins hpar'.twins ha' (fun u hm => by
      rw [Command.Uses, hpar.owners]
      exact hu u (List.mem_cons_of_mem c hm)) ho.2 ho'.2
    refine ⟨?_, fun xs u hx => ?_⟩
    · show (t'.step c).1 :: _ = (t.step c).1 :: _
      exact congrArg₂ List.cons hboth.answer hanswers
    · cases xs with
      | nil =>
        obtain rfl : u = c := (List.cons_prefix_cons.mp hx).1
        exact hboth
      | cons x xs =>
        obtain ⟨rfl, hx'⟩ := List.cons_prefix_cons.mp hx
        exact hrest xs u hx'

end Twins

namespace Session

/-- Take the session after any run in which the callers keep their promises, and change the hooks of
the nodes that are outside of one of the containers as you like, in two ways. Pushes, pops and
emptiness tests of this container are answered the same both ways, with the same events, and each of
them writes only to the hooks of the nodes that are inside at that moment, to that of the node that
it pushes and to the stub of the container. -/
theorem run_eq_of_same_sites (nodes : Nat) (heap : Heap) (cs : List Command)
    (ho : (onHeap nodes heap).Obeys (.start nodes) cs) (o : Owner) (c : Container)
    (hc : ((onHeap nodes heap).run cs).2.registry.at? o = some c) :
    let s := ((onHeap nodes heap).run cs).2
    let l := ((Ledger.start nodes).run cs).2
    ∃ r, l.registry.at? o = some r ∧
      ∀ h h', (∀ x ∈ c.sites r, s.heap.Same h x ∧ s.heap.Same h' x) →
        let t := { s with heap := h }
        let t' := { s with heap := h' }
        ∀ us, (∀ u ∈ us, u.Uses s.registry o) → t.Obeys l us → t'.Obeys l us →
          (t'.run us).1 = (t.run us).1 ∧ ∀ xs u, xs ++ [u] <+: us →
            Parallel o (l.run xs).2 (t.run xs).2 (t'.run xs).2 u := by
  intro s l
  obtain ⟨-, p, ha⟩ := (Agree.start nodes heap).run ho
  have hat := hc
  rw [ha.containers, Registry.at?_map, Option.map_eq_some_iff] at hat
  obtain ⟨e, he, rfl⟩ := hat
  have hr : l.registry.at? o = some e.roster := (ha.at?_eq he).2
  refine ⟨e.roster, hr, ?_⟩
  intro h h' hs t t' us hu hobeys hobeys'
  have ht : Twins o l s t := ⟨rfl, rfl, e.container, e.roster, hc, hr, fun x hx => (hs x hx).1⟩
  have ht' : Twins o l s t' :=
    ⟨rfl, rfl, e.container, e.roster, hc, hr, fun x hx => (hs x hx).2⟩
  exact ht.run ht' ha hu hobeys hobeys'

def commandsBefore : List Command :=
  [.create "line" .stamped false none, .split "line" "in" "out", .push "in" 0 .direct,
   .pop "out" .direct, .push "in" 1 .direct]

/-- Node `0`, which is outside, looks as if it were next in line. -/
def withHook (next : Option Nat) (h : Heap) : Heap := { h with stamps := h.stamps.put 0 ⟨next, 3⟩ }

def commandsAfter : List Command :=
  [.push "in" 2 .direct, .isEmpty "out", .pop "out" .direct, .push "in" 0 .direct,
   .pop "out" .direct, .pop "out" .direct, .pop "out" .direct]

theorem run_eq_withHook :
    let s := ((onHeap 3 .empty).run commandsBefore).2
    let t := { s with heap := withHook (some 2) s.heap }
    let t' := { s with heap := withHook (some 1) s.heap }
    let l := ((Ledger.start 3).run commandsBefore).2
    (t'.run commandsAfter).1 = (t.run commandsAfter).1 ∧
      (t.run commandsAfter).1.map Answer.reply = [.done, .flag false, .item (some 1), .done,
        .item (some 2), .item (some 0), .item none] ∧
      ∀ xs u, xs ++ [u] <+: commandsAfter →
        Parallel (.shared 0) (l.run xs).2 (t.run xs).2 (t'.run xs).2 u := by
  intro s t t' l
  have ho : (onHeap 3 .empty).Obeys (.start 3) commandsBefore := by decide +kernel
  have hc : s.registry.at? (.shared 0) = some (.stamped ⟨some 1, 2, none, 1⟩) := by
    decide +kernel
  have hl : l.registry.at? (.shared 0) = some ⟨.stamped, [1], [0, 1], [0]⟩ := by decide +kernel
  obtain ⟨r, hr, hall⟩ := run_eq_of_same_sites 3 .empty commandsBefore ho (.shared 0) _ hc
  obtain rfl := Option.some.inj (hl.symm.trans hr)
  have hsame : ∀ x ∈ [Site.hook 1],
      s.heap.Same (withHook (some 2) s.heap) x ∧ s.heap.Same (withHook (some 1) s.heap) x := by
    simp [Heap.Same, withHook]
  have hu : ∀ u ∈ commandsAfter, u.Uses s.registry (.shared 0) := by decide +kernel
  have hobeys : t.Obeys l commandsAfter := by decide +kernel
  have hobeys' : t'.Obeys l commandsAfter := by decide +kernel
  obtain ⟨hanswers, hparallel⟩ := hall _ _ hsame commandsAfter hu hobeys hobeys'
  exact ⟨hanswers, by decide +kernel, hparallel⟩

end Session

end Linked

end LinkedQueues

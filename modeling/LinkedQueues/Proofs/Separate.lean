import LinkedQueues.Proofs.Container
import LinkedQueues.Proofs.Registry

/-!
Families of containers in one heap. The containers of a family keep out of each other's sites, so
that an operation on one of them leaves all others as they are.
-/
namespace LinkedQueues

open Function (update)

variable {X Y : Owner → Option Entry} {h h' : Heap} {e d : Entry} {o : Owner} {n : Nat}
  {xs : List Site}

/-- The entry holds, and uses no site that a container of the family uses. -/
structure Beside (h : Heap) (X : Owner → Option Entry) (e : Entry) : Prop where
  holds : e.Holds h
  stubs : ∀ id, Site.cell (.stub id) ∈ e.sites → id < h.freshStub
  apart : ∀ o d, X o = some d → e.sites.Disjoint d.sites

def Separate (h : Heap) (X : Owner → Option Entry) : Prop :=
  ∀ o e, X o = some e → Beside h (update X o none) e

def Avoids (X : Owner → Option Entry) (xs : List Site) : Prop :=
  ∀ o d, X o = some d → xs.Disjoint d.sites

namespace Beside

theorem mono (hb : Beside h X e) (hw : Registry.Within Y X) : Beside h Y e :=
  ⟨hb.holds, hb.stubs, fun o d hd => hb.apart o d (hw o d hd)⟩

theorem insert (hb : Beside h X e) (hd : e.sites.Disjoint d.sites) (o : Owner) :
    Beside h (update X o (some d)) e := by
  refine ⟨hb.holds, hb.stubs, fun p c hc => ?_⟩
  by_cases hp : p = o
  · obtain rfl : d = c := by simpa [hp] using hc
    exact hd
  · exact hb.apart p c (by rwa [Function.update_of_ne hp] at hc)

theorem frame (hb : Beside h X e) (hc : h.Changes h' xs) (hd : xs.Disjoint e.sites) :
    Beside h' X e := by
  refine ⟨hb.holds.congr fun x hx => hc.same x fun hm => hd hm hx, fun id hs => ?_, hb.apart⟩
  exact Nat.lt_of_lt_of_le (hb.stubs id hs) hc.fresh

end Beside

namespace Separate

theorem mono (hX : Separate h X) (hw : Registry.Within Y X) : Separate h Y :=
  fun o e he => (hX o e (hw o e he)).mono (hw.update o none)

theorem remove (hX : Separate h X) (o : Owner) : Separate h (update X o none) :=
  hX.mono (Registry.Within.update_none X o)

theorem insert (hX : Separate h X) (hb : Beside h X e) (o : Owner) :
    Separate h (update X o (some e)) := by
  intro p d hd
  by_cases hp : p = o
  · subst hp
    obtain rfl : e = d := by simpa using hd
    rw [Function.update_idem]
    exact hb.mono (Registry.Within.update_none X p)
  · rw [Function.update_of_ne hp] at hd
    rw [Function.update_comm (Ne.symm hp)]
    exact (hX p d hd).insert (fun x hx hxe => hb.apart p d hd hxe hx) o

theorem frame (hX : Separate h X) (hc : h.Changes h' xs) (hd : Avoids X xs) : Separate h' X :=
  fun o e he => (hX o e he).frame hc (hd o e he)

theorem holds (hX : Separate h X) (he : X o = some e) : e.Holds h := (hX o e he).holds

theorem disjoint (hX : Separate h X) {p : Owner} (he : X o = some e) (hd : X p = some d)
    (hne : p ≠ o) : e.sites.Disjoint d.sites :=
  (hX o e he).apart p d (by rwa [Function.update_of_ne hne])

end Separate

/-- An operation that keeps to its own sites keeps the family separate. -/
theorem Entry.Outcome.beside (ho : Entry.Outcome xs h e h') (hX : Separate h X) (ha : Avoids X xs)
    (hs : ∀ id, Site.cell (.stub id) ∈ xs → id < h.freshStub) :
    Separate h' X ∧ Beside h' X e := by
  refine ⟨hX.frame ho.changes ha, ho.holds, fun id hm => ?_, fun p d hd x hx => ?_⟩
  · exact Nat.lt_of_lt_of_le (hs id (ho.sites hm)) ho.changes.fresh
  · exact ha p d hd (ho.sites hx)

/-- The stub of a new container was nobody's. -/
theorem Entry.Made.beside {k : Container.Kind} (hm : Entry.Made k h e h') (hX : Separate h X) :
    Separate h' X ∧ Beside h' X e := by
  have ha : Avoids X [.cell (.stub h.freshStub)] := by
    intro o d hd x hx hxd
    obtain rfl := List.mem_singleton.mp hx
    exact Nat.lt_irrefl _ ((hX o d hd).stubs _ hxd)
  refine ⟨hX.frame hm.changes ha, hm.holds, fun id hs => ?_, fun p d hd x hx => ?_⟩
  · obtain ⟨he, hlt⟩ := hm.sites _ hs
    simp only [Site.cell.injEq, Cell.stub.injEq] at he
    exact he ▸ hlt
  · exact ha p d hd (by simp [(hm.sites x hx).1])

theorem Entry.Made.beside_old {k : Container.Kind} (hm : Entry.Made k h d h') (hb : Beside h X e) :
    Beside h' X e ∧ e.sites.Disjoint d.sites := by
  have hd : [Site.cell (.stub h.freshStub)].Disjoint e.sites := by
    intro x hx hxe
    obtain rfl := List.mem_singleton.mp hx
    exact Nat.lt_irrefl _ (hb.stubs _ hxe)
  exact ⟨hb.frame hm.changes hd, fun x hx hxd => hd (by simp [(hm.sites x hxd).1]) hx⟩

theorem Beside.convert {wrap wrap' : StubQueue → Container} {k k' : Container.Kind} {q : StubQueue}
    (hb : Beside h X e) (w : Container.Wraps wrap k) (w' : Container.Wraps wrap' k')
    (hq : e.container = wrap q) :
    Beside h X ⟨wrap' q, { e.roster with kind := k' }, w'.kind q⟩ := by
  obtain ⟨hk, hh, hs⟩ := hb.holds.stub w hq
  have hs' : Entry.sites ⟨wrap' q, { e.roster with kind := k' }, w'.kind q⟩ = e.sites := by
    rw [hs, Entry.sites_of_stub (w'.stub q), Roster.sites, Roster.sites]
    simp [w'.site, hk, w.site]
  refine ⟨⟨(w'.holds ..).mpr hh, fun _ => hb.holds.inOrder (hk ▸ w.not_stack)⟩, ?_, ?_⟩
  · rw [hs']
    exact hb.stubs
  · rw [hs']
    exact hb.apart

end LinkedQueues

import LinkedQueues.Proofs.Container.Rows
import LinkedQueues.Proofs.Registry.All
import LinkedQueues.Proofs.Session.Agreement

/-!
What the link of a node tells about it. The ledger keeps for every node how it was used last. From
that and the lists of the ledger one knows which hooks are linked at any moment, whichever
containers the nodes went through.
-/
namespace LinkedQueues

theorem Container.Kind.site_eq {k : Container.Kind} (hk : k ≠ .stamped) (n : Nat) :
    k.site n = .cell (.node n) := by
  cases k <;> simp_all [site]

theorem Entry.Holds.node_mem {e : Entry} {h : Heap} {n : Nat} (he : e.Holds h)
    (hs : Site.cell (.node n) ∈ e.sites) : e.roster.kind ≠ .stamped ∧ n ∈ e.roster.waiting := by
  have hm : Site.cell (.node n) ∈ e.roster.sites := he.site_mem_sites (k := .mpsc) hs
  obtain ⟨k, hk, hsite⟩ := List.mem_map.mp hm
  have hkind : e.roster.kind ≠ .stamped := by
    intro hst
    simp [hst, Container.Kind.site] at hsite
  rw [Container.Kind.site_eq hkind, Site.cell.injEq, Cell.node.injEq] at hsite
  exact ⟨hkind, hsite ▸ hk⟩

namespace Linked

/-- The last thing that happened to a node, stamped queues aside. -/
inductive Past
  | untouched
  | entered
  /-- A container of this kind gave it back. Its hook may have been cleared since then. -/
  | left (kind : Container.Kind) (cleared : Bool)
  deriving DecidableEq

namespace Past

def clear : Past → Past
  | left k _ => left k true
  | p => p

/-- Whether the link of a node that is in no container leads somewhere. -/
def isLinked : Past → Bool
  | left k cleared => k.hasStub && !cleared
  | _ => false

/-- A node that went in may be anywhere in line, or its container may be gone. -/
def Fits (p : Past) (linked : Bool) : Prop := p ≠ entered → linked = p.isLinked

theorem fits_entered {p : Past} {linked : Bool} (hp : p = .entered) : p.Fits linked :=
  fun hne => absurd hp hne

theorem fits_clear {p : Past} : p.clear.Fits false := fun _ => by cases p <;> simp [clear, isLinked]

end Past

/-- A stamped queue leaves the plain hook of a node alone. -/
def mark (p : Nat → Past) (k : Container.Kind) (n : Nat) (x : Past) : Nat → Past :=
  if k = .stamped then p else Function.update p n x

section Mark

variable {p : Nat → Past} {k : Container.Kind} {m n : Nat} {x : Past}

theorem mark_of_ne (hm : m ≠ n) : mark p k n x m = p m := by
  rw [mark]
  split
  · rfl
  · exact Function.update_of_ne hm ..

theorem mark_self (hk : k ≠ .stamped) : mark p k n x n = x := by
  rw [mark, if_neg hk, Function.update_self]

theorem mark_of_site (hm : Site.cell (.node m) ≠ k.site n) : mark p k n x m = p m := by
  by_cases hk : k = .stamped
  · rw [mark, if_pos hk]
  · refine mark_of_ne fun he => hm ?_
    rw [Container.Kind.site_eq hk, he]

theorem mark_entered (hk : k ≠ .stamped) (hm : m = n ∨ p m = .entered) :
    mark p k n .entered m = .entered := by
  by_cases he : m = n
  · rw [he, mark_self hk]
  · rw [mark_of_ne he]
    exact hm.resolve_left he

end Mark

namespace Ledger

def past (l : Ledger) (p : Nat → Past) : Command → Nat → Past
  | .push slot node access =>
    if node < l.nodes then
      match l.producing? slot access with
      | none => p
      | some r => mark p r.kind node .entered
    else p
  | .pop slot access =>
    match l.consuming? slot access with
    | none => p
    | some r =>
      match r.waiting.head? with
      | none => p
      | some n => mark p r.kind n (.left r.kind false)
  | .clear node => if node < l.nodes then Function.update p node (p node).clear else p
  | _ => p

def pasts (l : Ledger) (p : Nat → Past) : List Command → Nat → Past
  | [] => p
  | c :: cs => (l.step c).2.pasts (l.past p c) cs

end Ledger

def Command.writesHooks : Command → Bool
  | .push .. | .pushRange .. | .pop .. | .drain .. | .append .. | .clear _ | .clearStamp _ => true
  | _ => false

namespace Ledger

variable {l : Ledger} {c : Command}

theorem past_eq (hc : c.writesHooks = false) (p : Nat → Past) : l.past p c = p := by
  cases c <;> first | rfl | cases hc

theorem step_all {P : Roster → Prop} (hl : l.registry.All fun _ => P) (hc : c.writesHooks = false)
    (hblank : ∀ k, P { kind := k }) (hmpsc : ∀ r, r.kind = .mpmc → P r → P { r with kind := .mpsc })
    (hmpmc : ∀ r, r.kind = .mpsc → P r → P { r with kind := .mpmc }) :
    (l.step c).2.registry.All fun _ => P := by
  cases c with
  | push | pushRange | pop | drain | append | clear | clearStamp => cases hc
  | create slot kind byDefault spinCount =>
    simp only [step, create]
    split
    · exact hl
    · exact hl.place (hblank kind)
  | isEmpty slot =>
    simp only [step, isEmpty]
    split <;> exact hl
  | top slot =>
    simp only [step, top]
    split <;> exact hl
  | take slot into =>
    simp only [step, take]
    split
    · exact hl
    · next r hr =>
      exact (hl.setQueue (Registry.queue?_of_owned? hr) fun _ _ => hblank r.kind).place
        (hl.owned? hr)
  | dispose slot =>
    simp only [step, dispose]
    split
    · exact hl
    · exact hl.dispose slot
  | split slot producer consumer =>
    simp only [step, Ledger.split]
    split
    · next r hr =>
      split
      · exact Registry.All.split hl (hl.owned? hr) slot producer consumer
      · exact hl
    · exact hl
  | clone slot into =>
    simp only [step, clone]
    split
    · split
      · split
        · exact Registry.All.clone hl _ into
        · exact hl
      · exact hl
    · exact hl
  | reclaim slot into =>
    simp only [step, reclaim]
    split
    · split
      · next hu => exact Registry.All.unshare hl hu fun _ h => h
      · exact hl
    · next r hr =>
      split
      · next hk =>
        exact (hl.vacate slot).place (hmpsc r hk (hl.owned? (Registry.owned?_eq_some.mpr hr)))
      · exact hl
    · exact hl
  | toMpmc slot into =>
    simp only [step, toMpmc]
    split
    · next r hr =>
      split
      · next hk => exact (hl.vacate slot).place (hmpmc r hk (hl.owned? hr))
      · exact hl
    · exact hl
  | spinCount | isLockFree | describe | isLinked | stamp | describeHook | describeStampHook =>
    exact hl

end Ledger

namespace Session

theorem links_create (k : Container.Kind) (spinCount : Nat) (h : Heap) (n : Nat) :
    (Container.create k spinCount h).2.links.read (.node n) = h.links.read (.node n) := by
  cases k <;> simp [Container.create, Heap.newStub]

/-- Wherever containers go, and whether or not they are dropped, the hooks stay as they are. -/
theorem links_step {c : Command} (s : Session) (hc : c.writesHooks = false) (n : Nat) :
    (s.step c).2.heap.links.read (.node n) = s.heap.links.read (.node n) := by
  cases c with
  | push | pushRange | pop | drain | append | clear | clearStamp => cases hc
  | create slot kind byDefault spinCount =>
    simp only [step, create]
    split
    · rfl
    · exact links_create ..
  | take slot into =>
    simp only [step, take]
    split
    · rfl
    · exact links_create ..
  | isEmpty | spinCount | isLockFree | top | describe | dispose | split | clone | reclaim | toMpmc
  | isLinked | stamp | describeHook | describeStampHook =>
    simp only [step, isEmpty, ofOption, dispose, split, clone, reclaim, toMpmc, onNode]
    repeat' split
    all_goals rfl

end Session

/-- The nodes of a list are linked in a row, and went into their container last. -/
structure Lined (m : Links) (p : Nat → Past) (r : Roster) : Prop where
  row : r.kind ≠ .stamped → m.Row r.waiting
  inside : r.kind ≠ .stamped → ∀ n ∈ r.waiting, p n = .entered

/-- The hooks are as the lists and the past of the nodes say. -/
structure HooksMatch (m : Links) (l : Ledger) (p : Nat → Past) : Prop where
  lined : l.registry.All fun _ => Lined m p
  fits : ∀ n, (p n).Fits (m.isLinked (.node n))

section HooksMatch

variable {q : Registry Entry} {s : Session} {l l' : Ledger} {p p' : Nat → Past} {m m' : Links}
  {h h' : Heap} {e d : Entry} {r : Roster} {o : Owner} {slot other : String} {access : Access}
  {node : Nat} {xs : List Site} {c : Command} {cs : List Command}

namespace Lined

theorem blank (m : Links) (p : Nat → Past) (k : Container.Kind) : Lined m p { kind := k } :=
  ⟨fun _ => .nil m, fun _ _ hn => by cases hn⟩

theorem congr (hr : Lined m p r) (hm : ∀ n ∈ r.waiting, r.kind ≠ .stamped →
    m'.read (.node n) = m.read (.node n) ∧ p' n = p n) : Lined m' p' r := by
  refine ⟨fun hk => (hr.row hk).congr fun n hn => (hm n hn hk).1, fun hk n hn => ?_⟩
  rw [(hm n hn hk).2]
  exact hr.inside hk n hn

theorem frame (hr : Lined h.links p e.roster) (hc : h.Changes h' xs)
    (hp : ∀ n, Site.cell (.node n) ∉ xs → p' n = p n) (hd : xs.Disjoint e.sites) :
    Lined h'.links p' e.roster := by
  refine hr.congr fun n hn hk => ?_
  have hsite : Site.cell (.node n) ∈ e.sites := by
    rw [← Container.Kind.site_eq hk]
    exact e.roster_sites_subset (Roster.site_mem_sites.mpr hn)
  exact ⟨hc.same (.cell (.node n)) fun hm => hd hm hsite, hp n fun hm => hd hm hsite⟩

theorem push (hr : Lined m p r) (n : Nat) (hrow : r.kind ≠ .stamped → m'.Row (r.push n).waiting) :
    Lined m' (mark p r.kind n .entered) (r.push n) := by
  refine ⟨hrow, fun hk k hm => mark_entered hk ?_⟩
  have hmem : k = n ∨ k ∈ r.waiting := by
    rw [Roster.push] at hm
    split at hm <;> simpa [or_comm] using hm
  exact hmem.imp_right (hr.inside hk k)

theorem pop {n : Nat} {ns : List Nat} (hr : Lined m p r) (hw : r.waiting = n :: ns) (x : Past)
    (hm : r.kind ≠ .stamped → ∀ k, k ≠ n → m'.read (.node k) = m.read (.node k)) :
    Lined m' (mark p r.kind n x) r.pop := by
  have hne (hk : r.kind ≠ .stamped) (k : Nat) (hkm : k ∈ r.pop.waiting) : k ≠ n := by
    have hnodup := (hr.row hk).nodup
    rw [hw, List.nodup_cons] at hnodup
    rw [Roster.pop, hw, List.tail_cons] at hkm
    exact fun he => hnodup.1 (he ▸ hkm)
  refine ⟨fun hk => (hr.row hk).tail.congr fun k hkm => hm hk k (hne hk k hkm),
    fun hk k hkm => ?_⟩
  rw [mark_of_ne (hne hk k hkm)]
  exact hr.inside hk k (List.mem_of_mem_tail hkm)

theorem convert {k : Container.Kind} (hr : Lined m p r) (hk : r.kind ≠ .stamped) :
    Lined m p { r with kind := k } := ⟨fun _ => hr.row hk, fun _ => hr.inside hk⟩

end Lined

namespace HooksMatch

theorem start (hclear : ∀ n, m.isLinked (.node n) = false) (nodes : Nat) :
    HooksMatch m (.start nodes) fun _ => .untouched := ⟨.empty, fun n _ => hclear n⟩

theorem isLinked_iff (ht : HooksMatch m l p) (hr : r ∈ l.registry.queues) (hk : r.kind ≠ .stamped)
    {n : Nat} (hn : n ∈ r.waiting) : m.isLinked (.node n) = true ↔ r.waiting.getLast? ≠ some n :=
  ((Registry.All.iff_queues.mp ht.lined r hr).row hk).isLinked_iff hn

theorem lined_entry (ht : HooksMatch m l p) (ha : Agree q s l) (ho : q.at? o = some e) :
    Lined m p e.roster := by
  refine ht.lined o _ ?_
  rw [ha.rosters, Registry.at?_map, ho, Option.map_some]

/-- What is in a container went in last. -/
theorem past_of_site (ht : HooksMatch m l p) (ha : Agree q s l) (ho : q.at? o = some e) {n : Nat}
    (hs : Site.cell (.node n) ∈ e.sites) : p n = .entered := by
  obtain ⟨hk, hn⟩ := (ha.separate.holds ho).node_mem hs
  exact (ht.lined_entry ha ho).inside hk n hn

theorem fits_of_changes (ht : HooksMatch h.links l p) (hc : h.Changes h' xs)
    (hp : ∀ n, Site.cell (.node n) ∉ xs → p' n = p n)
    (hfits : ∀ n, Site.cell (.node n) ∈ xs → (p' n).Fits (h'.links.isLinked (.node n))) (n : Nat) :
    (p' n).Fits (h'.links.isLinked (.node n)) := by
  by_cases hm : Site.cell (.node n) ∈ xs
  · exact hfits n hm
  · have hread : h'.links.read (.node n) = h.links.read (.node n) := hc.same _ hm
    rw [hp n hm, Links.isLinked, hread]
    exact ht.fits n

theorem update (ht : HooksMatch s.heap.links l p) (ha : Agree q s l) (hn : q.owner? slot = some o)
    (ho : q.at? o = some e) (hx : Avoids q.at? xs) (hc : s.heap.Changes h (xs ++ e.sites))
    (hp : ∀ n, Site.cell (.node n) ∉ xs ++ e.sites → p' n = p n)
    (hfits : ∀ n, Site.cell (.node n) ∈ xs ++ e.sites → (p' n).Fits (h.links.isLinked (.node n)))
    (hr : Lined h.links p' r) : HooksMatch h.links (l.update slot r) p' := by
  have hapart (o' : Owner) (d : Entry) (hne : o' ≠ o) (hd : q.at? o' = some d) :
      (xs ++ e.sites).Disjoint d.sites := by
    intro x hm hxd
    rcases List.mem_append.mp hm with hm | hm
    · exact hx o' d hd hm hxd
    · exact ha.separate.disjoint ho hd hne hm hxd
  have howner : l.registry.owner? slot = some o := by rw [ha.owner?_eq.2, hn]
  refine ⟨Registry.All.setQueue_of_others howner (ha.at?_eq ho).2 (fun o' t hne hat => ?_) hr,
    ht.fits_of_changes hc hp hfits⟩
  obtain ⟨d, hd, rfl⟩ := ha.exists_at? hat
  exact (ht.lined_entry ha hd).frame hc hp (hapart o' d hne hd)

theorem frame (ht : HooksMatch s.heap.links l p) (ha : Agree q s l) (hx : Avoids q.at? xs)
    (hc : s.heap.Changes h xs) (hp : ∀ n, Site.cell (.node n) ∉ xs → p' n = p n)
    (hfits : ∀ n, Site.cell (.node n) ∈ xs → (p' n).Fits (h.links.isLinked (.node n))) :
    HooksMatch h.links l p' := by
  refine ⟨fun o t hat => ?_, ht.fits_of_changes hc hp hfits⟩
  obtain ⟨d, hd, rfl⟩ := ha.exists_at? hat
  exact (ht.lined_entry ha hd).frame hc hp (hx o d hd)

theorem push (ht : HooksMatch s.heap.links l p) (ha : Agree q s l)
    (hp : l.Permits s.heap (.push slot node access)) :
    HooksMatch (s.push slot node access).2.heap.links (l.push slot node access).2
      (l.past p (.push slot node access)) := by
  obtain ⟨t, hs, hl, hq⟩ := ha.producing? slot access
  rw [Session.push, Ledger.push, Ledger.past, hs, hl, ha.nodes]
  by_cases hn : node < l.nodes
  · simp only [if_pos hn]
    cases t with
    | none => exact ht
    | some e =>
      obtain ⟨o, howner, ho⟩ := Registry.exists_owner (hq e rfl)
      have hfit : l.Admits s.heap e.roster node := hp e.roster hl
      have hout := ha.not_mem_waiting ho hfit
      have he := ha.separate.holds ho
      have hlined := ht.lined_entry ha ho
      obtain ⟨d, h, hpush, hr, hd, -⟩ := ha.pushEntry howner ho hfit
      simp only [Option.map_some, hpush]
      refine ht.update ha howner ho (ha.avoids_of_outside hfit.outside) hd.changes
        (fun n hm => mark_of_site fun hsite => hm (by simp [hsite])) (fun n hm => ?_)
        (hlined.push node fun hk => ?_)
      · rcases List.mem_append.mp hm with hm | hm
        · have hsite := List.mem_singleton.mp hm
          have hk : e.roster.kind ≠ .stamped := by
            intro hk
            simp [hk, Container.Kind.site] at hsite
          rw [Container.Kind.site_eq hk, Site.cell.injEq, Cell.node.injEq] at hsite
          exact Past.fits_entered (mark_entered hk (Or.inl hsite))
        · exact Past.fits_entered
            (mark_entered (he.node_mem hm).1 (Or.inr (ht.past_of_site ha ho hm)))
      · rw [← hr]
        exact he.push_row (hlined.row hk) hout hk hpush hr hd.holds
  · simp only [if_neg hn]
    exact ht

theorem pop (ht : HooksMatch s.heap.links l p) (ha : Agree q s l) :
    HooksMatch (s.pop slot access).2.heap.links (l.pop slot access).2
      (l.past p (.pop slot access)) := by
  obtain ⟨t, hs, hl, hq⟩ := ha.consuming? slot access
  rw [Session.pop, Ledger.pop, Ledger.past, hs, hl]
  cases t with
  | none => exact ht
  | some e =>
    obtain ⟨o, howner, ho⟩ := Registry.exists_owner (hq e rfl)
    have he := ha.separate.holds ho
    have hlined := ht.lined_entry ha ho
    have hx : Avoids q.at? [] := fun _ _ _ => by simp
    obtain ⟨d, h, hpop, hr, hd, -⟩ := ha.popEntry howner ho
    simp only [Option.map_some, hpop]
    cases hw : e.roster.waiting with
    | nil =>
      refine ht.update ha howner ho hx hd.changes (fun _ _ => rfl) (fun n hm => ?_)
        ⟨fun _ => ?_, fun _ n hm => ?_⟩
      · exact Past.fits_entered (ht.past_of_site ha ho hm)
      · rw [Roster.pop, hw]
        exact .nil _
      · simp [Roster.pop, hw] at hm
    | cons n ns =>
      have hlinks (hk : e.roster.kind ≠ .stamped) := he.pop_links hk hw
      rw [hpop] at hlinks
      show HooksMatch h.links (l.update slot e.roster.pop)
        (mark p e.roster.kind n (.left e.roster.kind false))
      refine ht.update ha howner ho hx hd.changes (fun k hm => mark_of_site fun hsite => hm ?_)
        (fun k hm => ?_) (hlined.pop hw _ fun hk => (hlinks hk).1)
      · rw [hsite]
        exact e.roster_sites_subset (Roster.site_mem_sites.mpr (by simp [hw]))
      · have hk := (he.node_mem hm).1
        by_cases hkn : k = n
        · rw [hkn, mark_self hk]
          exact fun _ => (hlinks hk).2.trans (Bool.and_true _).symm
        · rw [mark_of_ne hkn]
          exact Past.fits_entered (ht.past_of_site ha ho hm)

theorem clear (ht : HooksMatch s.heap.links l p) (ha : Agree q s l)
    (hp : l.Permits s.heap (.clear node)) :
    HooksMatch (s.step (.clear node)).2.heap.links (l.step (.clear node)).2
      (l.past p (.clear node)) := by
  have hx : Avoids q.at? [.cell (.node node)] := ha.avoids_of_outside (k := .mpsc) hp
  simp only [Session.step, Session.onNode, Ledger.step, Ledger.onNode, Ledger.past, ha.nodes]
  by_cases hn : node < l.nodes
  · have hoff : (s.heap.links.clear (.node node)).isLinked (.node node) = false := by
      simp [Links.isLinked]
    simp only [if_pos hn]
    refine ht.frame ha hx (.clear s.heap node) (fun n hm => ?_) (fun n hm => ?_)
    · exact Function.update_of_ne (by simpa using hm) ..
    · obtain rfl : n = node := by simpa using hm
      rw [Function.update_self]
      exact hoff ▸ Past.fits_clear
  · simp only [if_neg hn]
    exact ht

/-- The last node of one chain comes to lead to the first one of another. -/
theorem appendChains {a b : ChainQueue} (ht : HooksMatch s.heap.links l p) (ha : Agree q s l)
    (hne : slot ≠ other) (he : q.owned? slot = some e) (hd : q.owned? other = some d)
    (hq : e.container = .chain a) (hc : d.container = .chain b) :
    HooksMatch (a.append b s.heap.links).2.2
      ((l.update slot (e.roster.append d.roster)).update other { kind := .chain }) p := by
  have hname : Owner.name other ≠ .name slot := by simpa using Ne.symm hne
  have hbe := ha.separate.holds (o := .name slot) he
  have hbd := ha.separate.holds (o := .name other) hd
  obtain ⟨e', a', m, happ, hcon, hr, hout⟩ := hbe.append hbd hq hc
    (ha.separate.disjoint (o := .name slot) (p := .name other) he hd hname)
  have hkind : e.roster.kind = .chain := (hbe.chain hq).1
  have hkind' : d.roster.kind = .chain := (hbd.chain hc).1
  have hentered (n : Nat) (hm : Site.cell (.node n) ∈ e.sites ++ d.sites) : p n = .entered :=
    (List.mem_append.mp hm).elim (ht.past_of_site ha (o := .name slot) he)
      (ht.past_of_site ha (o := .name other) hd)
  have hlined : Lined m p (e.roster.append d.roster) := by
    rw [← hr]
    refine ⟨fun hk => hout.holds.row_of_no_stub hk ?_, fun hk n hm => hentered n ?_⟩
    · rw [hr]
      exact hkind ▸ rfl
    · have hsite := hout.sites (e'.roster_sites_subset (Roster.site_mem_sites.mpr hm))
      rwa [Container.Kind.site_eq hk] at hsite
  rw [happ]
  refine ⟨?_, ht.fits_of_changes hout.changes (fun _ _ => rfl) fun n hm =>
    Past.fits_entered (hentered n hm)⟩
  have hle := ha.roster_of_owned? he
  have hld := (Registry.owned?_setQueue_of_ne hle hne (e.roster.append d.roster)).trans
    (ha.roster_of_owned? hd)
  refine Registry.All.setQueue_of_others (Registry.owner?_of_owned? hld) hld
    (fun o t hno hat => ?_) (.blank ..)
  have hset := Registry.at?_setQueue (Registry.owner?_of_owned? hle) (o := .name slot) hle
  rw [Ledger.update, hset] at hat
  by_cases hos : o = .name slot
  · rw [hos, Function.update_self, Option.some.injEq] at hat
    exact hat ▸ hlined
  · rw [Function.update_of_ne hos] at hat
    obtain ⟨c, hc, rfl⟩ := ha.exists_at? hat
    refine (ht.lined_entry ha hc).frame hout.changes (fun _ _ => rfl) fun x hm hx => ?_
    rcases List.mem_append.mp hm with hm | hm
    · exact ha.separate.disjoint (o := .name slot) he hc hos hm hx
    · exact ha.separate.disjoint (o := .name other) hd hc hno hm hx

theorem append (ht : HooksMatch s.heap.links l p) (ha : Agree q s l) :
    HooksMatch (s.append slot other).2.heap.links (l.append slot other).2 p := by
  rw [Session.append, Ledger.append]
  by_cases hne : slot = other
  · rw [if_pos hne, if_pos hne]
    exact ht
  rw [if_neg hne, if_neg hne, (ha.owned? slot).1, (ha.owned? slot).2, (ha.owned? other).1,
    (ha.owned? other).2]
  cases he : q.owned? slot with
  | none => exact ht
  | some e =>
    cases hd : q.owned? other with
    | none =>
      simp only [Option.map_some, Option.map_none]
      cases e.container <;> exact ht
    | some d =>
      simp only [Option.map_some, ← e.kind_eq, ← d.kind_eq]
      cases hq : e.container
      case chain a =>
        cases hc : d.container
        case chain b =>
          exact ht.appendChains ha hne he hd hq hc
        all_goals exact ht
      all_goals exact ht

theorem still (ht : HooksMatch s.heap.links l p) (hc : c.writesHooks = false) :
    HooksMatch (s.step c).2.heap.links (l.step c).2 (l.past p c) := by
  have hlinks := s.links_step hc
  rw [Ledger.past_eq hc]
  refine ⟨Ledger.step_all (ht.lined.mono fun _ r hr => ?_) hc (.blank _ _) (fun r hk hr => ?_)
    (fun r hk hr => ?_), fun n => ?_⟩
  · exact hr.congr fun n _ _ => ⟨hlinks n, rfl⟩
  · exact hr.convert (by rw [hk]; decide)
  · exact hr.convert (by rw [hk]; decide)
  · rw [Links.isLinked, hlinks n]
    exact ht.fits n

/-- A permitted command leaves the hooks as the lists and the past say. -/
theorem step (ht : HooksMatch s.heap.links l p) (ha : Agree q s l) (hp : l.Permits s.heap c) :
    HooksMatch (s.step c).2.heap.links (l.step c).2 (l.past p c) := by
  cases c with
  | push slot node access => exact ht.push ha hp
  | pop slot access => exact ht.pop ha
  | append slot other => exact ht.append ha
  | clear node => exact ht.clear ha hp
  | clearStamp node =>
    simp only [Session.step, Session.onNode, Ledger.step, Ledger.onNode, ha.nodes]
    split <;> exact ht
  | pushRange | drain => exact hp.elim
  | _ => exact ht.still rfl

theorem run (ht : HooksMatch s.heap.links l p) (ha : Agree q s l) (ho : s.Obeys l cs) :
    HooksMatch (s.run cs).2.heap.links (l.run cs).2 (l.pasts p cs) := by
  induction cs generalizing q s l p with
  | nil => exact ht
  | cons c cs ih =>
    obtain ⟨-, q', ha'⟩ := ha.step ho.1
    exact ih (ht.step ha ho.1) ha' ho.2

end HooksMatch

end HooksMatch

namespace Session

theorem isLinked_empty (n : Nat) : Heap.empty.links.isLinked (.node n) = false := by
  simp [Links.isLinked, Heap.empty, Links.empty]

/-- All hooks are clear at the start, and callers keep their promises. Then a node inside of a
container is linked unless it is the last one in line, a node that was popped is linked when it
left a queue with a stub and was not cleared since, and a node that was never pushed is not linked.
No hook changes when containers move, change hands or are dropped. -/
theorem isLinked_of_past (nodes : Nat) (heap : Heap) (cs : List Command)
    (hclear : ∀ n, heap.links.isLinked (.node n) = false)
    (ho : (onHeap nodes heap).Obeys (.start nodes) cs) :
    let s := (onHeap nodes heap).run cs
    let l := (Ledger.start nodes).run cs
    let past := (Ledger.start nodes).pasts (fun _ => .untouched) cs
    s.1 = l.1 ∧
      (∀ r ∈ l.2.registry.queues, r.kind ≠ .stamped → ∀ n ∈ r.waiting,
        (s.2.heap.links.isLinked (.node n) = true ↔ r.waiting.getLast? ≠ some n)) ∧
      (∀ n k cleared, past n = .left k cleared →
        (s.2.heap.links.isLinked (.node n) = true ↔ k.hasStub = true ∧ cleared = false)) ∧
      (∀ n, past n = .untouched → s.2.heap.links.isLinked (.node n) = false) ∧
      (∀ slot, (s.2.step (.dispose slot)).2.heap = s.2.heap) ∧
      ∀ c, c.writesHooks = false → ∀ n,
        (s.2.step c).2.heap.links.read (.node n) = s.2.heap.links.read (.node n) := by
  intro s l past
  have ha := Agree.start nodes heap
  have ht : HooksMatch s.2.heap.links l.2 past :=
    (HooksMatch.start (m := heap.links) hclear nodes).run (s := onHeap nodes heap) ha ho
  refine ⟨(ha.run ho).1, fun r hr hk n hn => ht.isLinked_iff hr hk hn, fun n k cleared hn => ?_,
    fun n hn => ?_, fun slot => ?_, fun c hc n => s.2.links_step hc n⟩
  · have hfits := ht.fits n
    rw [hn] at hfits
    rw [hfits (by simp), Past.isLinked, Bool.and_eq_true, Bool.not_eq_true']
  · have hfits := ht.fits n
    rw [hn] at hfits
    exact hfits (by simp)
  · rw [step, dispose]
    split <;> rfl

/-- Nodes that come out of a queue, one of them as its last, and nodes that stay. -/
def linking : List Command :=
  [.create "many" .mpsc false none, .create "row" .chain false none,
   .create "tail" .chain false none, .create "pile" .stack false none, .push "many" 0 .direct,
   .push "many" 1 .direct, .pop "many" .direct, .pop "many" .direct, .clear 1,
   .push "row" 1 .direct, .push "tail" 2 .direct, .push "tail" 3 .direct, .append "row" "tail",
   .push "pile" 4 .direct, .push "pile" 5 .direct, .push "pile" 6 .direct, .pop "pile" .direct,
   .toMpmc "many" "turns", .push "turns" 7 .interface, .pop "turns" .interface, .dispose "turns"]

theorem isLinked_linking :
    (onHeap 9 .empty).Obeys (.start 9) linking ∧
      ((Ledger.start 9).run linking).2.registry.queue? "row" =
        some ⟨.chain, [1, 2, 3], [1, 2, 3], []⟩ ∧
      let links := ((onHeap 9 .empty).run linking).2.heap.links
      links.isLinked (.node 0) = true ∧ links.isLinked (.node 2) = true ∧
        links.isLinked (.node 3) ≠ true ∧ links.isLinked (.node 6) ≠ true ∧
        links.isLinked (.node 7) = true ∧ links.isLinked (.node 8) = false := by
  have ho : (onHeap 9 .empty).Obeys (.start 9) linking := by decide +kernel
  have hrow : ((Ledger.start 9).run linking).2.registry.queue? "row" =
      some ⟨.chain, [1, 2, 3], [1, 2, 3], []⟩ := by decide +kernel
  have hin := Registry.queue?_mem_queues hrow
  obtain ⟨-, hinside, hleft, hnew, -⟩ := isLinked_of_past 9 .empty linking isLinked_empty ho
  refine ⟨ho, hrow, ?_, ?_, ?_, ?_, ?_, ?_⟩
  · exact (hleft 0 .mpsc false (by decide +kernel)).mpr ⟨rfl, rfl⟩
  · exact (hinside _ hin (by decide) 2 (by decide)).mpr (by decide)
  · exact fun hl => (hinside _ hin (by decide) 3 (by decide)).mp hl rfl
  · exact fun hl => by cases ((hleft 6 .stack false (by decide +kernel)).mp hl).1
  · exact (hleft 7 .mpmc false (by decide +kernel)).mpr ⟨rfl, rfl⟩
  · exact hnew 8 (by decide +kernel)

end Session

end Linked

end LinkedQueues

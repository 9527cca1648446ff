import LinkedQueues.Proofs.Session.Ledger

/-!
A session answers as its ledger does. The invariant pairs every container with its list in a third
registry, whose entries are separate in the heap of the session. Every command keeps it as long as
the callers keep their promises.
-/
namespace LinkedQueues.Linked

open Function (update)

/-- The session has the containers of `p`, and the ledger has its lists. -/
structure Agree (p : Registry Entry) (s : Session) (l : Ledger) : Prop where
  nodes : s.nodes = l.nodes
  containers : s.registry = p.map Entry.container
  rosters : l.registry = p.map Entry.roster
  separate : Separate s.heap p.at?

def Accord (a : Session.Result) (b : Ledger.Result) : Prop := a.1 = b.1 ∧ ∃ p, Agree p a.2 b.2

namespace Agree

variable {p : Registry Entry} {s : Session} {l : Ledger} {e d : Entry} {h : Heap} {o : Owner}
  {slot into other : String} {access : Access} {node : Nat} {xs : List Site}

theorem reply (ha : Agree p s l) (r : Reply Nat) : Accord (s.reply r) (l.reply r) := ⟨rfl, p, ha⟩

theorem reject (ha : Agree p s l) : Accord s.reject l.reject := ⟨rfl, p, ha⟩

theorem start (nodes : Nat) (h : Heap) : Agree .empty (.onHeap nodes h) (.start nodes) := by
  refine ⟨rfl, (Registry.map_empty _).symm, (Registry.map_empty _).symm, fun o e he => ?_⟩
  rw [Registry.at?_empty] at he
  cases he

theorem usable_eq (access : Access) :
    (fun e : Entry => Session.usable access e.container) =
      fun e => Ledger.usable access e.roster := by
  funext e
  rw [Session.usable, Ledger.usable, e.kind_eq]

theorem at?_eq (ha : Agree p s l) (ho : p.at? o = some e) :
    s.registry.at? o = some e.container ∧ l.registry.at? o = some e.roster := by
  rw [ha.containers, ha.rosters, Registry.at?_map, Registry.at?_map, ho]
  exact ⟨rfl, rfl⟩

theorem exists_at? {r : Roster} (ha : Agree p s l) (hr : l.registry.at? o = some r) :
    ∃ e, p.at? o = some e ∧ e.roster = r := by
  rwa [ha.rosters, Registry.at?_map, Option.map_eq_some_iff] at hr

theorem owner?_eq (ha : Agree p s l) :
    s.registry.owner? = p.owner? ∧ l.registry.owner? = p.owner? := by
  rw [ha.containers, ha.rosters]
  exact ⟨funext (Registry.owner?_map _ p), funext (Registry.owner?_map _ p)⟩

theorem owned? (ha : Agree p s l) (slot : String) :
    s.owned? slot = (p.owned? slot).map Entry.container ∧
      l.owned? slot = (p.owned? slot).map Entry.roster := by
  rw [Session.owned?, Ledger.owned?, ha.containers, ha.rosters]
  exact ⟨Registry.owned?_map .., Registry.owned?_map ..⟩

theorem roster_of_owned? {slot : String} {e : Entry} (ha : Agree p s l)
    (he : p.owned? slot = some e) : l.registry.owned? slot = some e.roster := by
  rw [← Ledger.owned?, (ha.owned? slot).2, he, Option.map_some]

theorem producing? (ha : Agree p s l) (slot : String) (access : Access) : ∃ q : Option Entry,
    s.producing? slot access = q.map Entry.container ∧
      l.producing? slot access = q.map Entry.roster ∧ ∀ e, q = some e → p.queue? slot = some e := by
  refine ⟨p.producing? slot fun e => Ledger.usable access e.roster, ?_, ?_,
    fun e => Registry.queue?_of_producing?⟩
  · rw [Session.producing?, ha.containers, Registry.producing?_map, usable_eq]
  · rw [Ledger.producing?, ha.rosters, Registry.producing?_map]

theorem consuming? (ha : Agree p s l) (slot : String) (access : Access) : ∃ q : Option Entry,
    s.consuming? slot access = q.map Entry.container ∧
      l.consuming? slot access = q.map Entry.roster ∧ ∀ e, q = some e → p.queue? slot = some e := by
  refine ⟨p.consuming? slot fun e => Ledger.usable access e.roster, ?_, ?_,
    fun e => Registry.queue?_of_consuming?⟩
  · rw [Session.consuming?, ha.containers, Registry.consuming?_map, usable_eq]
  · rw [Ledger.consuming?, ha.rosters, Registry.consuming?_map]

theorem avoids_of_outside (ha : Agree p s l) {k : Container.Kind} {n : Nat}
    (hx : l.Outside (k.site n)) : Avoids p.at? [k.site n] := by
  intro o d hd x hm hxd
  obtain rfl := List.mem_singleton.mp hm
  have hq : d.roster ∈ l.registry.queues := by
    rw [Registry.mem_queues_iff, ha.rosters]
    exact ⟨o, by rw [Registry.at?_map, hd, Option.map_some]⟩
  exact hx _ hq ((ha.separate.holds hd).site_mem_sites hxd)

theorem frame (ha : Agree p s l) (hc : s.heap.Changes h xs) (hx : Avoids p.at? xs) :
    Agree p { s with heap := h } l :=
  ⟨ha.nodes, ha.containers, ha.rosters, ha.separate.frame hc hx⟩

theorem separate_onEntry (ha : Agree p s l) (ho : p.at? o = some e) (hx : Avoids p.at? xs)
    (hs : ∀ id, Site.cell (.stub id) ∉ xs) (hout : Entry.Outcome (xs ++ e.sites) s.heap d h) :
    Separate h (update p.at? o (some d)) := by
  have hb := ha.separate o e ho
  have havoids : Avoids (update p.at? o none) (xs ++ e.sites) := by
    intro r c hc x hm hxc
    rcases List.mem_append.mp hm with hm | hm
    · exact hx r c (Registry.Within.update_none p.at? o r c hc) hm hxc
    · exact hb.apart r c hc hm hxc
  obtain ⟨hX, hb'⟩ := hout.beside (ha.separate.remove o) havoids fun id hm =>
    hb.stubs id ((List.mem_append.mp hm).resolve_left (hs id))
  simpa using hX.insert hb' o

theorem set (ha : Agree p s l) (hn : p.owner? slot = some o) (ho : p.at? o = some e)
    (hX : Separate h (update p.at? o (some d))) :
    Agree (p.setQueue slot d) (s.update slot d.container h) (l.update slot d.roster) := by
  refine ⟨ha.nodes, ?_, ?_, ?_⟩
  · rw [Session.update, ha.containers, Registry.setQueue_map]
  · rw [Ledger.update, ha.rosters, Registry.setQueue_map]
  · rw [Registry.at?_setQueue hn ho]
    exact hX

theorem place (ha : Agree p s l) (hb : Beside s.heap p.at? d) (into : String) :
    Agree (p.place into (.owned d)).2 (s.place into d.container) (l.place into d.roster) := by
  refine ⟨ha.nodes, ?_, ?_, ?_⟩
  · rw [Session.place, ha.containers]
    exact congrArg Prod.snd (Registry.place_map Entry.container p into (.owned d))
  · rw [Ledger.place, ha.rosters]
    exact congrArg Prod.snd (Registry.place_map Entry.roster p into (.owned d))
  · exact (ha.separate.insert hb (.name into)).mono (Registry.place_within p into (.owned d))

theorem not_mem_waiting (ha : Agree p s l) (ho : p.at? o = some e)
    (hfit : l.Admits h e.roster node) : node ∉ e.roster.waiting := fun hm =>
  ha.avoids_of_outside hfit.outside o e ho (List.mem_singleton.mpr rfl)
    (e.roster_sites_subset (Roster.site_mem_sites.mpr hm))

theorem pushEntry (ha : Agree p s l) (hn : p.owner? slot = some o) (ho : p.at? o = some e)
    (hfit : l.Admits s.heap e.roster node) : ∃ d h,
      e.container.push s.heap node = (none, d.container, h) ∧ d.roster = e.roster.push node ∧
        Entry.Outcome (e.roster.kind.site node :: e.sites) s.heap d h ∧
        Agree (p.setQueue slot d) (s.update slot d.container h) (l.update slot d.roster) := by
  obtain ⟨d, h, hpush, hr, hout⟩ :=
    (ha.separate.holds ho).push (ha.not_mem_waiting ho hfit) hfit.clear hfit.stamps
  have hX := ha.separate_onEntry ho (ha.avoids_of_outside hfit.outside) (fun id hm =>
    e.roster.kind.site_ne_stub node id (List.mem_singleton.mp hm).symm) hout
  exact ⟨d, h, hpush, hr, hout, ha.set hn ho hX⟩

theorem popEntry (ha : Agree p s l) (hn : p.owner? slot = some o) (ho : p.at? o = some e) : ∃ d h,
    e.container.pop s.heap = (.ofOption e.roster.waiting.head?, d.container, h) ∧
      d.roster = e.roster.pop ∧ Entry.Outcome e.sites s.heap d h ∧
      Agree (p.setQueue slot d) (s.update slot d.container h) (l.update slot d.roster) := by
  obtain ⟨d, h, hpop, hr, hout⟩ := (ha.separate.holds ho).pop
  have hx : Avoids p.at? [] := fun _ _ _ => by simp
  exact ⟨d, h, hpop, hr, hout, ha.set hn ho (ha.separate_onEntry ho hx (by simp) hout)⟩

theorem push (ha : Agree p s l) (hp : l.Permits s.heap (.push slot node access)) :
    Accord (s.push slot node access) (l.push slot node access) := by
  by_cases hn : node < s.nodes
  · obtain ⟨q, hs, hl, hq⟩ := ha.producing? slot access
    rw [Session.push, Ledger.push, if_pos hn, if_pos (ha.nodes ▸ hn), hs, hl]
    cases q with
    | none => exact ha.reject
    | some e =>
      obtain ⟨o, howner, ho⟩ := Registry.exists_owner (hq e rfl)
      obtain ⟨d, h, hpush, hr, -, hagree⟩ := ha.pushEntry howner ho (hp e.roster hl)
      simp only [Option.map_some, hpush, ← hr]
      exact hagree.reply .done
  · rw [Session.push, Ledger.push, if_neg hn, if_neg (ha.nodes ▸ hn)]
    exact ha.reject

theorem pop (ha : Agree p s l) : Accord (s.pop slot access) (l.pop slot access) := by
  obtain ⟨q, hs, hl, hq⟩ := ha.consuming? slot access
  rw [Session.pop, Ledger.pop, hs, hl]
  cases q with
  | none => exact ha.reject
  | some e =>
    obtain ⟨o, howner, ho⟩ := Registry.exists_owner (hq e rfl)
    obtain ⟨d, h, hpop, hr, -, hagree⟩ := ha.popEntry howner ho
    simp only [Option.map_some, hpop, ← hr]
    cases e.roster.waiting.head? with
    | none => exact hagree.reply (.item none)
    | some n => exact hagree.reply (.item (some n))

theorem isEmpty (ha : Agree p s l) : Accord (s.isEmpty slot) (l.isEmpty slot) := by
  obtain ⟨q, hs, hl, hq⟩ := ha.consuming? slot .direct
  rw [Session.isEmpty, Ledger.isEmpty, hs, hl]
  cases q with
  | none => exact ha.reject
  | some e =>
    obtain ⟨o, -, ho⟩ := Registry.exists_owner (hq e rfl)
    simp only [Option.map_some, (ha.separate.holds ho).isEmpty_eq]
    exact ha.reply _

theorem top (ha : Agree p s l) :
    Accord (s.ofOption ((s.owned? slot).bind fun c => c.top?.map .item)) (l.top slot) := by
  obtain ⟨hs, hl⟩ := ha.owned? slot
  rw [Ledger.top, hs, hl]
  cases hq : p.owned? slot with
  | none => exact ha.reject
  | some e =>
    have ht := (ha.separate.holds (o := .name slot) hq).top?_eq
    simp only [Option.map_some, Option.bind_some, ht]
    cases e.roster.top? with
    | none => exact ha.reject
    | some n => exact ha.reply _

theorem create {kind : Container.Kind} {byDefault : Bool} {spinCount : Option Nat}
    (ha : Agree p s l) :
    Accord (s.create slot kind byDefault spinCount) (l.create slot kind byDefault spinCount) := by
  rw [Session.create, Ledger.create]
  split
  · exact ha.reject
  · obtain ⟨e, h, hc, hm⟩ := Entry.exists_create kind (spinCount.getD defaultSpinCount) s.heap
    obtain ⟨hX, hb⟩ := hm.beside ha.separate
    have ha' : Agree p { s with heap := h } l := ⟨ha.nodes, ha.containers, ha.rosters, hX⟩
    simp only [hc, ← hm.roster]
    exact (ha'.place hb slot).reply .done

theorem take (ha : Agree p s l) : Accord (s.take slot into) (l.take slot into) := by
  obtain ⟨hs, hl⟩ := ha.owned? slot
  rw [Session.take, Ledger.take, hs, hl]
  cases hq : p.owned? slot with
  | none => exact ha.reject
  | some e =>
    have ho : p.at? (.name slot) = some e := hq
    have howner := Registry.owner?_of_owned? hq
    obtain ⟨d, h, hc, hm⟩ := Entry.exists_create e.container.kind defaultSpinCount s.heap
    -- The content stays beside the empty container that takes its place.
    obtain ⟨hX, hd⟩ := hm.beside (ha.separate.remove (.name slot))
    obtain ⟨he, hdis⟩ := hm.beside_old (ha.separate (.name slot) e ho)
    have ha' := ha.set howner ho (d := d) (h := h) (by simpa using hX.insert hd (.name slot))
    have hb : Beside h (p.setQueue slot d).at? e := by
      rw [Registry.at?_setQueue howner ho]
      simpa using he.insert hdis (.name slot)
    have hr : d.roster = { kind := e.roster.kind } := by rw [hm.roster, e.kind_eq]
    simp only [Option.map_some, hc, ← hr]
    exact (ha'.place hb into).reply .done

theorem setBoth {e' d' : Entry} (ha : Agree p s l) (hne : slot ≠ other)
    (he : p.owned? slot = some e) (hd : p.owned? other = some d)
    (hX : Separate h (update (update p.at? (.name slot) (some e')) (.name other) (some d'))) :
    Agree ((p.setQueue slot e').setQueue other d')
      ((s.update slot e'.container h).update other d'.container h)
      ((l.update slot e'.roster).update other d'.roster) := by
  have hat := Registry.at?_setQueue (Registry.owner?_of_owned? he) (o := .name slot) he e'
  have hd' : (p.setQueue slot e').at? (.name other) = some d := by
    rw [hat, Function.update_of_ne (by simpa using Ne.symm hne)]
    exact hd
  refine ⟨ha.nodes, ?_, ?_, ?_⟩
  · simp only [Session.update, ha.containers, Registry.setQueue_map]
  · simp only [Ledger.update, ha.rosters, Registry.setQueue_map]
  · rw [Registry.at?_setQueue (Registry.owner?_of_owned? hd') hd', hat]
    exact hX

theorem appendChains {q c : ChainQueue} (ha : Agree p s l) (hne : slot ≠ other)
    (he : p.owned? slot = some e) (hd : p.owned? other = some d) (hq : e.container = .chain q)
    (hc : d.container = .chain c) : ∃ q' m p', q.append c s.heap.links = (q', .empty, m) ∧
      Agree p' ((s.update slot (.chain q') { s.heap with links := m }).update other
        (.chain .empty) { s.heap with links := m })
        ((l.update slot (e.roster.append d.roster)).update other { kind := .chain }) := by
  have hname : Owner.name other ≠ .name slot := by simpa using Ne.symm hne
  have hbe := ha.separate (.name slot) e he
  have hbd := ha.separate (.name other) d hd
  obtain ⟨e', q', m, happ, hcon, hr, hout⟩ :=
    hbe.holds.append hbd.holds hq hc
      (ha.separate.disjoint (o := .name slot) (p := .name other) he hd hname)
  -- Without the two queues, nobody uses their sites.
  have hrest : Separate s.heap (update (update p.at? (.name slot) none) (.name other) none) :=
    (ha.separate.remove _).remove _
  have havoids : Avoids (update (update p.at? (.name slot) none) (.name other) none)
      (e.sites ++ d.sites) := by
    intro o c hc x hm hxc
    have hce := Registry.Within.update_none _ _ _ _ hc
    rw [Function.update_comm (Ne.symm hname)] at hc
    have hcd := Registry.Within.update_none _ _ _ _ hc
    rcases List.mem_append.mp hm with hm | hm
    · exact hbe.apart o c hce hm hxc
    · exact hbd.apart o c hcd hm hxc
  obtain ⟨hX, hb⟩ := hout.beside hrest havoids fun id hm =>
    (List.mem_append.mp hm).elim (hbe.stubs id) (hbd.stubs id)
  have hmade := Entry.made_of_no_stub (h := { s.heap with links := m }) (c := .chain .empty) rfl
    (ChainQueue.Holds.empty m)
  have hX' := hX.insert hb (.name slot)
  have hX'' := hX'.insert (hmade.beside hX').2 (.name other)
  rw [Function.update_comm (Ne.symm hname), Function.update_idem, Function.update_comm hname,
    Function.update_idem] at hX''
  have hall := ha.setBoth hne he hd hX''
  rw [hcon, hr] at hall
  exact ⟨q', m, _, happ, hall⟩

theorem append (ha : Agree p s l) : Accord (s.append slot other) (l.append slot other) := by
  rw [Session.append, Ledger.append]
  by_cases hne : slot = other
  · rw [if_pos hne, if_pos hne]
    exact ha.reject
  rw [if_neg hne, if_neg hne, (ha.owned? slot).1, (ha.owned? slot).2, (ha.owned? other).1,
    (ha.owned? other).2]
  cases he : p.owned? slot with
  | none => exact ha.reject
  | some e =>
    cases hd : p.owned? other with
    | none =>
      simp only [Option.map_some, Option.map_none]
      cases e.container <;> exact ha.reject
    | some d =>
      simp only [Option.map_some, ← e.kind_eq, ← d.kind_eq]
      cases hq : e.container
      case chain q =>
        cases hc : d.container
        case chain c =>
          obtain ⟨q', m, p', happ, hall⟩ := ha.appendChains hne he hd hq hc
          simp only [happ]
          exact hall.reply .done
        all_goals exact ha.reject
      all_goals exact ha.reject

theorem withRegistry {r : Registry Container} {t : Registry Roster} {p' : Registry Entry}
    (ha : Agree p s l) (hX : Separate s.heap p'.at?) (hr : r = p'.map Entry.container)
    (ht : t = p'.map Entry.roster) : Agree p' { s with registry := r } { l with registry := t } :=
  ⟨ha.nodes, hr, ht, hX⟩

theorem dispose (ha : Agree p s l) : Accord (s.dispose slot) (l.dispose slot) := by
  rw [Session.dispose, Ledger.dispose, ha.containers, ha.rosters, Registry.holding?_map,
    Registry.holding?_map]
  cases p.holding? slot with
  | none => exact ha.reject
  | some h =>
    refine (ha.withRegistry ?_ (congrArg Prod.snd (Registry.dispose_map ..))
      (congrArg Prod.snd (Registry.dispose_map ..))).reply .done
    exact ha.separate.mono (Registry.dispose_within p slot)

theorem splitQueue (ha : Agree p s l) (hq : p.owned? slot = some e) (producer consumer : String) :
    Agree (p.split slot e producer consumer).2
      { s with registry := (s.registry.split slot e.container producer consumer).2 }
      { l with registry := (l.registry.split slot e.roster producer consumer).2 } := by
  rw [ha.containers, ha.rosters]
  refine ha.withRegistry ?_ (congrArg Prod.snd (Registry.split_map ..))
    (congrArg Prod.snd (Registry.split_map ..))
  have hb := ha.separate (.name slot) e hq
  exact ((ha.separate.remove (.name slot)).insert hb (.shared p.fresh)).mono
    (Registry.split_within p slot e producer consumer)

theorem split {producer consumer : String} (ha : Agree p s l) :
    Accord (s.split slot producer consumer) (l.split slot producer consumer) := by
  rw [Session.split, Ledger.split, (ha.owned? slot).1, (ha.owned? slot).2]
  cases hq : p.owned? slot with
  | none => exact ha.reject
  | some e =>
    have hsplit := (ha.splitQueue hq producer consumer).reply .done
    have hkind := e.kind_eq
    simp only [Option.map_some, ← hkind]
    cases hc : e.container <;> rw [hc] at hsplit
    case mpsc q => exact hsplit
    case stamped q => exact hsplit
    all_goals exact ha.reject

theorem clone (ha : Agree p s l) : Accord (s.clone slot into) (l.clone slot into) := by
  rw [Session.clone, Ledger.clone, ha.containers, ha.rosters, Registry.holding?_map,
    Registry.holding?_map]
  cases p.holding? slot with
  | none => exact ha.reject
  | some h =>
    cases h with
    | owned e => exact ha.reject
    | consumer id => exact ha.reject
    | producer id =>
      have hclone : Agree (p.clone id into).2
          { s with registry := ((p.map Entry.container).clone id into).2 }
          { l with registry := ((p.map Entry.roster).clone id into).2 } := by
        refine ha.withRegistry ?_ (congrArg Prod.snd (Registry.clone_map ..))
          (congrArg Prod.snd (Registry.clone_map ..))
        exact ha.separate.mono (Registry.clone_within p id into)
      have hs := Registry.resolve?_map Entry.container p (.producer id)
      have hl := Registry.resolve?_map Entry.roster p (.producer id)
      simp only [Holding.map] at hs hl
      simp only [Option.map_some, Holding.map, hs, hl]
      cases p.resolve? (.producer id) with
      | none => exact ha.reject
      | some e =>
        simp only [Option.map_some, ← e.kind_eq]
        cases e.container
        case mpsc q => exact hclone.reply .done
        all_goals exact ha.reject

/-- A queue leaves its name, and comes back in another form. -/
theorem moveInto (ha : Agree p s l) (hq : p.owned? slot = some e)
    (hd : ∀ X, Beside s.heap X e → Beside s.heap X d) (into : String) : ∃ p', Agree p'
      ({ s with registry := s.registry.vacate slot }.place into d.container)
      ({ l with registry := l.registry.vacate slot }.place into d.roster) := by
  have hat := Registry.at?_vacate p slot
  have hv : Agree (p.vacate slot) { s with registry := s.registry.vacate slot }
      { l with registry := l.registry.vacate slot } := by
    rw [ha.containers, ha.rosters]
    refine ha.withRegistry ?_ (Registry.vacate_map ..) (Registry.vacate_map ..)
    rw [hat]
    exact ha.separate.remove (.name slot)
  refine ⟨_, hv.place (hd _ ?_) into⟩
  rw [hat]
  exact ha.separate (.name slot) e hq

theorem toMpmc (ha : Agree p s l) : Accord (s.toMpmc slot into) (l.toMpmc slot into) := by
  rw [Session.toMpmc, Ledger.toMpmc, (ha.owned? slot).1, (ha.owned? slot).2]
  cases he : p.owned? slot with
  | none => exact ha.reject
  | some e =>
    simp only [Option.map_some, ← e.kind_eq]
    cases hq : e.container
    case mpsc q =>
      obtain ⟨p', hp⟩ := ha.moveInto he (fun X hb =>
        hb.convert Container.wraps_mpsc (Container.wraps_mpmc defaultSpinCount) hq) into
      exact hp.reply .done
    all_goals exact ha.reject

theorem unshare (ha : Agree p s l) (slot into : String) (id : Nat) :
    Accord
      (match s.registry.unshare slot id into with
        | some (_, r) => { s with registry := r }.reply (.flag true)
        | none => s.reply (.flag false))
      (match l.registry.unshare slot id into with
        | some (_, t) => { l with registry := t }.reply (.flag true)
        | none => l.reply (.flag false)) := by
  rw [ha.containers, ha.rosters, Registry.unshare_map, Registry.unshare_map]
  cases hu : p.unshare slot id into with
  | none => exact ha.reply _
  | some gp =>
    obtain ⟨e, he, hw⟩ := Registry.unshare_within hu
    refine (ha.withRegistry ?_ rfl rfl).reply _
    exact ((ha.separate.remove _).insert (ha.separate _ e he) (.name into)).mono hw

theorem reclaim (ha : Agree p s l) : Accord (s.reclaim slot into) (l.reclaim slot into) := by
  have hunshare := ha.unshare slot into
  rw [Session.reclaim, Ledger.reclaim]
  have hs := Registry.holding?_map Entry.container p slot
  have hl := Registry.holding?_map Entry.roster p slot
  rw [← ha.containers] at hs
  rw [← ha.rosters] at hl
  rw [hs, hl]
  cases hh : p.holding? slot with
  | none => exact ha.reject
  | some h =>
    cases h with
    | producer id => exact ha.reject
    | consumer id => exact hunshare id
    | owned e =>
      simp only [Option.map_some, Holding.map, ← e.kind_eq]
      cases hq : e.container
      case mpmc q n =>
        obtain ⟨p', hp⟩ := ha.moveInto (Registry.owned?_eq_some.mpr hh) (fun X hb =>
          hb.convert (Container.wraps_mpmc n) Container.wraps_mpsc hq) into
        exact hp.reply _
      all_goals exact ha.reject

/-- The hook of a node that is in no container may be cleared. -/
theorem onNode (ha : Agree p s l) {f : Heap → Reply Nat × Heap} {r : Reply Nat}
    (hr : (f s.heap).1 = r) (hc : s.heap.Changes (f s.heap).2 xs) (hx : Avoids p.at? xs) :
    Accord (s.onNode node f) (l.onNode node r) := by
  rw [Session.onNode, Ledger.onNode]
  by_cases hn : node < s.nodes
  · rw [if_pos hn, if_pos (ha.nodes ▸ hn), ← hr]
    exact (ha.frame hc hx).reply _
  · rw [if_neg hn, if_neg (ha.nodes ▸ hn)]
    exact ha.reject

/-- A permitted command keeps the agreement. -/
theorem step {c : Command} (ha : Agree p s l) (hp : l.Permits s.heap c) :
    Accord (s.step c) (l.step c) := by
  cases c with
  | create slot kind byDefault spinCount => exact ha.create
  | push slot node access => exact ha.push hp
  | pop slot access => exact ha.pop
  | isEmpty slot => exact ha.isEmpty
  | top slot => exact ha.top
  | take slot into => exact ha.take
  | append slot other => exact ha.append
  | dispose slot => exact ha.dispose
  | split slot producer consumer => exact ha.split
  | clone slot into => exact ha.clone
  | reclaim slot into => exact ha.reclaim
  | toMpmc slot into => exact ha.toMpmc
  | clear node =>
    have hx : Avoids p.at? [.cell (.node node)] := ha.avoids_of_outside (k := .mpsc) hp
    exact ha.onNode rfl (.clear s.heap node) hx
  | clearStamp node =>
    have hx : Avoids p.at? [.hook node] := ha.avoids_of_outside (k := .stamped) hp
    have hc : s.heap.Changes { s.heap with stamps := s.heap.stamps.clear node }
        ([node].map .hook) := .ofStamps fun n hn => by
      have hne : node ≠ n := fun he => hn (by simp [he])
      simp [Stamps.clear, hne]
    exact ha.onNode rfl hc hx
  | _ => exact hp.elim

/-- A run that keeps the callers' promises is answered as the ledger says. -/
theorem run {cs : List Command} (ha : Agree p s l) (ho : s.Obeys l cs) :
    (s.run cs).1 = (l.run cs).1 ∧ ∃ p', Agree p' (s.run cs).2 (l.run cs).2 := by
  induction cs generalizing p s l with
  | nil => exact ⟨rfl, p, ha⟩
  | cons c cs ih =>
    obtain ⟨hanswer, p', ha'⟩ := ha.step ho.1
    obtain ⟨hanswers, hagree⟩ := ih ha' ho.2
    refine ⟨?_, hagree⟩
    show (s.step c).1 :: _ = (l.step c).1 :: _
    exact congrArg₂ List.cons hanswer hanswers

/-- What a name leads to holds what the ledger lists under this name. -/
theorem exists_entry (ha : Agree p s l) {c : Container} (hc : s.registry.queue? slot = some c) :
    ∃ e : Entry, e.container = c ∧ l.registry.queue? slot = some e.roster ∧ e.Holds s.heap := by
  rw [ha.containers, Registry.queue?_map, Option.map_eq_some_iff] at hc
  rcases hc with ⟨e, he, hec⟩
  obtain ⟨o, -, ho⟩ := Registry.exists_owner he
  refine ⟨e, hec, ?_, ha.separate.holds ho⟩
  rw [ha.rosters, Registry.queue?_map, he, Option.map_some]

theorem roster_inOrder (ha : Agree p s l) {r : Roster} (hr : r ∈ l.registry.queues) :
    r.InOrder := by
  rw [Registry.mem_queues_iff, ha.rosters] at hr
  rcases hr with ⟨o, ho⟩
  rw [Registry.at?_map, Option.map_eq_some_iff] at ho
  rcases ho with ⟨e, he, rfl⟩
  exact (ha.separate.holds he).inOrder

end Agree

namespace Session

/-- Whatever the links of the nodes are at the start: as long as the callers keep their promises,
all answers are those of the ledger, without a fault. Every queue gives its nodes back in the order
in which they came, and what a container tells about itself is what its list says. -/
theorem run_eq_ledger (nodes : Nat) (heap : Heap) (cs : List Command)
    (ho : (onHeap nodes heap).Obeys (.start nodes) cs) :
    let s := (onHeap nodes heap).run cs
    let l := (Ledger.start nodes).run cs
    s.1 = l.1 ∧
      (∀ a ∈ s.1, a.events = [] ∧ ∀ f, a.reply ≠ .fault f) ∧
      (∀ r ∈ l.2.registry.queues, r.kind ≠ .stack → r.pushed = r.popped ++ r.waiting) ∧
      ∀ slot c, s.2.registry.queue? slot = some c →
        ∃ r, l.2.registry.queue? slot = some r ∧ c.kind = r.kind ∧
          c.isEmpty s.2.heap = r.waiting.isEmpty ∧ c.top? = r.top? ∧
          (c.pop s.2.heap).1 = .ofOption r.waiting.head? := by
  obtain ⟨hanswers, p, ha⟩ := (Agree.start nodes heap).run ho
  refine ⟨hanswers, ?_, fun r hr => ha.roster_inOrder hr, fun slot c hc => ?_⟩
  · rw [hanswers]
    exact (Ledger.start nodes).run_uneventful cs
  · obtain ⟨e, rfl, hr, he⟩ := ha.exists_entry hc
    obtain ⟨e', h', hpop, -⟩ := he.pop
    exact ⟨e.roster, hr, e.kind_eq, he.isEmpty_eq, he.top?_eq, by rw [hpop]⟩

/-- A heap in which one link leads to a stub that is not in use yet, and another one to its own
node. -/
def strayHeap : Heap := ⟨(Links.empty.join (.node 0) (.stub 1)).join (.node 1) (.node 1), .empty, 0⟩

/-- Nodes go from one container to another, and so do whole lists. -/
def mixed : List Command :=
  [.create "many" .mpsc false none, .create "row" .chain false none,
   .create "tail" .chain false none, .create "pile" .stack false none, .push "many" 0 .direct,
   .push "many" 1 .direct, .pop "many" .direct, .push "pile" 0 .direct, .push "pile" 2 .direct,
   .top "pile", .push "row" 3 .direct, .push "tail" 4 .direct, .append "row" "tail",
   .take "row" "rest", .pop "rest" .direct, .pop "row" .direct, .toMpmc "many" "turns",
   .push "turns" 3 .interface, .pop "turns" .interface, .pop "turns" .direct, .isEmpty "turns",
   .dispose "turns", .clear 3, .push "rest" 3 .direct, .pop "rest" .direct, .pop "pile" .direct]

theorem run_eq_ledger_mixed :
    (onHeap 5 strayHeap).Obeys (.start 5) mixed ∧
      ((onHeap 5 strayHeap).run mixed).1.map Answer.reply =
        [.done, .done, .done, .done, .done, .done, .item (some 0), .done, .done, .item (some 2),
         .done, .done, .done, .done, .item (some 3), .item none, .done, .done, .item (some 1),
         .item (some 3), .flag true, .done, .done, .done, .item (some 4), .item (some 2)] ∧
      ∃ c, ((onHeap 5 strayHeap).run mixed).2.registry.queue? "rest" = some c ∧
        (c.pop ((onHeap 5 strayHeap).run mixed).2.heap).1 = .item 3 := by
  have ho : (onHeap 5 strayHeap).Obeys (.start 5) mixed := by decide +kernel
  obtain ⟨hanswers, -, -, hc⟩ := run_eq_ledger 5 strayHeap mixed ho
  refine ⟨ho, ?_, .chain ⟨some (.node 3), some (.node 3)⟩, by decide +kernel, ?_⟩
  · rw [hanswers]
    decide +kernel
  · obtain ⟨r, hr, -, -, -, hpop⟩ :=
      hc "rest" (.chain ⟨some (.node 3), some (.node 3)⟩) (by decide +kernel)
    have hw : ((Ledger.start 5).run mixed).2.registry.queue? "rest" =
        some ⟨.chain, [3], [3, 4, 3], [3, 4]⟩ := by decide +kernel
    obtain rfl := Option.some.inj (hw.symm.trans hr)
    exact hpop

end Session

end LinkedQueues.Linked

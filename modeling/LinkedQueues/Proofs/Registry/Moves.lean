import LinkedQueues.Proofs.Registry.Handles

/-!
Where queues go. What an operation of a registry gives up, together with what the registry has
afterwards, is what it had before and what was brought in, and a shared queue goes with its last
handle.
-/
namespace LinkedQueues.Registry

open scoped List

variable {Q : Type} {r r' r'' : Registry Q} {name into : String} {id : Nat} {p q : Q}
  {h : Holding Q} {gone gone' : List Q}

theorem queues_write_slot (r : Registry Q) (name : String) (o : Option (Holding Q)) :
    (((r.holding? name).bind Holding.queue?).toList ++
      queues { r with slots := r.slots.write name o }).Perm
      ((o.bind Holding.queue?).toList ++ r.queues) := by
  have hp := Store.filterMap_write_perm Holding.queue? r.slots name o
  simpa only [queues, holding?, List.append_assoc] using hp.append_right _

theorem queues_write_shared (r : Registry Q) (id fresh : Nat) (s : Option (Shared Q)) :
    (((r.shared.read id).map Shared.queue).toList ++
      queues ⟨r.slots, r.shared.write id s, fresh⟩).Perm
      ((s.map Shared.queue).toList ++ r.queues) := by
  have hp := Store.map_write_perm Shared.queue r.shared id s
  have hq := hp.append_left (r.slots.toList.filterMap fun c => c.2.queue?)
  exact (List.perm_append_comm_assoc _ _ _).trans (hq.trans (List.perm_append_comm_assoc _ _ _))

theorem releaseHandle_perm (r : Registry Q) (id : Nat) :
    ((r.releaseHandle id).1 ++ (r.releaseHandle id).2.queues).Perm r.queues := by
  cases hs : r.shared.read id with
  | none => simp [releaseHandle, hs]
  | some s =>
    by_cases hone : s.handles = 1
    · have hp := r.queues_write_shared id r.fresh none
      simpa [releaseHandle, hs, hone] using hp
    · have hp := r.queues_write_shared id r.fresh (some { s with handles := s.handles - 1 })
      simpa [releaseHandle, hs, hone] using hp

theorem release_perm (r : Registry Q) (h : Holding Q) :
    ((r.release h).1 ++ (r.release h).2.queues).Perm (h.queue?.toList ++ r.queues) := by
  cases h with
  | owned q => exact .refl _
  | producer id => exact r.releaseHandle_perm id
  | consumer id => exact r.releaseHandle_perm id

theorem place_perm (r : Registry Q) (name : String) (h : Holding Q) :
    ((r.place name h).1 ++ (r.place name h).2.queues).Perm (h.queue?.toList ++ r.queues) := by
  have hp := r.queues_write_slot name (some h)
  rw [place]
  cases hh : r.holding? name with
  | none => simpa [hh] using hp
  | some old =>
    rw [hh] at hp
    exact (release_perm _ old).trans hp

theorem vacate_perm (r : Registry Q) (name : String) :
    (((r.holding? name).bind Holding.queue?).toList ++ (r.vacate name).queues).Perm r.queues :=
  r.queues_write_slot name none

theorem dispose_perm (r : Registry Q) (name : String) :
    ((r.dispose name).1 ++ (r.dispose name).2.queues).Perm r.queues := by
  have hp := r.vacate_perm name
  rw [dispose]
  cases hh : r.holding? name with
  | none => exact .refl _
  | some old =>
    rw [hh] at hp
    exact (release_perm _ old).trans hp

theorem setQueue_perm (hq : r.queue? name = some p) (q : Q) :
    (p :: (r.setQueue name q).queues).Perm (q :: r.queues) := by
  rw [queue?, Option.bind_eq_some_iff] at hq
  obtain ⟨h, hh, hq⟩ := hq
  have hset (id : Nat) (hq : (r.shared.read id).map Shared.queue = some p) :
      ∃ s, r.shared.read id = some s ∧ (p :: queues { r with
        shared := r.shared.write id (some { s with queue := q }) }).Perm (q :: r.queues) := by
    obtain ⟨s, hs, rfl⟩ := Option.map_eq_some_iff.mp hq
    have hp := r.queues_write_shared id r.fresh (some { s with queue := q })
    exact ⟨s, hs, by simpa [hs] using hp⟩
  cases h with
  | owned old =>
    obtain rfl : old = p := Option.some.inj hq
    have hp := r.queues_write_slot name (some (.owned q))
    simpa [setQueue, hh, Holding.queue?] using hp
  | producer id =>
    obtain ⟨s, hs, hp⟩ := hset id hq
    simpa only [setQueue, hh, hs] using hp
  | consumer id =>
    obtain ⟨s, hs, hp⟩ := hset id hq
    simpa only [setQueue, hh, hs] using hp

theorem share_perm (hf : r.shared.read r.fresh = none) (hq : r.owned? name = some q) :
    (r.share name q).queues.Perm r.queues := by
  have hv := r.vacate_perm name
  rw [owned?_eq_some.mp hq] at hv
  have hs := (r.vacate name).queues_write_shared r.fresh (r.fresh + 1) (some ⟨q, 2⟩)
  rw [show (r.vacate name).shared.read r.fresh = none from hf] at hs
  exact hs.trans hv

theorem split_perm (hf : r.shared.read r.fresh = none) (hq : r.owned? name = some q)
    (producer consumer : String) :
    ((r.split name q producer consumer).1 ++ (r.split name q producer consumer).2.queues).Perm
      r.queues := by
  have hproducer := place_perm (r.share name q) producer (.producer r.fresh)
  have hconsumer := place_perm ((r.share name q).place producer (.producer r.fresh)).2 consumer
    (.consumer r.fresh)
  rw [split_eq, List.append_assoc]
  exact (hconsumer.append_left _).trans (hproducer.trans (share_perm hf hq))

theorem clone_perm (r : Registry Q) (id : Nat) (into : String) :
    ((r.clone id into).1 ++ (r.clone id into).2.queues).Perm r.queues := by
  rw [clone]
  cases hs : r.shared.read id with
  | none => exact .refl _
  | some s =>
    have hp := r.queues_write_shared id r.fresh (some { s with handles := s.handles + 1 })
    rw [hs] at hp
    exact (place_perm _ into (.producer id)).trans ((List.perm_append_left_iff [s.queue]).mp hp)

theorem unshare_perm (hh : r.holding? name = some (.consumer id))
    (hu : r.unshare name id into = some (gone, r')) : (gone ++ r'.queues).Perm r.queues := by
  have hv := r.vacate_perm name
  rw [hh] at hv
  rw [unshare] at hu
  cases hs : r.shared.read id with
  | none => simp [hs] at hu
  | some s =>
    by_cases hone : s.handles = 1
    · simp only [hs, if_pos hone, Option.some.injEq] at hu
      have hw := (r.vacate name).queues_write_shared id r.fresh none
      rw [show (r.vacate name).shared.read id = some s from hs] at hw
      have hp := place_perm { r.vacate name with shared := r.shared.write id none } into
        (.owned s.queue)
      rw [hu] at hp
      exact hp.trans (hw.trans hv)
    · simp [hs, hone] at hu

theorem Counted.lt_fresh {loose : List Nat} (hc : Counted r loose)
    (hq : r.at? (.shared id) = some q) : id < r.fresh := by
  obtain ⟨s, hs, -⟩ := Option.map_eq_some_iff.mp hq
  exact (hc.count_of_read hs).2

/-- Shared queues only go, and those that do are among the queues `gone`. -/
structure Loses (r : Registry Q) (gone : List Q) (r' : Registry Q) : Prop where
  fresh : r.fresh ≤ r'.fresh
  dead : ∀ id, id < r.fresh → r.at? (.shared id) = none → r'.at? (.shared id) = none
  kept : ∀ id q, r.at? (.shared id) = some q →
    r'.at? (.shared id) = some q ∨ (r'.at? (.shared id) = none ∧ q ∈ gone)

namespace Loses

theorem refl (r : Registry Q) (gone : List Q) : Loses r gone r :=
  ⟨Nat.le_refl _, fun _ _ h => h, fun _ _ => Or.inl⟩

theorem of_slots {slots : Store String (Holding Q)} (h : Loses { r with slots := slots } gone r') :
    Loses r gone r' := ⟨h.fresh, h.dead, h.kept⟩

theorem trans {loose : List Nat} (hc : Counted r loose) (h : Loses r gone r')
    (h' : Loses r' gone' r'') : Loses r (gone ++ gone') r'' := by
  refine ⟨Nat.le_trans h.fresh h'.fresh, fun id hid hd => ?_, fun id q hq => ?_⟩
  · exact h'.dead id (Nat.lt_of_lt_of_le hid h.fresh) (h.dead id hid hd)
  · rcases h.kept id q hq with hk | ⟨hd, hg⟩
    · exact (h'.kept id q hk).imp_right fun ⟨hd, hg⟩ => ⟨hd, List.mem_append_right _ hg⟩
    · have hid := Nat.lt_of_lt_of_le (hc.lt_fresh hq) h.fresh
      exact Or.inr ⟨h'.dead id hid hd, List.mem_append_left _ hg⟩

theorem releaseHandle (r : Registry Q) (id : Nat) :
    Loses r (r.releaseHandle id).1 (r.releaseHandle id).2 := by
  cases hs : r.shared.read id with
  | none =>
    simp only [Registry.releaseHandle, hs]
    exact .refl r _
  | some s =>
    have hat : r.at? (.shared id) = some s.queue := by simp [at?, hs]
    by_cases hone : s.handles = 1
    · simp only [Registry.releaseHandle, hs, if_pos hone]
      have hupdate := at?_write_shared r id r.fresh none
      refine ⟨Nat.le_refl _, fun k _ hd => ?_, fun k q hq => ?_⟩
      · rw [hupdate]
        by_cases hk : k = id <;> simp [hk, hd]
      · rw [hupdate]
        by_cases hk : k = id
        · subst hk
          obtain rfl : s.queue = q := Option.some.inj (hat.symm.trans hq)
          simp
        · simp [hk, hq]
    · simp only [Registry.releaseHandle, hs, if_neg hone]
      have hupdate := at?_write_shared r id r.fresh (some { s with handles := s.handles - 1 })
      rw [Option.map_some, ← hat, Function.update_eq_self] at hupdate
      refine ⟨Nat.le_refl _, fun k _ hd => ?_, fun k q hq => Or.inl ?_⟩
      · rw [hupdate, hd]
      · rw [hupdate, hq]

theorem release (r : Registry Q) (h : Holding Q) : Loses r (r.release h).1 (r.release h).2 := by
  cases h with
  | owned q => exact .refl r _
  | producer id => exact .releaseHandle r id
  | consumer id => exact .releaseHandle r id

theorem place (r : Registry Q) (name : String) (h : Holding Q) :
    Loses r (r.place name h).1 (r.place name h).2 := by
  rw [Registry.place]
  cases hh : r.holding? name with
  | none => exact (refl { r with slots := r.slots.write name (some h) } []).of_slots
  | some old => exact (release { r with slots := r.slots.write name (some h) } old).of_slots

theorem dispose (r : Registry Q) (name : String) :
    Loses r (r.dispose name).1 (r.dispose name).2 := by
  rw [Registry.dispose]
  cases hh : r.holding? name with
  | none => exact .refl r []
  | some old => exact (release (r.vacate name) old).of_slots

theorem share (hc : Counted r []) (name : String) (q : Q) : Loses r [] (r.share name q) := by
  have hat (id : Nat) (hid : id < r.fresh) :
      (r.share name q).at? (.shared id) = r.at? (.shared id) := by
    simp [at?_share, Nat.ne_of_lt hid]
  refine ⟨Nat.le_succ _, fun id hid hd => (hat id hid).trans hd, fun id q hq => Or.inl ?_⟩
  exact (hat id (hc.lt_fresh hq)).trans hq

theorem split (hc : Counted r []) (hq : r.owned? name = some q) (producer consumer : String) :
    Loses r (r.split name q producer consumer).1 (r.split name q producer consumer).2 := by
  have hproducer := place (r.share name q) producer (.producer r.fresh)
  have hconsumer := place ((r.share name q).place producer (.producer r.fresh)).2 consumer
    (.consumer r.fresh)
  have hall := (share hc name q).trans hc (hproducer.trans (hc.share hq) hconsumer)
  exact hall

theorem clone (r : Registry Q) (id : Nat) (into : String) :
    Loses r (r.clone id into).1 (r.clone id into).2 := by
  rw [Registry.clone]
  cases hs : r.shared.read id with
  | none => exact .refl r _
  | some s =>
    have hupdate := at?_write_shared r id r.fresh (some { s with handles := s.handles + 1 })
    have hat : r.at? (.shared id) = some s.queue := by simp [at?, hs]
    rw [Option.map_some, ← hat, Function.update_eq_self] at hupdate
    have hplace := place { r with
      shared := r.shared.write id (some { s with handles := s.handles + 1 }) } into (.producer id)
    exact ⟨hplace.fresh, fun k hk hd => hplace.dead k hk (hupdate ▸ hd),
      fun k q hq => hplace.kept k q (hupdate ▸ hq)⟩

end Loses

theorem slots_release (r : Registry Q) (h : Holding Q) : (r.release h).2.slots = r.slots := by
  have hr (id : Nat) : (r.releaseHandle id).2.slots = r.slots := by
    rw [releaseHandle]
    cases r.shared.read id with
    | none => rfl
    | some s => by_cases hone : s.handles = 1 <;> simp [hone]
  cases h with
  | owned q => rfl
  | producer id => exact hr id
  | consumer id => exact hr id

theorem holding?_place (r : Registry Q) (name : String) (h : Holding Q) (n : String) :
    (r.place name h).2.holding? n = if name = n then some h else r.holding? n := by
  have hw : holding? { r with slots := r.slots.write name (some h) } n =
      if name = n then some h else r.holding? n := Store.read_write ..
  rw [place]
  cases hh : r.holding? name with
  | none => exact hw
  | some old =>
    rw [← hw]
    exact congrArg (fun slots => Store.read slots n) (slots_release _ old)

theorem holding?_dispose (r : Registry Q) (name n : String) :
    (r.dispose name).2.holding? n = if name = n then none else r.holding? n := by
  have hw : (r.vacate name).holding? n = if name = n then none else r.holding? n :=
    Store.read_write ..
  rw [dispose]
  cases hh : r.holding? name with
  | none =>
    by_cases he : name = n
    · rw [if_pos he, ← he]
      exact hh
    · rw [if_neg he]
  | some old =>
    rw [← hw]
    exact congrArg (fun slots => Store.read slots n) (slots_release _ old)

theorem owned?_place (r : Registry Q) (name : String) (q : Q) :
    (r.place name (.owned q)).2.owned? name = some q := by
  rw [owned?_eq_some, holding?_place, if_pos rfl]

def withdraw (r : Registry Q) (name : String) (id : Nat) : Registry Q :=
  { r.vacate name with shared := r.shared.write id none }

theorem unshare_eq {s : Shared Q} (hs : r.shared.read id = some s) (name into : String) :
    r.unshare name id into =
      if s.handles = 1 then some ((r.withdraw name id).place into (.owned s.queue)) else none := by
  rw [unshare, hs]
  rfl

/-- A handle is the last one exactly when only one name holds any. -/
theorem Counted.handles_eq_one_iff (hc : Counted r []) {s : Shared Q}
    (hs : r.shared.read id = some s) (hh : r.holding? name = some h) (hid : h.handle? = some id) :
    s.handles = 1 ↔ r.holders id = [name] := by
  have hm : name ∈ r.holders id := by
    rw [mem_holders, hh]
    exact hid
  have hn : (r.holders id).length = s.handles := by
    rw [← count_handles, ← (hc.count_of_read hs).1, List.nil_append]
  rw [← hn, List.length_eq_one_iff]
  constructor
  · rintro ⟨n, he⟩
    rw [he, List.mem_singleton] at hm
    rw [he, hm]
  · exact fun he => ⟨name, he⟩

/-- No queue is forgotten: some name leads to it. -/
theorem Counted.exists_name (hc : Counted r []) (hq : q ∈ r.queues) :
    ∃ name, r.queue? name = some q := by
  obtain ⟨o, ho⟩ := mem_queues_iff.mp hq
  cases o with
  | name name => exact ⟨name, by rw [queue?, owned?_eq_some.mp ho]; rfl⟩
  | shared id =>
    obtain ⟨s, hs, rfl⟩ := Option.map_eq_some_iff.mp ho
    have hcount := hc.count id
    rw [hs, Option.map_some, eq_comm, positive_eq_some, List.nil_append, count_handles] at hcount
    obtain ⟨name, hn⟩ := List.exists_mem_of_length_pos (hcount.1 ▸ hcount.2)
    obtain ⟨h, hh, hid⟩ := Option.bind_eq_some_iff.mp (mem_holders.mp hn)
    exact ⟨name, by rw [queue?, hh, Option.bind_some, resolve?_of_handle hid, hs, Option.map_some]⟩

/-- No handle outlives its queue: whatever a name holds, it leads to a queue. -/
theorem Counted.exists_queue (hc : Counted r []) (hh : r.isHeld name = true) :
    ∃ q, r.queue? name = some q := by
  obtain ⟨h, hh⟩ := Option.isSome_iff_exists.mp hh
  rw [queue?, hh, Option.bind_some]
  cases hid : h.handle? with
  | none =>
    cases h with
    | owned q => exact ⟨q, rfl⟩
    | producer id => cases hid
    | consumer id => cases hid
  | some id =>
    have hm : name ∈ r.holders id := by rw [mem_holders, hh, Option.bind_some, hid]
    have hcount := hc.count id
    rw [List.nil_append, count_handles] at hcount
    obtain ⟨n, hn⟩ := Nat.exists_eq_succ_of_ne_zero
      (Nat.ne_of_gt (List.length_pos_of_mem hm))
    rw [hn, positive, Option.map_eq_some_iff] at hcount
    obtain ⟨s, hs, -⟩ := hcount
    exact ⟨s.queue, by rw [resolve?_of_handle hid, hs, Option.map_some]⟩

def disposeEach (ns : List String) (c : List Q × Registry Q) : List Q × Registry Q :=
  ns.foldl (fun (gone, r) name => let (gone', r) := r.dispose name; (gone ++ gone', r)) c

theorem disposeEach_map {P : Type} (f : Q → P) (ns : List String) (c : List Q × Registry Q) :
    disposeEach ns (mapChange f c) = mapChange f (disposeEach ns c) := by
  induction ns generalizing c with
  | nil => rfl
  | cons name ns ih =>
    have hc : (c.1.map f ++ ((c.2.map f).dispose name).1, ((c.2.map f).dispose name).2) =
        mapChange f (c.1 ++ (c.2.dispose name).1, (c.2.dispose name).2) := by
      rw [dispose_map, mapChange, mapChange, List.map_append]
    exact (congrArg (disposeEach ns) hc).trans (ih _)

theorem disposeAll_map {P : Type} (f : Q → P) (r : Registry Q) :
    (r.map f).disposeAll = mapChange f r.disposeAll := by
  rw [disposeAll, names_map]
  exact disposeEach_map f r.names ([], r)

theorem disposeEach_spec (ns : List String) (gone : List Q) (hc : Counted r []) :
    let c := disposeEach ns (gone, r)
    Counted c.2 [] ∧ (c.1 ++ c.2.queues).Perm (gone ++ r.queues) ∧
      ∀ n, c.2.holding? n = if n ∈ ns then none else r.holding? n := by
  induction ns generalizing gone r with
  | nil => exact ⟨hc, .refl _, fun n => by simp [disposeEach]⟩
  | cons name ns ih =>
    obtain ⟨hcount, hperm, hholding⟩ := ih (gone ++ (r.dispose name).1) (hc.dispose name)
    refine ⟨hcount, hperm.trans ?_, fun n => (hholding n).trans ?_⟩
    · rw [List.append_assoc]
      exact (r.dispose_perm name).append_left gone
    · rw [holding?_dispose]
      by_cases hn : name = n
      · simp [hn]
      · simp [hn, Ne.symm hn]

/-- When every name has given up what it held, every queue is gone, each of them once. -/
theorem disposeAll_spec (hc : Counted r []) :
    r.disposeAll.1.Perm r.queues ∧ r.disposeAll.2.queues = [] := by
  obtain ⟨hcount, hperm, hholding⟩ := disposeEach_spec r.names [] hc
  have hnone (n : String) : r.disposeAll.2.holding? n = none := by
    refine (hholding n).trans ?_
    by_cases hn : n ∈ r.names
    · rw [if_pos hn]
    · rw [if_neg hn, holding?]
      by_contra hs
      obtain ⟨h, hs⟩ := Option.ne_none_iff_exists'.mp hs
      exact hn (List.mem_map.mpr ⟨(n, h), (Store.mem_toList_iff ..).mpr hs, rfl⟩)
  have hempty : r.disposeAll.2.queues = [] := by
    refine List.eq_nil_iff_forall_not_mem.mpr fun q hq => ?_
    obtain ⟨name, hname⟩ := hcount.exists_name hq
    have hheld : (disposeEach r.names ([], r)).2.holding? name = none := hnone name
    rw [queue?, hheld] at hname
    cases hname
  refine ⟨?_, hempty⟩
  have hall : (r.disposeAll.1 ++ r.disposeAll.2.queues).Perm r.queues := hperm
  rwa [hempty, List.append_nil] at hall

/-- The only handle of a shared queue turns into the queue. -/
theorem unshare_fate (hu : r.unshare name id into = some (gone, r')) : ∃ q,
    r.at? (.shared id) = some q ∧ r'.owned? into = some q ∧
      Loses (r.withdraw name id) gone r' := by
  cases hs : r.shared.read id with
  | none => simp [Registry.unshare, hs] at hu
  | some s =>
    rw [unshare_eq hs] at hu
    by_cases hone : s.handles = 1
    · rw [if_pos hone, Option.some.injEq] at hu
      have ho := owned?_place (r.withdraw name id) into s.queue
      have hl := Loses.place (r.withdraw name id) into (.owned s.queue)
      rw [hu] at ho hl
      exact ⟨s.queue, by simp [at?, hs], ho, hl⟩
    · simp [hone] at hu

theorem at?_withdraw (r : Registry Q) (name : String) (id k : Nat) :
    (r.withdraw name id).at? (.shared k) = if id = k then none else r.at? (.shared k) := by
  rw [at?, withdraw, Store.read_write]
  by_cases hk : id = k
  · rw [if_pos hk, if_pos hk]
    rfl
  · rw [if_neg hk, if_neg hk]
    rfl

/-- Queues pass from one name to another: the queues `new` come in, and those of `c.1` are gone. A
shared queue never comes back. When it ends it is given up, unless some name owns it from then
on. -/
structure Passes (r : Registry Q) (new : List Q) (c : List Q × Registry Q) : Prop where
  counted : Counted c.2 []
  perm : (c.1 ++ c.2.queues).Perm (new ++ r.queues)
  fresh : r.fresh ≤ c.2.fresh
  dead : ∀ id, id < r.fresh → r.at? (.shared id) = none → c.2.at? (.shared id) = none
  fate : ∀ id q, r.at? (.shared id) = some q → c.2.at? (.shared id) = some q ∨
    (c.2.at? (.shared id) = none ∧ ((∃ into, c.2.owned? into = some q) ∨ q ∈ c.1))

namespace Passes

theorem of_loses {new : List Q} {c : List Q × Registry Q} (hc : Counted c.2 [])
    (hp : (c.1 ++ c.2.queues).Perm (new ++ r.queues)) (hl : Loses r c.1 c.2) : Passes r new c :=
  ⟨hc, hp, hl.fresh, hl.dead, fun id q hq => (hl.kept id q hq).imp_right fun ⟨hd, hg⟩ =>
    ⟨hd, Or.inr hg⟩⟩

theorem place (hc : Counted r []) (name : String) (q : Q) :
    Passes r [q] (r.place name (.owned q)) :=
  .of_loses (hc.place (h := .owned q) name) (r.place_perm name (.owned q)) (.place r name _)

theorem take (hc : Counted r []) (hq : r.owned? name = some q) (fresh : Q) (into : String) :
    Passes r [fresh] ((r.setQueue name fresh).place into (.owned q)) := by
  refine .of_loses ((hc.setQueue name fresh).place (h := .owned q) into) ?_ ?_
  · exact ((r.setQueue name fresh).place_perm into (.owned q)).trans
      (setQueue_perm (queue?_of_owned? hq) fresh)
  · rw [setQueue_of_owned? hq]
    exact (Loses.place _ into (.owned q)).of_slots

theorem move (hc : Counted r []) (hq : r.owned? name = some q) (into : String) :
    Passes r [] ((r.vacate name).place into (.owned q)) := by
  have hv := hc.vacate name
  have hp := r.vacate_perm name
  rw [owned?_eq_some.mp hq] at hv hp
  exact .of_loses (hv.place (h := .owned q) into)
    (((r.vacate name).place_perm into (.owned q)).trans hp) (Loses.place _ into _).of_slots

theorem dispose (hc : Counted r []) (name : String) : Passes r [] (r.dispose name) :=
  .of_loses (hc.dispose name) (r.dispose_perm name) (.dispose r name)

theorem split (hc : Counted r []) (hq : r.owned? name = some q) (producer consumer : String) :
    Passes r [] (r.split name q producer consumer) :=
  .of_loses (hc.split hq producer consumer)
    (split_perm (hc.fresh r.fresh (Nat.le_refl _)) hq producer consumer)
    (.split hc hq producer consumer)

theorem clone (hc : Counted r []) (id : Nat) (into : String) : Passes r [] (r.clone id into) :=
  .of_loses (hc.clone id into) (r.clone_perm id into) (.clone r id into)

theorem unshare {c : List Q × Registry Q} (hc : Counted r [])
    (hh : r.holding? name = some (.consumer id)) (hu : r.unshare name id into = some c) :
    Passes r [] c := by
  obtain ⟨q, hq, ho, hl⟩ := unshare_fate hu
  refine ⟨hc.unshare hh hu, unshare_perm hh hu, hl.fresh, fun k hk hd => ?_, fun k p hp => ?_⟩
  · refine hl.dead k hk ?_
    rw [at?_withdraw, hd, ite_self]
  · by_cases hk : id = k
    · subst hk
      obtain rfl : q = p := Option.some.inj (hq.symm.trans hp)
      refine Or.inr ⟨hl.dead id (hc.lt_fresh hq) ?_, Or.inl ⟨into, ho⟩⟩
      rw [at?_withdraw, if_pos rfl]
    · refine (hl.kept k p ?_).imp_right fun ⟨hd, hg⟩ => ⟨hd, Or.inr hg⟩
      rw [at?_withdraw, if_neg hk, hp]

end Passes

/-- The number that is kept for a shared queue is that of the names with a handle. -/
theorem Counted.tally (hc : Counted r []) (id : Nat) : (r.shared.read id).map Shared.handles =
    if r.holders id = [] then none else some (r.holders id).length := by
  rw [hc.count id, List.nil_append, count_handles]
  cases r.holders id <;> rfl

theorem Counted.holders_eq_nil_iff (hc : Counted r []) :
    r.holders id = [] ↔ r.at? (.shared id) = none := by
  have ht := hc.tally id
  rw [at?, Option.map_eq_none_iff]
  constructor
  · intro he
    rwa [if_pos he, Option.map_eq_none_iff] at ht
  · intro hn
    by_contra he
    simp [hn, he] at ht

/-- What becomes of a consumer that is to be the queue again: it is, unless another name holds a
handle too. -/
def Reclaims (r : Registry Q) (slot into : String) (id : Nat) (flag : Bool)
    (c : List Q × Registry Q) : Prop :=
  (r.holders id = [slot] → flag = true ∧ ∃ q, r.at? (.shared id) = some q ∧
    c.2.owned? into = some q ∧ c.2.at? (.shared id) = none) ∧
  (r.holders id ≠ [slot] → flag = false ∧ c = ([], r))

theorem Counted.reclaims (hc : Counted r []) (hh : r.holding? name = some (.consumer id))
    (into : String) : r.Reclaims name into id (r.unshare name id into).isSome
      ((r.unshare name id into).getD ([], r)) := by
  have hm : name ∈ r.holders id := by
    rw [mem_holders, hh]
    rfl
  cases hs : r.shared.read id with
  | none =>
    have hn : r.at? (.shared id) = none := by rw [at?, hs, Option.map_none]
    rw [hc.holders_eq_nil_iff.mpr hn] at hm
    cases hm
  | some s =>
    have hone := hc.handles_eq_one_iff hs hh rfl
    constructor
    · intro he
      obtain ⟨c, hu⟩ : ∃ c, r.unshare name id into = some c := by
        rw [unshare_eq hs, if_pos (hone.mpr he)]
        exact ⟨_, rfl⟩
      obtain ⟨q, hq, ho, hl⟩ := unshare_fate hu
      rw [hu]
      refine ⟨rfl, q, hq, ho, hl.dead id (hc.lt_fresh hq) ?_⟩
      rw [at?_withdraw, if_pos rfl]
    · intro he
      have hu : r.unshare name id into = none := by
        rw [unshare_eq hs, if_neg fun h => he (hone.mp h)]
      rw [hu]
      exact ⟨rfl, rfl⟩

end LinkedQueues.Registry

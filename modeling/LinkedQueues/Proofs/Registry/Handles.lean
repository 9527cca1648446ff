import LinkedQueues.Proofs.Registry
import Mathlib.Data.List.Perm.Basic

/-!
Handles are counted. A registry lists the names that hold a handle of a shared queue, and the number
that it keeps for this queue is the length of the list. While an operation moves a handle from one
name to another the handle is loose, and it counts all the same.
-/
namespace LinkedQueues

open scoped List

namespace Store

variable {κ ν : Type} [Ord κ] [Std.TransOrd κ]

theorem nodup_toList (s : Store κ ν) : s.toList.Nodup :=
  List.Pairwise.imp (fun h he => h (by rw [he]; exact Std.ReflCmp.compare_self))
    (Std.ExtTreeMap.distinct_keys_toList (t := s.cells))

theorem nodup_keys (s : Store κ ν) : s.keys.Nodup := by
  rw [keys, List.Nodup, List.pairwise_map]
  exact List.Pairwise.imp (fun h he => h (by rw [he]; exact Std.ReflCmp.compare_self))
    (Std.ExtTreeMap.distinct_keys_toList (t := s.cells))

variable [Std.LawfulEqOrd κ] [DecidableEq κ]

theorem toList_perm (s : Store κ ν) (k : κ) :
    s.toList.Perm (((s.read k).map (k, ·)).toList ++ s.toList.filter fun c => c.1 ≠ k) := by
  have hcell : (((s.read k).map (k, ·)).toList ++ s.toList.filter fun c => c.1 ≠ k).Nodup := by
    refine List.nodup_append.mpr ⟨?_, s.nodup_toList.filter _, fun c hc d hd => ?_⟩
    · cases s.read k <;> simp
    · rintro rfl
      cases hk : s.read k <;> simp [hk] at hc
      simp [hc] at hd
  refine (List.perm_ext_iff_of_nodup s.nodup_toList hcell).mpr fun c => ?_
  obtain ⟨l, v⟩ := c
  by_cases hl : l = k
  · subst hl
    simp [mem_toList_iff]
  · simp [mem_toList_iff, hl, Ne.symm hl]

theorem toList_write_perm (s : Store κ ν) (k : κ) (o : Option ν) :
    (((s.read k).map (k, ·)).toList ++ (s.write k o).toList).Perm
      ((o.map (k, ·)).toList ++ s.toList) := by
  have hothers : ((s.write k o).toList.filter fun c => c.1 ≠ k).Perm
      (s.toList.filter fun c => c.1 ≠ k) := by
    refine (List.perm_ext_iff_of_nodup ((s.write k o).nodup_toList.filter _)
      (s.nodup_toList.filter _)).mpr fun c => ?_
    obtain ⟨l, v⟩ := c
    by_cases hl : k = l
    · simp [hl]
    · simp [mem_toList_iff, read_write, hl]
  have hw := (s.write k o).toList_perm k
  rw [read_write_self] at hw
  calc ((s.read k).map (k, ·)).toList ++ (s.write k o).toList
    _ ~ ((s.read k).map (k, ·)).toList ++
          ((o.map (k, ·)).toList ++ s.toList.filter fun c => c.1 ≠ k) :=
      (hw.trans (hothers.append_left _)).append_left _
    _ ~ (o.map (k, ·)).toList ++
          (((s.read k).map (k, ·)).toList ++ s.toList.filter fun c => c.1 ≠ k) :=
      List.perm_append_comm_assoc _ _ _
    _ ~ (o.map (k, ·)).toList ++ s.toList := (s.toList_perm k).symm.append_left _

theorem filterMap_write_perm {μ : Type} (f : ν → Option μ) (s : Store κ ν) (k : κ)
    (o : Option ν) :
    (((s.read k).bind f).toList ++ (s.write k o).toList.filterMap fun c => f c.2).Perm
      ((o.bind f).toList ++ s.toList.filterMap fun c => f c.2) := by
  have hcell (o : Option ν) :
      (o.map (k, ·)).toList.filterMap (fun c => f c.2) = (o.bind f).toList := by
    cases o with
    | none => rfl
    | some v => cases h : f v <;> simp [h]
  have hp := (s.toList_write_perm k o).filterMap fun c => f c.2
  rwa [List.filterMap_append, List.filterMap_append, hcell, hcell] at hp

theorem map_write_perm {μ : Type} (f : ν → μ) (s : Store κ ν) (k : κ) (o : Option ν) :
    (((s.read k).map f).toList ++ (s.write k o).toList.map fun c => f c.2).Perm
      ((o.map f).toList ++ s.toList.map fun c => f c.2) := by
  have hcell (o : Option ν) : (o.map (k, ·)).toList.map (fun c => f c.2) = (o.map f).toList := by
    cases o <;> rfl
  have hp := (s.toList_write_perm k o).map fun c => f c.2
  rwa [List.map_append, List.map_append, hcell, hcell] at hp

end Store

def Holding.handle? {Q : Type} : Holding Q → Option Nat
  | owned _ => none
  | producer id | consumer id => some id

@[simp] theorem Holding.handle?_map {Q P : Type} (f : Q → P) (h : Holding Q) :
    (h.map f).handle? = h.handle? := by
  cases h <;> rfl

namespace Registry

variable {Q : Type} {r r' : Registry Q} {name into : String} {id : Nat} {q : Q}
  {h : Holding Q} {loose loose' : List Nat}

def handles (r : Registry Q) : List Nat := r.slots.toList.filterMap fun c => c.2.handle?

theorem handles_map {P : Type} (f : Q → P) (r : Registry Q) : (r.map f).handles = r.handles := by
  simp only [handles, map, Store.toList_map, List.filterMap_map, Function.comp_def,
    Holding.handle?_map]

def holders (r : Registry Q) (id : Nat) : List String :=
  (r.slots.toList.filter fun c => c.2.handle? == some id).map Prod.fst

theorem holders_map {P : Type} (f : Q → P) (r : Registry Q) (id : Nat) :
    (r.map f).holders id = r.holders id := by
  simp only [holders, map, Store.toList_map, List.filter_map, List.map_map, Function.comp_def,
    Holding.handle?_map]

theorem resolve?_of_handle (hid : h.handle? = some id) :
    r.resolve? h = (r.shared.read id).map Shared.queue := by
  cases h with
  | owned q => cases hid
  | producer k =>
    obtain rfl := Option.some.inj hid
    rfl
  | consumer k =>
    obtain rfl := Option.some.inj hid
    rfl

theorem mem_holders :
    name ∈ r.holders id ↔ (r.holding? name).bind Holding.handle? = some id := by
  simp [holders, holding?, Store.mem_toList_iff, Option.bind_eq_some_iff]

theorem nodup_holders (r : Registry Q) (id : Nat) : (r.holders id).Nodup :=
  r.slots.nodup_keys.sublist (List.filter_sublist.map Prod.fst)

theorem count_handles (r : Registry Q) (id : Nat) : r.handles.count id = (r.holders id).length := by
  rw [handles, List.count_filterMap, holders, List.length_map, List.countP_eq_length_filter]

def positive : Nat → Option Nat
  | 0 => none
  | n + 1 => some (n + 1)

theorem positive_eq_none {n : Nat} : positive n = none ↔ n = 0 := by
  cases n <;> simp [positive]

theorem positive_eq_some {n k : Nat} : positive n = some k ↔ n = k ∧ 0 < k := by
  cases n <;> simp [positive] <;> omega

/-- The number that is kept for a shared queue is that of its handles, loose ones included, and a
queue without a handle is gone. -/
structure Counted (r : Registry Q) (loose : List Nat) : Prop where
  count : ∀ id, (r.shared.read id).map Shared.handles = positive ((loose ++ r.handles).count id)
  fresh : ∀ id, r.fresh ≤ id → r.shared.read id = none

namespace Counted

theorem empty : Counted (Q := Q) .empty [] := by
  have hn : handles (Q := Q) .empty = [] := by
    simp [handles, Registry.empty, Store.toList, Store.empty]
  refine ⟨fun id => ?_, fun id _ => ?_⟩
  · rw [hn, Registry.empty, Store.read_empty]
    rfl
  · rw [Registry.empty, Store.read_empty]

theorem map {P : Type} (hc : Counted r loose) (f : Q → P) : Counted (r.map f) loose := by
  refine ⟨fun id => ?_, fun id hid => ?_⟩
  · rw [read_shared_map, handles_map, ← hc.count id, Option.map_map]
    rfl
  · rw [read_shared_map, hc.fresh id hid, Option.map_none]

/-- Only a handle changes its place. -/
theorem perm (hc : Counted r loose) (hs : r'.shared = r.shared) (hf : r'.fresh = r.fresh)
    (hp : (loose' ++ r'.handles).Perm (loose ++ r.handles)) : Counted r' loose' := by
  refine ⟨fun id => ?_, fun id hid => ?_⟩
  · rw [hs, hp.count_eq]
    exact hc.count id
  · rw [hs]
    exact hc.fresh id (hf ▸ hid)

/-- A name takes a handle up, and the one that it held becomes loose. -/
theorem write_slot (name : String) (o : Option (Holding Q))
    (hc : Counted r ((o.bind Holding.handle?).toList ++ loose)) :
    Counted { r with slots := r.slots.write name o }
      (((r.holding? name).bind Holding.handle?).toList ++ loose) := by
  refine hc.perm rfl rfl ?_
  have hp := Store.filterMap_write_perm Holding.handle? r.slots name o
  calc ((r.holding? name).bind Holding.handle?).toList ++ loose ++ _
    _ ~ loose ++ (((r.holding? name).bind Holding.handle?).toList ++ _) := by
      rw [List.append_assoc]
      exact List.perm_append_comm_assoc _ _ _
    _ ~ loose ++ ((o.bind Holding.handle?).toList ++ r.handles) := hp.append_left loose
    _ ~ (o.bind Holding.handle?).toList ++ loose ++ r.handles := by
      rw [List.append_assoc]
      exact List.perm_append_comm_assoc _ _ _

/-- The number of one shared queue changes, and so do the loose handles. -/
theorem write_shared {s : Option (Shared Q)} {fresh : Nat} (hc : Counted r loose)
    (hs : s.map Shared.handles = positive ((loose' ++ r.handles).count id))
    (hl : ∀ k, k ≠ id → loose'.count k = loose.count k) (hf : r.fresh ≤ fresh)
    (hid : id < fresh) : Counted ⟨r.slots, r.shared.write id s, fresh⟩ loose' := by
  refine ⟨fun k => ?_, fun k (hk : fresh ≤ k) => ?_⟩
  · by_cases he : id = k
    · subst he
      rw [Store.read_write_self, hs]
      rfl
    · rw [Store.read_write_of_ne _ he, hc.count k, List.count_append, List.count_append,
        hl k (Ne.symm he)]
      rfl
  · rw [Store.read_write_of_ne _ (by omega)]
    exact hc.fresh k (by omega)

theorem count_of_read (hc : Counted r loose) {s : Shared Q} (hs : r.shared.read id = some s) :
    (loose ++ r.handles).count id = s.handles ∧ id < r.fresh := by
  have hcount := hc.count id
  rw [hs, Option.map_some, eq_comm, positive_eq_some] at hcount
  refine ⟨hcount.1, Nat.lt_of_not_le fun hid => ?_⟩
  rw [hc.fresh id hid] at hs
  cases hs

theorem count_fresh (hc : Counted r loose) : (loose ++ r.handles).count r.fresh = 0 := by
  have hcount := hc.count r.fresh
  rwa [hc.fresh r.fresh (Nat.le_refl _), Option.map_none, eq_comm, positive_eq_none] at hcount

theorem exists_of_loose (hc : Counted r (id :: loose)) : ∃ s, r.shared.read id = some s := by
  have hcount := hc.count id
  rw [List.cons_append, List.count_cons_self, positive, Option.map_eq_some_iff] at hcount
  obtain ⟨s, hs, -⟩ := hcount
  exact ⟨s, hs⟩

theorem releaseHandle (hc : Counted r (id :: loose)) : Counted (r.releaseHandle id).2 loose := by
  obtain ⟨s, hs⟩ := hc.exists_of_loose
  obtain ⟨hn, hid⟩ := hc.count_of_read hs
  rw [List.cons_append, List.count_cons_self] at hn
  have hl (k : Nat) (hk : k ≠ id) : loose.count k = (id :: loose).count k := by
    simp [Ne.symm hk]
  simp only [Registry.releaseHandle, hs]
  by_cases hone : s.handles = 1
  · simp only [if_pos hone]
    have hz : (loose ++ r.handles).count id = 0 := by omega
    exact hc.write_shared (by rw [hz]; rfl) hl (Nat.le_refl _) hid
  · simp only [if_neg hone]
    refine hc.write_shared ?_ hl (Nat.le_refl _) hid
    rw [Option.map_some, eq_comm, positive_eq_some]
    show _ = s.handles - 1 ∧ 0 < s.handles - 1
    omega

theorem release (hc : Counted r (h.handle?.toList ++ loose)) : Counted (r.release h).2 loose := by
  cases h with
  | owned q => exact hc
  | producer id => exact hc.releaseHandle
  | consumer id => exact hc.releaseHandle

theorem place (hc : Counted r (h.handle?.toList ++ loose)) (name : String) :
    Counted (r.place name h).2 loose := by
  have hw := write_slot name (some h) hc
  rw [Registry.place]
  cases hh : r.holding? name with
  | none => simpa [hh] using hw
  | some old =>
    rw [hh] at hw
    exact release hw

theorem vacate (hc : Counted r loose) (name : String) :
    Counted (r.vacate name) (((r.holding? name).bind Holding.handle?).toList ++ loose) :=
  write_slot name none hc

theorem dispose (hc : Counted r loose) (name : String) : Counted (r.dispose name).2 loose := by
  have hv := hc.vacate name
  rw [Registry.dispose]
  cases hh : r.holding? name with
  | none => exact hc
  | some h =>
    rw [hh] at hv
    exact release hv

theorem share (hc : Counted r []) (hq : r.owned? name = some q) :
    Counted (r.share name q) [r.fresh, r.fresh] := by
  have hv := hc.vacate name
  rw [owned?_eq_some.mp hq] at hv
  have hnone : (r.vacate name).handles.count r.fresh = 0 := hv.count_fresh
  refine hv.write_shared ?_ (fun k hk => ?_) (Nat.le_succ _) (Nat.lt_succ_self _)
  · rw [List.count_append, hnone]
    simp [positive]
  · simp [Ne.symm hk, Holding.handle?]

theorem split (hc : Counted r []) (hq : r.owned? name = some q) (producer consumer : String) :
    Counted (r.split name q producer consumer).2 [] := by
  have hproducer := place (h := .producer r.fresh) (hc.share hq) producer
  refine place (h := .consumer r.fresh) ?_ consumer
  exact hproducer

theorem clone (hc : Counted r []) (id : Nat) (into : String) : Counted (r.clone id into).2 [] := by
  rw [Registry.clone]
  cases hs : r.shared.read id with
  | none => exact hc
  | some s =>
    obtain ⟨hn, hid⟩ := hc.count_of_read hs
    have hshared : Counted { r with
        shared := r.shared.write id (some { s with handles := s.handles + 1 }) } [id] := by
      refine hc.write_shared ?_ (fun k hk => ?_) (Nat.le_refl _) hid
      · rw [List.singleton_append, List.count_cons_self, positive]
        exact congrArg (fun n => some (n + 1)) hn.symm
      · simp [Ne.symm hk]
    refine place (h := .producer id) ?_ into
    exact hshared

theorem unshare (hc : Counted r []) (hh : r.holding? name = some (.consumer id)) {gone : List Q}
    (hu : r.unshare name id into = some (gone, r')) : Counted r' [] := by
  have hv : Counted (r.vacate name) [id] := by simpa [hh, Holding.handle?] using hc.vacate name
  rw [Registry.unshare] at hu
  cases hs : r.shared.read id with
  | none => simp [hs] at hu
  | some s =>
    by_cases hone : s.handles = 1
    · obtain ⟨hn, hid⟩ := hv.count_of_read hs
      rw [List.singleton_append, List.count_cons_self, hone] at hn
      have hshared : Counted { r.vacate name with shared := r.shared.write id none } [] := by
        refine hv.write_shared ?_ (fun k hk => ?_) (Nat.le_refl _) hid
        · rw [Option.map_none, eq_comm, positive_eq_none]
          exact Nat.succ.inj hn
        · simp [Ne.symm hk]
      simp only [hs, if_pos hone, Option.some.injEq] at hu
      have hp := place (h := .owned s.queue) hshared into
      rwa [hu] at hp
    · simp [hs, hone] at hu

theorem setQueue (hc : Counted r loose) (name : String) (q : Q) :
    Counted (r.setQueue name q) loose := by
  rw [Registry.setQueue]
  cases hh : r.holding? name with
  | none => exact hc
  | some h =>
    have hset (id : Nat) (s : Shared Q) (hs : r.shared.read id = some s) : Counted
        { r with shared := r.shared.write id (some { s with queue := q }) } loose := by
      obtain ⟨hn, hid⟩ := hc.count_of_read hs
      refine hc.write_shared ?_ (fun _ _ => rfl) (Nat.le_refl _) hid
      rw [← hc.count id, hs]
      rfl
    cases h with
    | owned old => simpa [hh, Holding.handle?] using write_slot name (some (.owned q)) hc
    | producer id =>
      cases hs : r.shared.read id with
      | none => simpa only [hs] using hc
      | some s => simpa only [hs] using hset id s hs
    | consumer id =>
      cases hs : r.shared.read id with
      | none => simpa only [hs] using hc
      | some s => simpa only [hs] using hset id s hs

end Counted

end Registry

end LinkedQueues

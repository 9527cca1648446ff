import LinkedQueues.Registry
import Mathlib.Logic.Function.Basic
import Mathlib.Tactic.Common

/-!
Registries as families of queues. A queue is owned by a name or shared under a number, and an
operation of a registry adds, moves or drops queues without looking into them. So it commutes with
`Registry.map`, and what it does to the family is an update at one or two owners.
-/
namespace LinkedQueues

variable {Q P : Type}

namespace Store

variable {κ ν μ : Type} [Ord κ] [Std.TransOrd κ]

def map (f : ν → μ) (s : Store κ ν) : Store κ μ := ⟨s.cells.map fun _ v => f v⟩

@[simp] theorem map_empty (f : ν → μ) : (empty : Store κ ν).map f = empty := by
  simp [map, empty]

theorem toList_map (f : ν → μ) (s : Store κ ν) :
    (s.map f).toList = s.toList.map fun c => (c.1, f c.2) := Std.ExtTreeMap.toList_map

variable [Std.LawfulEqOrd κ]

@[simp] theorem read_map (f : ν → μ) (s : Store κ ν) (k : κ) :
    (s.map f).read k = (s.read k).map f := by
  simp [map, read, Std.ExtTreeMap.getElem?_map]

theorem map_write (f : ν → μ) (s : Store κ ν) (k : κ) (o : Option ν) :
    (s.write k o).map f = (s.map f).write k (o.map f) := by
  classical
  apply ext_read
  intro l
  by_cases h : k = l <;> simp [read_write, h]

end Store

namespace Holding

def map (f : Q → P) : Holding Q → Holding P
  | owned q => owned (f q)
  | producer id => producer id
  | consumer id => consumer id

def queue? : Holding Q → Option Q
  | owned q => some q
  | producer _ | consumer _ => none

end Holding

def Shared.map (f : Q → P) (s : Shared Q) : Shared P := ⟨f s.queue, s.handles⟩

@[simp] theorem Shared.queue_map (f : Q → P) (s : Shared Q) : (s.map f).queue = f s.queue := rfl

@[simp] theorem Shared.handles_map (f : Q → P) (s : Shared Q) : (s.map f).handles = s.handles := rfl

namespace Registry

variable (f : Q → P) (r : Registry Q)

def map (r : Registry Q) : Registry P :=
  ⟨r.slots.map (Holding.map f), r.shared.map (Shared.map f), r.fresh⟩

@[simp] theorem map_empty : (empty : Registry Q).map f = empty := by simp [map, empty]

theorem map_map {R : Type} (g : P → R) :
    (r.map f).map g = r.map (g ∘ f) := by
  have hslot (h : Holding Q) : (h.map f).map g = h.map (g ∘ f) := by cases h <;> rfl
  have hslots : (r.slots.map (Holding.map f)).map (Holding.map g) =
      r.slots.map (Holding.map (g ∘ f)) := by
    refine Store.ext_read fun name => ?_
    cases hh : r.slots.read name <;> simp [hh, hslot]
  have hshared : (r.shared.map (Shared.map f)).map (Shared.map g) =
      r.shared.map (Shared.map (g ∘ f)) := by
    refine Store.ext_read fun id => ?_
    cases hs : r.shared.read id <;> simp [hs, Shared.map]
  rw [map, map, map, hslots, hshared]

@[simp] theorem holding?_map (name : String) :
    (r.map f).holding? name = (r.holding? name).map (Holding.map f) := by
  simp [holding?, map]

theorem producer_map_iff (name : String) (id : Nat) :
    (r.map f).holding? name = some (.producer id) ↔ r.holding? name = some (.producer id) := by
  rw [holding?_map]
  cases r.holding? name with
  | none => simp
  | some h => cases h <;> simp [Holding.map]

theorem consumer_map_iff (name : String) (id : Nat) :
    (r.map f).holding? name = some (.consumer id) ↔ r.holding? name = some (.consumer id) := by
  rw [holding?_map]
  cases r.holding? name with
  | none => simp
  | some h => cases h <;> simp [Holding.map]

@[simp] theorem read_shared_map (id : Nat) :
    (r.map f).shared.read id = (r.shared.read id).map (Shared.map f) := by
  simp [map]

theorem resolve?_map (h : Holding Q) : (r.map f).resolve? (h.map f) = (r.resolve? h).map f := by
  cases h with
  | owned q => rfl
  | producer id => cases hs : r.shared.read id <;> simp [Holding.map, resolve?, hs]
  | consumer id => cases hs : r.shared.read id <;> simp [Holding.map, resolve?, hs]

theorem queue?_map (name : String) : (r.map f).queue? name = (r.queue? name).map f := by
  rw [queue?, holding?_map, queue?]
  cases r.holding? name with
  | none => rfl
  | some h => exact resolve?_map f r h

theorem owned?_map (name : String) : (r.map f).owned? name = (r.owned? name).map f := by
  rw [owned?, holding?_map, owned?]
  cases r.holding? name with
  | none => rfl
  | some h => cases h <;> rfl

theorem producing?_map (name : String) (usable : P → Bool) :
    (r.map f).producing? name usable = (r.producing? name fun q => usable (f q)).map f := by
  rw [producing?, holding?_map, producing?]
  cases r.holding? name with
  | none => rfl
  | some h =>
    cases h with
    | owned q => cases hu : usable (f q) <;> simp [Holding.map, hu]
    | producer id => exact resolve?_map f r (.producer id)
    | consumer id => rfl

theorem consuming?_map (name : String) (usable : P → Bool) :
    (r.map f).consuming? name usable = (r.consuming? name fun q => usable (f q)).map f := by
  rw [consuming?, holding?_map, consuming?]
  cases r.holding? name with
  | none => rfl
  | some h =>
    cases h with
    | owned q => cases hu : usable (f q) <;> simp [Holding.map, hu]
    | producer id => rfl
    | consumer id => exact resolve?_map f r (.consumer id)

theorem setQueue_map (name : String) (q : Q) :
    (r.map f).setQueue name (f q) = (r.setQueue name q).map f := by
  have hs (id : Nat) (s : Shared Q) :
      { r.map f with
        shared := (r.map f).shared.write id (some ((⟨q, s.handles⟩ : Shared Q).map f)) } =
        { r with shared := r.shared.write id (some ⟨q, s.handles⟩) }.map f := by
    simp [map, Store.map_write]
  rw [setQueue, holding?_map, setQueue]
  cases r.holding? name with
  | none => rfl
  | some h =>
    cases h with
    | owned old => simp [Holding.map, map, Store.map_write]
    | producer id => cases hr : r.shared.read id <;> simp [Holding.map, hr, ← hs]; rfl
    | consumer id => cases hr : r.shared.read id <;> simp [Holding.map, hr, ← hs]; rfl

theorem vacate_map (name : String) : (r.map f).vacate name = (r.vacate name).map f := by
  simp [vacate, map, Store.map_write]

def mapChange (f : Q → P) (c : List Q × Registry Q) : List P × Registry P := (c.1.map f, c.2.map f)

theorem releaseHandle_map (id : Nat) :
    (r.map f).releaseHandle id = mapChange f (r.releaseHandle id) := by
  rw [releaseHandle, read_shared_map, releaseHandle]
  cases r.shared.read id with
  | none => rfl
  | some s => by_cases h : s.handles = 1 <;> simp [h, mapChange, map, Store.map_write, Shared.map]

theorem release_map (h : Holding Q) : (r.map f).release (h.map f) = mapChange f (r.release h) := by
  cases h with
  | owned q => rfl
  | producer id => exact releaseHandle_map f r id
  | consumer id => exact releaseHandle_map f r id

theorem place_map (name : String) (h : Holding Q) :
    (r.map f).place name (h.map f) = mapChange f (r.place name h) := by
  have hp : { r.map f with slots := (r.map f).slots.write name (some (h.map f)) } =
      { r with slots := r.slots.write name (some h) }.map f := by
    simp [map, Store.map_write]
  rw [place, hp, holding?_map, place]
  cases r.holding? name with
  | none => rfl
  | some old => exact release_map f _ old

theorem dispose_map (name : String) :
    (r.map f).dispose name = mapChange f (r.dispose name) := by
  rw [dispose, holding?_map, vacate_map, dispose]
  cases r.holding? name with
  | none => rfl
  | some h => exact release_map f _ h

/-- The queue `q` of a name comes to be shared, before its two handles have names. -/
def share (r : Registry Q) (name : String) (q : Q) : Registry Q :=
  { r.vacate name with shared := r.shared.write r.fresh (some ⟨q, 2⟩), fresh := r.fresh + 1 }

theorem split_eq (name : String) (q : Q) (producer consumer : String) :
    r.split name q producer consumer =
      let c := (r.share name q).place producer (.producer r.fresh)
      let d := c.2.place consumer (.consumer r.fresh)
      (c.1 ++ d.1, d.2) := rfl

theorem share_map (name : String) (q : Q) :
    (r.map f).share name (f q) = (r.share name q).map f := by
  simp [share, vacate, map, Store.map_write, Shared.map]

theorem split_map (name : String) (q : Q) (producer consumer : String) :
    (r.map f).split name (f q) producer consumer =
      mapChange f (r.split name q producer consumer) := by
  have hproducer := place_map f (r.share name q) producer (.producer r.fresh)
  have hconsumer := place_map f ((r.share name q).place producer (.producer r.fresh)).2 consumer
    (.consumer r.fresh)
  rw [← share_map] at hproducer
  simp only [mapChange] at hproducer hconsumer
  simp only [split_eq, mapChange, List.map_append]
  exact (congrArg (fun c => (c.1 ++ (place c.2 consumer (.consumer r.fresh)).1,
    (place c.2 consumer (.consumer r.fresh)).2)) hproducer).trans
    (congrArg (fun d : List P × Registry P => (_ ++ d.1, d.2)) hconsumer)

theorem clone_map (id : Nat) (into : String) :
    (r.map f).clone id into = mapChange f (r.clone id into) := by
  rw [clone, read_shared_map, clone]
  cases r.shared.read id with
  | none => rfl
  | some s =>
    have hs : { r.map f with
        shared := (r.map f).shared.write id (some ⟨f s.queue, s.handles + 1⟩) } =
          { r with shared := r.shared.write id (some ⟨s.queue, s.handles + 1⟩) }.map f := by
      simp [map, Store.map_write, Shared.map]
    simp only [Option.map_some, Shared.queue_map, Shared.handles_map, hs]
    exact place_map f _ into (.producer id)

theorem unshare_map (name : String) (id : Nat) (into : String) :
    (r.map f).unshare name id into = (r.unshare name id into).map (mapChange f) := by
  rw [unshare, read_shared_map, unshare]
  cases r.shared.read id with
  | none => rfl
  | some s =>
    have hs : { (r.map f).vacate name with shared := (r.map f).shared.write id none } =
        { r.vacate name with shared := r.shared.write id none }.map f := by
      simp [vacate, map, Store.map_write]
    by_cases h : s.handles = 1
    · simp only [Option.map_some, Shared.handles_map, if_pos h, hs]
      exact congrArg some (place_map f _ into (.owned s.queue))
    · simp [h]

end Registry

inductive Owner
  | name (name : String)
  | shared (id : Nat)
  deriving DecidableEq

namespace Registry

variable {r r' : Registry Q} {name into : String} {id : Nat} {o : Owner} {q : Q} {h : Holding Q}
  {usable : Q → Bool}

def at? (r : Registry Q) : Owner → Option Q
  | .name name => r.owned? name
  | .shared id => (r.shared.read id).map Shared.queue

def owner? (r : Registry Q) (name : String) : Option Owner :=
  (r.holding? name).map fun
    | .owned _ => .name name
    | .producer id | .consumer id => .shared id

theorem at?_map (f : Q → P) (r : Registry Q) (o : Owner) : (r.map f).at? o = (r.at? o).map f := by
  cases o with
  | name name => exact owned?_map f r name
  | shared id => exact resolve?_map f r (.producer id)

@[simp] theorem owner?_map (f : Q → P) (r : Registry Q) (name : String) :
    (r.map f).owner? name = r.owner? name := by
  rw [owner?, owner?, holding?_map]
  cases r.holding? name with
  | none => rfl
  | some h => cases h <;> rfl

theorem at?_empty (o : Owner) : (empty : Registry Q).at? o = none := by
  cases o <;> simp [at?, owned?, holding?, empty]

theorem owned?_eq_some : r.owned? name = some q ↔ r.holding? name = some (.owned q) := by
  rw [owned?]
  cases r.holding? name with
  | none => simp
  | some h => cases h <;> simp

theorem exists_owner (hq : r.queue? name = some q) :
    ∃ o, r.owner? name = some o ∧ r.at? o = some q := by
  rw [queue?, Option.bind_eq_some_iff] at hq
  rcases hq with ⟨h, hh, hq⟩
  cases h with
  | owned p =>
    obtain rfl : p = q := Option.some.inj hq
    exact ⟨.name name, by simp [owner?, hh], owned?_eq_some.mpr hh⟩
  | producer id => exact ⟨.shared id, by simp [owner?, hh], hq⟩
  | consumer id => exact ⟨.shared id, by simp [owner?, hh], hq⟩

theorem owner?_of_owned? (hq : r.owned? name = some q) : r.owner? name = some (.name name) := by
  rw [owner?, owned?_eq_some.mp hq]
  rfl

theorem queue?_of_owned? (hq : r.owned? name = some q) : r.queue? name = some q := by
  rw [queue?, owned?_eq_some.mp hq]
  rfl

theorem consuming?_of_owned? (hq : r.owned? name = some q) (hu : usable q = true) :
    r.consuming? name usable = some q := by
  rw [consuming?, owned?_eq_some.mp hq]
  exact if_pos hu

theorem queue?_of_producing? (hq : r.producing? name usable = some q) : r.queue? name = some q := by
  rw [producing?] at hq
  rw [queue?]
  cases hh : r.holding? name with
  | none => simp [hh] at hq
  | some h => cases h <;> simp_all [resolve?]

theorem queue?_of_consuming? (hq : r.consuming? name usable = some q) :
    r.queue? name = some q := by
  rw [consuming?] at hq
  rw [queue?]
  cases hh : r.holding? name with
  | none => simp [hh] at hq
  | some h => cases h <;> simp_all [resolve?]

def Within (X Y : Owner → Option Q) : Prop := ∀ o q, X o = some q → Y o = some q

namespace Within

variable {X Y Z : Owner → Option Q}

theorem refl (X : Owner → Option Q) : Within X X := fun _ _ h => h

theorem trans (h : Within X Y) (h' : Within Y Z) : Within X Z := fun o q hq => h' o q (h o q hq)

theorem update_none (X : Owner → Option Q) (o : Owner) : Within (Function.update X o none) X := by
  intro p q hq
  by_cases hp : p = o
  · simp [hp] at hq
  · simpa [hp] using hq

theorem update (h : Within X Y) (o : Owner) (a : Option Q) :
    Within (Function.update X o a) (Function.update Y o a) := by
  intro p q hq
  by_cases hp : p = o
  · subst hp
    simpa using hq
  · rw [Function.update_of_ne hp] at hq ⊢
    exact h p q hq

end Within

theorem at?_vacate (r : Registry Q) (name : String) :
    (r.vacate name).at? = Function.update r.at? (.name name) none := by
  funext o
  cases o with
  | name n =>
    by_cases hn : n = name
    · simp [at?, owned?, holding?, vacate, hn]
    · simp [at?, owned?, holding?, vacate, hn, Store.read_write_of_ne _ (Ne.symm hn)]
  | shared id => simp [at?, vacate]

theorem at?_write_slot (r : Registry Q) (name : String) (h : Holding Q) :
    at? { r with slots := r.slots.write name (some h) } =
      Function.update r.at? (.name name) h.queue? := by
  funext o
  cases o with
  | name n =>
    by_cases hn : n = name
    · subst hn
      cases h <;> simp [at?, owned?, holding?, Holding.queue?]
    · simp [at?, owned?, holding?, hn, Store.read_write_of_ne _ (Ne.symm hn)]
  | shared id => simp [at?]

theorem at?_write_shared (r : Registry Q) (id fresh : Nat) (s : Option (Shared Q)) :
    at? ⟨r.slots, r.shared.write id s, fresh⟩ =
      Function.update r.at? (.shared id) (s.map Shared.queue) := by
  funext o
  cases o with
  | name n => simp [at?, owned?, holding?]
  | shared k =>
    by_cases hk : k = id
    · subst hk
      simp [at?]
    · simp [at?, hk, Store.read_write_of_ne _ (Ne.symm hk)]

theorem at?_setQueue (ho : r.owner? name = some o) (hq : r.at? o = some q) (p : Q) :
    (r.setQueue name p).at? = Function.update r.at? o (some p) := by
  rw [owner?, Option.map_eq_some_iff] at ho
  rcases ho with ⟨h, hh, rfl⟩
  cases h with
  | owned p' =>
    simp only [setQueue, hh]
    exact at?_write_slot r name (.owned p)
  | producer id =>
    obtain ⟨s, hs, -⟩ := Option.map_eq_some_iff.mp hq
    simp only [setQueue, hh, hs]
    exact at?_write_shared r id r.fresh (some ⟨p, s.handles⟩)
  | consumer id =>
    obtain ⟨s, hs, -⟩ := Option.map_eq_some_iff.mp hq
    simp only [setQueue, hh, hs]
    exact at?_write_shared r id r.fresh (some ⟨p, s.handles⟩)

theorem releaseHandle_within (r : Registry Q) (id : Nat) :
    Within (r.releaseHandle id).2.at? r.at? := by
  cases hr : r.shared.read id with
  | none =>
    simp only [releaseHandle, hr]
    exact Within.refl _
  | some s =>
    by_cases h : s.handles = 1
    · simp only [releaseHandle, hr, if_pos h]
      rw [at?_write_shared]
      exact Within.update_none _ _
    · simp only [releaseHandle, hr, if_neg h]
      rw [at?_write_shared]
      have he : r.at? (.shared id) = some s.queue := by simp [at?, hr]
      rw [Option.map_some, ← he, Function.update_eq_self]
      exact Within.refl _

theorem release_within (r : Registry Q) (h : Holding Q) : Within (r.release h).2.at? r.at? := by
  cases h with
  | owned q => exact Within.refl _
  | producer id => exact releaseHandle_within r id
  | consumer id => exact releaseHandle_within r id

theorem place_within (r : Registry Q) (name : String) (h : Holding Q) :
    Within (r.place name h).2.at? (Function.update r.at? (.name name) h.queue?) := by
  rw [← at?_write_slot]
  cases hh : r.holding? name with
  | none =>
    simp only [place, hh]
    exact Within.refl _
  | some old =>
    simp only [place, hh]
    exact release_within _ old

theorem dispose_within (r : Registry Q) (name : String) : Within (r.dispose name).2.at? r.at? := by
  cases hh : r.holding? name with
  | none =>
    simp only [dispose, hh]
    exact Within.refl _
  | some h =>
    simp only [dispose, hh]
    apply (release_within _ h).trans
    rw [at?_vacate]
    exact Within.update_none _ _

theorem place_handle_within (hh : h.queue? = none) (r : Registry Q) (name : String) :
    Within (r.place name h).2.at? r.at? := by
  apply (place_within r name h).trans
  rw [hh]
  exact Within.update_none _ _

theorem at?_share (r : Registry Q) (name : String) (q : Q) : (r.share name q).at? =
    Function.update (Function.update r.at? (.name name) none) (.shared r.fresh) (some q) := by
  rw [← at?_vacate]
  exact at?_write_shared (r.vacate name) r.fresh _ (some ⟨q, 2⟩)

theorem split_within (r : Registry Q) (name : String) (q : Q) (producer consumer : String) :
    Within (r.split name q producer consumer).2.at?
      (Function.update (Function.update r.at? (.name name) none) (.shared r.fresh) (some q)) := by
  rw [split_eq, ← at?_share]
  exact (place_handle_within rfl _ consumer).trans (place_handle_within rfl _ producer)

theorem clone_within (r : Registry Q) (id : Nat) (into : String) :
    Within (r.clone id into).2.at? r.at? := by
  cases hr : r.shared.read id with
  | none =>
    simp only [clone, hr]
    exact Within.refl _
  | some s =>
    simp only [clone, hr]
    apply (place_handle_within rfl _ into).trans
    have he : r.at? (.shared id) = some s.queue := by simp [at?, hr]
    rw [at?_write_shared, Option.map_some, ← he, Function.update_eq_self]
    exact Within.refl _

theorem unshare_within {gone : List Q} (hu : r.unshare name id into = some (gone, r')) :
    ∃ q, r.at? (.shared id) = some q ∧ Within r'.at?
      (Function.update (Function.update r.at? (.shared id) none) (.name into) (some q)) := by
  rw [unshare] at hu
  cases hr : r.shared.read id with
  | none => simp [hr] at hu
  | some s =>
    by_cases h : s.handles = 1
    · simp only [hr, if_pos h, Option.some.injEq] at hu
      refine ⟨s.queue, by simp [at?, hr], ?_⟩
      rw [show r' = (place _ into (.owned s.queue)).2 from (congrArg Prod.snd hu).symm]
      refine (place_within _ into (.owned s.queue)).trans (Within.update ?_ _ _)
      refine at?_write_shared (r.vacate name) id _ none ▸ ?_
      rw [at?_vacate]
      exact (Within.update_none r.at? (.name name)).update _ _
    · simp [hr, h] at hu

theorem setQueue_of_owned? (hq : r.owned? name = some q) (p : Q) :
    r.setQueue name p = { r with slots := r.slots.write name (some (.owned p)) } := by
  rw [setQueue, owned?_eq_some.mp hq]

theorem owned?_setQueue (hq : r.owned? name = some q) (p : Q) :
    (r.setQueue name p).owned? name = some p := by
  rw [setQueue_of_owned? hq, owned?_eq_some]
  exact Store.read_write_self ..

theorem owned?_setQueue_of_ne (hq : r.owned? name = some q) (hn : name ≠ into) (p : Q) :
    (r.setQueue name p).owned? into = r.owned? into := by
  rw [setQueue_of_owned? hq, owned?, holding?, Store.read_write_of_ne _ hn]
  rfl

theorem vacate_setQueue (hq : r.owned? name = some q) (p : Q) :
    (r.setQueue name p).vacate name = r.vacate name := by
  have hslots : (r.slots.write name (some (.owned p))).write name none =
      r.slots.write name none := by
    refine Store.ext_read fun n => ?_
    by_cases hn : name = n
    · rw [← hn, Store.read_write_self, Store.read_write_self]
    · simp only [Store.read_write, if_neg hn]
  rw [setQueue_of_owned? hq, vacate, vacate, hslots]

theorem fresh_setQueue (r : Registry Q) (name : String) (q : Q) :
    (r.setQueue name q).fresh = r.fresh := by
  rw [setQueue]
  cases r.holding? name with
  | none => rfl
  | some h =>
    cases h with
    | owned p => rfl
    | producer id => cases hs : r.shared.read id <;> simp only [hs]
    | consumer id => cases hs : r.shared.read id <;> simp only [hs]

def queues (r : Registry Q) : List Q :=
  r.slots.toList.filterMap (fun s => s.2.queue?) ++ r.shared.toList.map fun s => s.2.queue

theorem queues_map (f : Q → P) (r : Registry Q) : (r.map f).queues = r.queues.map f := by
  have hslots : (fun c : String × Holding Q => (c.2.map f).queue?) = fun c => c.2.queue?.map f := by
    funext c
    cases c.2 <;> rfl
  simp only [queues, map, Store.toList_map, List.filterMap_map, List.map_map, List.map_append,
    List.map_filterMap]
  exact congrArg₂ _ (congrArg (List.filterMap · r.slots.toList) hslots) rfl

theorem names_map (f : Q → P) (r : Registry Q) : (r.map f).names = r.names := by
  rw [names, names, Store.keys, Store.keys, map, Store.toList_map, List.map_map]
  rfl

theorem mem_queues_iff : q ∈ r.queues ↔ ∃ o, r.at? o = some q := by
  rw [queues, List.mem_append]
  constructor
  · rintro (hm | hm)
    · obtain ⟨⟨name, h⟩, hs, hq⟩ := List.mem_filterMap.mp hm
      rw [Store.mem_toList_iff] at hs
      cases h with
      | owned p =>
        obtain rfl : p = q := Option.some.inj hq
        exact ⟨.name name, owned?_eq_some.mpr hs⟩
      | producer id => simp [Holding.queue?] at hq
      | consumer id => simp [Holding.queue?] at hq
    · obtain ⟨⟨id, s⟩, hs, rfl⟩ := List.mem_map.mp hm
      rw [Store.mem_toList_iff] at hs
      exact ⟨.shared id, by simp [at?, hs]⟩
  · rintro ⟨o, ho⟩
    cases o with
    | name name =>
      left
      refine List.mem_filterMap.mpr ⟨⟨name, .owned q⟩, ?_, rfl⟩
      exact (Store.mem_toList_iff ..).mpr (owned?_eq_some.mp ho)
    | shared id =>
      right
      obtain ⟨s, hs, rfl⟩ := Option.map_eq_some_iff.mp ho
      exact List.mem_map.mpr ⟨⟨id, s⟩, (Store.mem_toList_iff ..).mpr hs, rfl⟩

theorem queue?_setQueue (hq : r.queue? name = some q) (p : Q) :
    (r.setQueue name p).queue? name = some p := by
  rw [queue?, Option.bind_eq_some_iff] at hq
  obtain ⟨h, hh, hq⟩ := hq
  rw [holding?] at hh
  cases h with
  | owned d => simp [setQueue, queue?, holding?, resolve?, hh]
  | producer id =>
    obtain ⟨s, hs, -⟩ := Option.map_eq_some_iff.mp hq
    simp [setQueue, queue?, holding?, resolve?, hh, hs]
  | consumer id =>
    obtain ⟨s, hs, -⟩ := Option.map_eq_some_iff.mp hq
    simp [setQueue, queue?, holding?, resolve?, hh, hs]

theorem setQueue_self (hq : r.queue? name = some q) : r.setQueue name q = r := by
  rw [queue?, Option.bind_eq_some_iff] at hq
  obtain ⟨h, hh, hq⟩ := hq
  have hset (id : Nat) (hq : (r.shared.read id).map Shared.queue = some q) :
      ∃ s, r.shared.read id = some s ∧
        { r with shared := r.shared.write id (some { s with queue := q }) } = r := by
    obtain ⟨s, hs, rfl⟩ := Option.map_eq_some_iff.mp hq
    refine ⟨s, hs, ?_⟩
    show { r with shared := r.shared.write id (some s) } = r
    rw [← hs, Store.write_read_self]
  cases h with
  | owned p =>
    obtain rfl : p = q := Option.some.inj hq
    simp only [setQueue, hh]
    rw [← hh, holding?, Store.write_read_self]
  | producer id =>
    obtain ⟨s, hs, hw⟩ := hset id hq
    simpa only [setQueue, hh, hs] using hw
  | consumer id =>
    obtain ⟨s, hs, hw⟩ := hset id hq
    simpa only [setQueue, hh, hs] using hw

theorem map_congr {f g : Q → P} (hfg : ∀ q ∈ r.queues, f q = g q) : r.map f = r.map g := by
  have hslots : r.slots.map (Holding.map f) = r.slots.map (Holding.map g) := by
    refine Store.ext_read fun name => ?_
    rw [Store.read_map, Store.read_map]
    cases hh : r.slots.read name with
    | none => rfl
    | some h =>
      cases h with
      | owned q =>
        have hq := mem_queues_iff.mpr ⟨.name name, owned?_eq_some.mpr hh⟩
        rw [Option.map_some, Option.map_some, Holding.map, Holding.map, hfg q hq]
      | producer id => rfl
      | consumer id => rfl
  have hshared : r.shared.map (Shared.map f) = r.shared.map (Shared.map g) := by
    refine Store.ext_read fun id => ?_
    rw [Store.read_map, Store.read_map]
    cases hs : r.shared.read id with
    | none => rfl
    | some s =>
      have hq := mem_queues_iff.mpr ⟨.shared id, by rw [at?, hs, Option.map_some]⟩
      rw [Option.map_some, Option.map_some, Shared.map, Shared.map, hfg s.queue hq]
  rw [map, map, hslots, hshared]

theorem queue?_mem_queues (hq : r.queue? name = some q) : q ∈ r.queues := by
  obtain ⟨o, -, ho⟩ := exists_owner hq
  exact mem_queues_iff.mpr ⟨o, ho⟩

end Registry

end LinkedQueues

import LinkedQueues.Proofs.Registry.Book
import LinkedQueues.Proofs.Session.Ledger

/-!
The book of a session over caller-owned nodes. The accounts of the containers are just numbers, and
are kept from the commands and the answers alone.
-/
namespace LinkedQueues.Linked

def Command.post (b : Book Nat) : Command → Reply Nat → Book Nat
  | .create slot .., .done => b.place id slot
  | .take slot into, .done => b.take id slot into
  | .dispose slot, .done => b.dispose slot
  | .split slot producer consumer, .done => b.split slot producer consumer
  | .clone slot into, .done => b.clone slot into
  | .reclaim slot into, .flag true => b.reclaim slot into
  | .toMpmc slot into, .done => b.move slot into
  | _, _ => b

def postAll (b : Book Nat) : List Command → List (Answer Nat) → Book Nat
  | c :: cs, a :: as => postAll (c.post b a.reply) cs as
  | _, _ => b

structure Booked (b : Book Nat) (r : Registry Container) (b' : Book Nat) : Prop where
  covers : ∃ p, b'.Covers id p r
  passage : b.Passage id b'

namespace Booked

variable {p : Registry (Container × Nat)} {s : Session} {b b' : Book Nat} {slot into : String}
  {access : Access} {node : Nat} {r : Registry Container}
  {change : List Container × Registry Container} {new : List (Container × Nat)}
  {c : List (Container × Nat) × Registry (Container × Nat)}

theorem still (hc : b.Covers id p r) : Booked b r b := ⟨⟨p, hc⟩, .refl _ _⟩

theorem of_follows (hc : b.Covers id p r) (hf : Book.Follows id p b new c change b') :
    Booked b change.2 b' := ⟨⟨c.2, hf.covers hc⟩, hf.passage hc⟩

theorem refilled (hc : ∃ p, b.Covers id p r) : Booked b r b := by
  obtain ⟨p, hc⟩ := hc
  exact still hc

theorem push (hc : b.Covers id p s.registry) (slot : String) (node : Nat) (access : Access) :
    ∃ p', b.Covers id p' (s.push slot node access).2.registry := by
  rw [Session.push]
  by_cases hn : node < s.nodes
  · rw [if_pos hn]
    cases hq : s.producing? slot access with
    | none => exact ⟨p, hc⟩
    | some q => exact hc.refill (Registry.queue?_of_producing? hq) _
  · rw [if_neg hn]
    exact ⟨p, hc⟩

theorem pushRange (count first : Nat) (hc : b.Covers id p s.registry) :
    ∃ p', b.Covers id p' (Session.pushRange slot access count first s).2.registry := by
  induction count generalizing first s p with
  | zero => exact ⟨p, hc⟩
  | succ count ih =>
    obtain ⟨p', hc'⟩ := push hc slot first access
    rw [Session.pushRange]
    by_cases hd : (s.push slot first access).1.reply = .done
    · simp only [if_pos hd]
      exact ih (first + 1) hc'
    · simp only [if_neg hd]
      exact ⟨p', hc'⟩

theorem pop (hc : b.Covers id p s.registry) (slot : String) (access : Access) :
    ∃ p', b.Covers id p' (s.pop slot access).2.registry := by
  rw [Session.pop]
  cases hq : s.consuming? slot access with
  | none => exact ⟨p, hc⟩
  | some q => exact hc.refill (Registry.queue?_of_consuming? hq) _

theorem drain (limit : Nat) (hc : b.Covers id p s.registry) :
    ∃ p', b.Covers id p' (Session.drain slot access limit s).2.registry := by
  induction limit generalizing s p with
  | zero => exact ⟨p, hc⟩
  | succ limit ih =>
    obtain ⟨p', hc'⟩ := pop hc slot access
    rw [Session.drain]
    cases hr : (s.pop slot access).1.reply
    case item o =>
      cases o with
      | none => simpa only [hr] using ⟨p', hc'⟩
      | some n => simpa only [hr] using ih hc'
    all_goals simpa only [hr] using ⟨p', hc'⟩

theorem isEmpty (hc : b.Covers id p s.registry) : Booked b (s.isEmpty slot).2.registry b := by
  rw [Session.isEmpty]
  cases s.consuming? slot .direct <;> exact still hc

theorem query (hc : b.Covers id p s.registry) (o : Option (Reply Nat)) :
    Booked b (s.ofOption o).2.registry b := by
  cases o <;> exact still hc

theorem onNode (hc : b.Covers id p s.registry) (f : Heap → Reply Nat × Heap) :
    Booked b (s.onNode node f).2.registry b := by
  rw [Session.onNode]
  by_cases hn : node < s.nodes
  · rw [if_pos hn]
    exact still hc
  · rw [if_neg hn]
    exact still hc

theorem append {other : String} (hc : b.Covers id p s.registry) :
    ∃ p', b.Covers id p' (s.append slot other).2.registry := by
  rw [Session.append]
  by_cases hne : slot = other
  · rw [if_pos hne]
    exact ⟨p, hc⟩
  · rw [if_neg hne]
    split
    · next q t hq ht =>
      obtain ⟨p', hc'⟩ := hc.refill (Registry.queue?_of_owned? hq)
        (.chain (q.append t s.heap.links).1)
      refine hc'.refill (Registry.queue?_of_owned? (q := .chain t) ?_) _
      rw [Registry.owned?_setQueue_of_ne hq hne]
      exact ht
    · exact ⟨p, hc⟩

theorem create {kind : Container.Kind} {byDefault : Bool} {spinCount : Option Nat}
    (hc : b.Covers id p s.registry) :
    let o := s.create slot kind byDefault spinCount
    Booked b o.2.registry ((Command.create slot kind byDefault spinCount).post b o.1.reply) := by
  rw [Session.create]
  split
  · exact still hc
  · obtain ⟨c, hf⟩ := hc.place id (fun _ => rfl) slot
      (Container.create kind (spinCount.getD defaultSpinCount) s.heap).1
    exact of_follows hc hf

theorem take (hc : b.Covers id p s.registry) :
    let o := s.take slot into
    Booked b o.2.registry ((Command.take slot into).post b o.1.reply) := by
  rw [Session.take]
  cases hq : s.owned? slot with
  | none => exact still hc
  | some q =>
    obtain ⟨c, hf⟩ := hc.take id (fun _ => rfl) hq
      (Container.create q.kind defaultSpinCount s.heap).1 into
    exact of_follows hc hf

theorem dispose (hc : b.Covers id p s.registry) :
    let o := s.dispose slot
    Booked b o.2.registry ((Command.dispose slot).post b o.1.reply) := by
  rw [Session.dispose]
  cases s.registry.holding? slot with
  | none => exact still hc
  | some h =>
    obtain ⟨c, hf⟩ := hc.dispose slot
    exact of_follows hc hf

theorem split {producer consumer : String} (hc : b.Covers id p s.registry) :
    let o := s.split slot producer consumer
    Booked b o.2.registry ((Command.split slot producer consumer).post b o.1.reply) := by
  rw [Session.split]
  split
  · next q hq =>
    obtain ⟨c, hf⟩ := hc.split hq producer consumer
    exact of_follows hc hf
  · next q hq =>
    obtain ⟨c, hf⟩ := hc.split hq producer consumer
    exact of_follows hc hf
  · exact still hc

theorem clone (hc : b.Covers id p s.registry) :
    let o := s.clone slot into
    Booked b o.2.registry ((Command.clone slot into).post b o.1.reply) := by
  rw [Session.clone]
  split
  · next k hh =>
    obtain ⟨c, hf⟩ := hc.clone hh into
    split
    · exact of_follows hc hf
    · exact still hc
  · exact still hc

theorem convert {q : Container} (hc : b.Covers id p r) (hq : r.owned? slot = some q)
    (q' : Container) (into : String) :
    Booked b ((r.vacate slot).place into (.owned q')).2 (b.move slot into) := by
  obtain ⟨p', hc'⟩ := hc.refill (Registry.queue?_of_owned? hq) q'
  obtain ⟨c, hf⟩ := hc'.move (Registry.owned?_setQueue hq q') into
  rw [Registry.vacate_setQueue hq] at hf
  exact of_follows hc' hf

theorem toMpmc (hc : b.Covers id p s.registry) :
    let o := s.toMpmc slot into
    Booked b o.2.registry ((Command.toMpmc slot into).post b o.1.reply) := by
  rw [Session.toMpmc]
  split
  · next q hq => exact convert hc hq (.mpmc q defaultSpinCount) into
  · exact still hc

theorem reclaim (hc : b.Covers id p s.registry) :
    let o := s.reclaim slot into
    Booked b o.2.registry ((Command.reclaim slot into).post b o.1.reply) := by
  rw [Session.reclaim]
  split
  · next k hh =>
    cases hu : s.registry.unshare slot k into with
    | none => exact still hc
    | some change =>
      obtain ⟨c, hf⟩ := hc.reclaim hh hu
      exact of_follows hc hf
  · next q n hh =>
    have hq := Registry.owned?_eq_some.mpr hh
    obtain ⟨a, -, ha⟩ := hc.exists_owned hq
    have hmove : b.reclaim slot into = b.move slot into := by
      rw [Book.reclaim, Registry.owned?_eq_some.mp ha]
    show Booked b _ (b.reclaim slot into)
    rw [hmove]
    exact convert hc hq (.mpsc q) into
  · exact still hc

theorem step (hc : b.Covers id p s.registry) (c : Command) :
    Booked b (s.step c).2.registry (c.post b (s.step c).1.reply) := by
  cases c with
  | create slot kind byDefault spinCount => exact create hc
  | push slot node access => exact refilled (push hc slot node access)
  | pushRange slot first last access =>
    rw [Session.step]
    split
    · exact refilled (pushRange (last - first) first hc)
    · exact still hc
  | pop slot access => exact refilled (pop hc slot access)
  | drain slot limit access =>
    rw [Session.step]
    split
    · exact refilled (drain (limit.getD s.nodes) hc)
    · exact still hc
  | isEmpty slot => exact isEmpty hc
  | spinCount slot => exact query hc _
  | isLockFree kind => exact query hc _
  | top slot => exact query hc _
  | describe slot onLines => exact query hc _
  | take slot into => exact take hc
  | append slot other => exact refilled (append hc)
  | dispose slot => exact dispose hc
  | split slot producer consumer => exact split hc
  | clone slot into => exact clone hc
  | reclaim slot into => exact reclaim hc
  | toMpmc slot into => exact toMpmc hc
  | clear node => exact onNode hc _
  | clearStamp node => exact onNode hc _
  | isLinked node => exact onNode hc _
  | stamp node => exact onNode hc _
  | describeHook node onLines => exact onNode hc _
  | describeStampHook node onLines => exact onNode hc _

/-- The book covers the containers all along. -/
theorem run (hc : b.Covers id p s.registry) (cs : List Command) :
    ∃ p', (postAll b cs (s.run cs).1).Covers id p' (s.run cs).2.registry := by
  induction cs generalizing p s b with
  | nil => exact ⟨p, hc⟩
  | cons c cs ih =>
    obtain ⟨p', hc'⟩ := (step hc c).covers
    exact ih hc'

end Booked

end LinkedQueues.Linked

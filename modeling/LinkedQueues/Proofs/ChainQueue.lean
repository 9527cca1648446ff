import LinkedQueues.ChainQueue
import LinkedQueues.Proofs.Trail
import Mathlib.Tactic.Common

/-!
The intrusive containers of a single thread hold lists of nodes: the links lead from the first node
to the last one, which leads nowhere.
-/
namespace LinkedQueues

variable {m m' : Links} {ns ms : List Nat} {n : Nat}

namespace ChainQueue

variable {q p : ChainQueue}

/-- The queue holds exactly the nodes `ns`, the oldest first. -/
structure Holds (q : ChainQueue) (m : Links) (ns : List Nat) : Prop where
  trail : Trail m.read q.head (ns.map .node) none
  last : q.tail = (ns.map Cell.node).getLast?

namespace Holds

theorem empty (m : Links) : ChainQueue.empty.Holds m [] := ⟨rfl, rfl⟩

theorem congr (h : q.Holds m ns) (hn : ∀ n ∈ ns, m'.read (.node n) = m.read (.node n)) :
    q.Holds m' ns := by
  refine ⟨h.trail.congr fun c hc => ?_, h.last⟩
  obtain ⟨n, hm, rfl⟩ := List.mem_map.mp hc
  exact hn n hm

theorem isEmpty_iff (h : q.Holds m ns) : q.isEmpty = true ↔ ns = [] := by
  rw [isEmpty, h.trail.start_eq]
  cases ns <;> simp

theorem tail_mem (h : q.Holds m ns) {t : Cell} (ht : q.tail = some t) : t ∈ ns.map Cell.node :=
  List.mem_of_getLast? (h.last ▸ ht)

theorem attach (h : q.Holds m ns) {c : Cell} (hc : Trail m.read (some c) (ms.map .node) none)
    (hd : ns.Disjoint ms) :
    Holds ⟨(q.attach m c).1, (ms.map Cell.node).getLast?⟩ (q.attach m c).2 (ns ++ ms) ∧
      ∀ d, d ∉ ns.map Cell.node → (q.attach m c).2.read d = m.read d := by
  have hms : ms ≠ [] := by
    rintro rfl
    simp at hc
  have hlast : ((ns ++ ms).map Cell.node).getLast? = (ms.map Cell.node).getLast? := by
    obtain ⟨front, k, rfl⟩ := (List.eq_nil_or_concat ms).resolve_left hms
    simp
  cases ht : q.tail with
  | none =>
    have hns : ns = [] := by simpa [ht] using h.last.symm
    subst hns
    exact ⟨⟨by simpa [ChainQueue.attach, ht] using hc, hlast.symm⟩, by simp [ChainQueue.attach, ht]⟩
  | some t =>
    have hm := h.tail_mem ht
    have htms : t ∉ ms.map Cell.node := by
      intro htm
      obtain ⟨k, hk, rfl⟩ := List.mem_map.mp hm
      exact hd hk (by simpa using htm)
    refine ⟨⟨?_, hlast.symm⟩, fun d hdn => ?_⟩
    · have hc' : Trail (m.join t c).read (some c) (ms.map .node) none :=
        hc.congr fun d hdm => by
          have htd : t ≠ d := fun he => htms (he ▸ hdm)
          simp [htd]
      have ht' : Trail (m.join t c).read q.head (ns.map .node ++ ms.map .node) none :=
        h.trail.extend (h.last ▸ ht) (fun k _ hk => by simp [Ne.symm hk]) (by simpa using hc')
      simpa [ChainQueue.attach, ht] using ht'
    · have htd : t ≠ d := fun he => hdn (he ▸ hm)
      simp [ChainQueue.attach, ht, htd]

theorem push (h : q.Holds m ns) (hn : n ∉ ns) (hl : m.isLinked (.node n) = false) : ∃ q' m',
    q.push m (.node n) = .ok (q', m') ∧ q'.Holds m' (ns ++ [n]) ∧
      ∀ c, c ∉ (ns ++ [n]).map Cell.node → m'.read c = m.read c := by
  have ht : q.tail ≠ some (.node n) := fun ht => hn (by simpa using h.tail_mem ht)
  have hc : Trail (m.clear (.node n)).read (some (.node n)) ([n].map .node) none := by simp
  have h' : q.Holds (m.clear (.node n)) ns := h.congr fun k hk => by
    have hkn : n ≠ k := fun he => hn (he ▸ hk)
    simp [hkn]
  obtain ⟨ha, hs⟩ := h'.attach hc (by simpa using hn)
  refine ⟨_, _, ?_, ha, fun c hcn => ?_⟩
  · simp [ChainQueue.push, ht, hl]
  · rw [List.map_append, List.mem_append, not_or] at hcn
    rw [hs c hcn.1]
    have hnc : Cell.node n ≠ c := by
      rintro rfl
      simp at hcn
    simp [hnc]

/-- A pop clears the link of the node that it takes, and writes no other. -/
theorem pop (h : q.Holds m ns) : ∃ q' m',
    q.pop m = (ns.head?.map .node, q', m') ∧ q'.Holds m' ns.tail ∧
      ∀ c, c ∉ ns.map Cell.node → m'.read c = m.read c := by
  cases ns with
  | nil =>
    have hh : q.head = none := h.trail
    exact ⟨q, m, by simp [ChainQueue.pop, hh], h, fun _ _ => rfl⟩
  | cons n ns =>
    have hd := List.nodup_cons.mp h.trail.nodup
    obtain ⟨hh, ht⟩ := h.trail
    have hsame (c : Cell) (hc : c ∉ (n :: ns).map Cell.node) :
        (m.clear (.node n)).read c = m.read c := by
      have hnc : Cell.node n ≠ c := by
        rintro rfl
        simp at hc
      simp [hnc]
    have ht' : Trail (m.clear (.node n)).read (m.read (.node n)) (ns.map .node) none :=
      ht.congr fun c hc => by
        have hnc : Cell.node n ≠ c := fun he => hd.1 (he ▸ hc)
        simp [hnc]
    cases hr : m.read (.node n) with
    | none =>
      have hns : ns = [] := by simpa [hr] using ht.start_eq.symm
      subst hns
      exact ⟨.empty, _, by simp [ChainQueue.pop, hh, hr], .empty _, hsame⟩
    | some d =>
      have hl := h.last
      cases ns with
      | nil => simp [hr] at ht
      | cons k ns =>
        rw [List.map_cons, List.map_cons, List.getLast?_cons_cons] at hl
        exact ⟨{ q with head := some d }, _, by simp [ChainQueue.pop, hh, hr],
          ⟨hr ▸ ht', hl⟩, hsame⟩

theorem append (h : q.Holds m ns) (hp : p.Holds m ms) (hd : ns.Disjoint ms) : ∃ q' m',
    q.append p m = (q', .empty, m') ∧ q'.Holds m' (ns ++ ms) ∧
      ∀ c, c ∉ ns.map Cell.node → m'.read c = m.read c := by
  cases hh : p.head with
  | none =>
    obtain rfl : ms = [] := by simpa [hh] using hp.trail.start_eq.symm
    have he : p = .empty := by
      cases p
      simpa [ChainQueue.empty, hh] using ⟨hh, hp.last⟩
    exact ⟨q, m, by simp [ChainQueue.append, he, ChainQueue.empty], by simpa using h,
      fun _ _ => rfl⟩
  | some c =>
    obtain ⟨ha, hs⟩ := h.attach (hh ▸ hp.trail) hd
    rw [← hp.last] at ha
    exact ⟨_, _, by simp only [ChainQueue.append, hh], ha, hs⟩

end Holds

end ChainQueue

namespace ChainStack

variable {s : ChainStack}

/-- The stack holds exactly the nodes `ns`, the newest first. -/
def Holds (s : ChainStack) (m : Links) (ns : List Nat) : Prop :=
  Trail m.read s.top (ns.map .node) none

namespace Holds

theorem empty (m : Links) : ChainStack.empty.Holds m [] := rfl

theorem congr (h : s.Holds m ns) (hn : ∀ n ∈ ns, m'.read (.node n) = m.read (.node n)) :
    s.Holds m' ns := by
  apply Trail.congr h
  intro c hc
  obtain ⟨n, hm, rfl⟩ := List.mem_map.mp hc
  exact hn n hm

theorem top_eq (h : s.Holds m ns) : s.top = ns.head?.map .node := by
  rw [Trail.start_eq h, List.head?_map]

theorem isEmpty_iff (h : s.Holds m ns) : s.isEmpty = true ↔ ns = [] := by
  rw [isEmpty, h.top_eq]
  cases ns <;> simp

theorem top_ne (h : s.Holds m ns) (hn : n ∉ ns) : s.top ≠ some (.node n) := by
  rw [h.top_eq]
  intro he
  exact hn (List.mem_of_head? (by simpa using he))

theorem push (h : s.Holds m ns) (hn : n ∉ ns) : ∃ s' m',
    s.push m (.node n) = .ok (s', m') ∧ s'.Holds m' (n :: ns) ∧
      ∀ c, c ≠ .node n → m'.read c = m.read c := by
  have ht := h.top_ne hn
  have hsame (c : Cell) (hc : c ≠ .node n) : (m.write (.node n) s.top).read c = m.read c :=
    m.read_write_of_ne (Ne.symm hc) s.top
  refine ⟨_, _, by simp [ChainStack.push, ht], ⟨rfl, ?_⟩, hsame⟩
  rw [Store.read_write_self]
  exact h.congr fun k hk => hsame _ fun he => hn (by cases he; exact hk)

theorem pop (h : s.Holds m ns) : ∃ s' m',
    s.pop m = (ns.head?.map .node, s', m') ∧ s'.Holds m' ns.tail ∧
      ∀ c, c ∉ ns.map Cell.node → m'.read c = m.read c := by
  cases ns with
  | nil =>
    have ht : s.top = none := h
    exact ⟨s, m, by simp [ChainStack.pop, ht], h, fun _ _ => rfl⟩
  | cons n ns =>
    have hd := (List.nodup_cons.mp (Trail.nodup h)).1
    rcases h with ⟨ht, hr⟩
    refine ⟨⟨m.read (.node n)⟩, m.clear (.node n), by simp [ChainStack.pop, ht],
      hr.congr fun c hc => ?_, fun c hc => ?_⟩
    · have hnc : Cell.node n ≠ c := fun he => hd (he ▸ hc)
      simp [hnc]
    · have hnc : Cell.node n ≠ c := by
        rintro rfl
        simp at hc
      simp [hnc]

end Holds

end ChainStack

end LinkedQueues

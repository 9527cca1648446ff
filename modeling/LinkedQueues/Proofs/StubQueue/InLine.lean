import LinkedQueues.Proofs.Trail
import LinkedQueues.StubQueue
import Mathlib.Logic.Function.Basic

/-!
The cells in line at a stub queue, from the head to the tail. The successor of a cell is known from
the first half of a push on, before the link that leads to it is stored. A line follows the links
and the successors that are late.
-/
namespace LinkedQueues.StubQueue

/-- From the head on, `succ` passes the cells `cs`, of which the tail is the last. -/
structure InLine (q : StubQueue) (succ : Cell → Option Cell) (cs : List Cell) : Prop where
  trail : Trail succ (some q.head) cs none
  last : cs.getLast? = some q.tail

namespace InLine

variable {q : StubQueue} {succ succ' : Cell → Option Cell} {cs : List Cell} {a b c : Cell}

theorem nodup (h : InLine q succ cs) : cs.Nodup := h.trail.nodup

theorem tail_mem (h : InLine q succ cs) : q.tail ∈ cs := List.mem_of_getLast? h.last

theorem eq_cons (h : InLine q succ cs) : ∃ rest, cs = q.head :: rest := by
  obtain ⟨rest, hr⟩ := List.head?_eq_some_iff.mp h.trail.start_eq.symm
  exact ⟨rest, hr⟩

theorem empty (stub : Cell) (h : succ stub = none) : InLine (.empty stub) succ [stub] :=
  ⟨⟨rfl, h⟩, rfl⟩

theorem congr (h : InLine q succ cs) (same : ∀ c ∈ cs, succ' c = succ c) : InLine q succ' cs :=
  ⟨h.trail.congr same, h.last⟩

theorem succ_tail (h : InLine q succ cs) : succ q.tail = none := by
  obtain ⟨front, rfl⟩ := List.getLast?_eq_some_iff.mp h.last
  obtain ⟨d, -, -, hn⟩ := Trail.append_iff.mp h.trail
  exact hn

theorem head_eq_tail_iff (h : InLine q succ cs) : q.head = q.tail ↔ cs = [q.head] := by
  obtain ⟨rest, rfl⟩ := h.eq_cons
  have hd := h.nodup
  have hl := h.last
  cases rest with
  | nil => simpa using hl
  | cons d rest =>
    rw [List.getLast?_cons_cons] at hl
    have hm : q.tail ∈ d :: rest := List.mem_of_getLast? hl
    constructor
    · intro he
      exact absurd (he ▸ hm) (List.nodup_cons.mp hd).1
    · intro he
      simp at he

theorem announce (h : InLine q succ cs) (same : ∀ d ∈ cs, d ≠ q.tail → succ' d = succ d)
    (ht : succ' q.tail = some c) (hn : succ' c = none) :
    InLine { q with tail := c } succ' (cs ++ [c]) :=
  ⟨h.trail.snoc h.last same ht hn, by simp⟩

theorem advance (h : InLine q succ (a :: b :: cs)) : InLine (q.advance b) succ (b :: cs) :=
  ⟨⟨rfl, h.trail.2.2⟩, by rw [← List.getLast?_cons_cons]; exact h.last⟩

theorem head_eq (h : InLine q succ (a :: cs)) : q.head = a := Option.some.inj h.trail.1

theorem succ_head (h : InLine q succ (a :: cs)) : succ a = cs.head? := h.trail.2.start_eq

theorem exists_of_succ_head (h : InLine q succ cs) (hs : succ q.head = some b) :
    ∃ rest, cs = q.head :: b :: rest := by
  obtain ⟨rest, rfl⟩ := h.eq_cons
  rw [h.succ_head] at hs
  obtain ⟨rest, rfl⟩ := List.head?_eq_some_iff.mp hs
  exact ⟨rest, rfl⟩

end InLine

def waiting (stub : Cell) (cs : List Cell) : List Cell := cs.filter (· ≠ stub)

section Waiting

variable {stub c : Cell} {cs ds : List Cell}

@[simp] theorem waiting_nil : waiting stub [] = [] := rfl

@[simp] theorem waiting_cons_stub : waiting stub (stub :: cs) = waiting stub cs := by
  simp [waiting]

theorem waiting_cons (h : c ≠ stub) : waiting stub (c :: cs) = c :: waiting stub cs := by
  simp [waiting, h]

@[simp] theorem waiting_append : waiting stub (cs ++ ds) = waiting stub cs ++ waiting stub ds :=
  List.filter_append cs ds

theorem mem_waiting : c ∈ waiting stub cs ↔ c ∈ cs ∧ c ≠ stub := by simp [waiting]

theorem waiting_eq_self {stub : Cell} (h : stub ∉ cs) : waiting stub cs = cs := by
  apply List.filter_eq_self.mpr
  intro c hc
  exact decide_eq_true fun he => h (he ▸ hc)

end Waiting

/-- The cells `cs` are in line by the links and by `late`, which has those still to be stored. -/
structure LateLine (q : StubQueue) (m : Links) (late : Cell → Option Cell) (cs : List Cell) :
    Prop where
  inLine : q.InLine (fun c => (m.read c).or (late c)) cs
  missing : ∀ a b, late a = some b → m.read a = none ∧ a ∈ cs

namespace LateLine

variable {q : StubQueue} {m : Links} {late : Cell → Option Cell} {cs : List Cell} {a b c : Cell}

theorem late_of_notMem (h : LateLine q m late cs) (ha : a ∉ cs) : late a = none := by
  cases hl : late a with
  | none => rfl
  | some b => exact absurd (h.missing a b hl).2 ha

theorem tail_none (h : LateLine q m late cs) : m.read q.tail = none ∧ late q.tail = none := by
  have ht := h.inLine.succ_tail
  exact ⟨(Option.or_eq_none_iff.mp ht).1, (Option.or_eq_none_iff.mp ht).2⟩

/-- A cell from outside becomes the tail, and the link to it is late. -/
theorem announce (h : LateLine q m late cs) (hc : c ∉ cs) :
    LateLine { q with tail := c } (m.clear c) (Function.update late q.tail (some c))
      (cs ++ [c]) := by
  have htc : q.tail ≠ c := fun he => hc (he ▸ h.inLine.tail_mem)
  refine ⟨h.inLine.announce (fun d hd hdt => ?_) ?_ ?_, fun x y hxy => ?_⟩
  · have hcd : c ≠ d := fun he => hc (he ▸ hd)
    simp [hcd, hdt]
  · simp [htc.symm, h.tail_none.1]
  · simp [Function.update_of_ne htc.symm, h.late_of_notMem hc]
  · by_cases hx : x = q.tail
    · subst hx
      exact ⟨by simp [h.tail_none.1], by simp [h.inLine.tail_mem]⟩
    · rw [Function.update_of_ne hx] at hxy
      obtain ⟨hr, hm⟩ := h.missing x y hxy
      exact ⟨by simp [hr], by simp [hm]⟩

theorem join (h : LateLine q m late cs) (ha : late a = some b) :
    LateLine q (m.join a b) (Function.update late a none) cs := by
  refine ⟨h.inLine.congr fun d _ => ?_, fun x y hxy => ?_⟩
  · by_cases hd : d = a
    · subst hd
      simp [ha, (h.missing d b ha).1]
    · simp [Ne.symm hd, Function.update_of_ne hd]
  · have hx : x ≠ a := by
      rintro rfl
      simp at hxy
    rw [Function.update_of_ne hx] at hxy
    simpa [Ne.symm hx] using h.missing x y hxy

theorem advance (h : LateLine q m late cs) (hb : m.read q.head = some b) :
    ∃ rest, cs = q.head :: b :: rest ∧ LateLine (q.advance b) m late (b :: rest) := by
  obtain ⟨rest, rfl⟩ := h.inLine.exists_of_succ_head (b := b) (by simp [hb])
  refine ⟨rest, rfl, h.inLine.advance, fun x y hxy => ?_⟩
  obtain ⟨hr, hm⟩ := h.missing x y hxy
  have hx : x ≠ q.head := by
    rintro rfl
    simp [hb] at hr
  exact ⟨hr, (List.mem_cons.mp hm).resolve_left hx⟩

end LateLine

end LinkedQueues.StubQueue

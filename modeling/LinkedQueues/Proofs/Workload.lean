import LinkedQueues.Proofs.Container
import LinkedQueues.Proofs.ValueQueue
import LinkedQueues.Workload

/-!
What a workload comes to. Every kind of queue hands the items out in the order in which they were
pushed, and so the tally is the same for all of them: nothing is lost, nothing comes twice, and each
consumer sees the items of each producer in order.
-/
namespace LinkedQueues.Workload

variable {σ : Type} {w : Workload} {ch : Channel σ} {holds : σ → List Nat → List Nat → Prop}
  {pushed waiting : List Nat} {s : σ} {r : Run σ} {index n : Nat}

/-- A state may hold `waiting` after `pushed` went in. The channel pops what waits from front to
back, and takes new items as long as there are stamps for them. -/
structure Channel.Fifo (ch : Channel σ) (holds : σ → List Nat → List Nat → Prop) : Prop where
  push : ∀ s pushed waiting n, holds s pushed waiting → n ∉ waiting →
    pushed.length + 1 < UInt32.size → holds (ch.push s n) (pushed ++ [n]) (waiting ++ [n])
  pop : ∀ s pushed waiting, holds s pushed waiting →
    (ch.pop s).1 = waiting.head? ∧ holds (ch.pop s).2 pushed waiting.tail

def containerHolds (k : Container.Kind) (s : Container × Heap) (pushed waiting : List Nat) : Prop :=
  ∃ e : Entry, e.container = s.1 ∧ e.Holds s.2 ∧ e.roster.kind = k ∧ e.roster.pushed = pushed ∧
    e.roster.waiting = waiting

theorem containerHolds_create (k : Container.Kind) (spinCount : Nat) :
    containerHolds k (Container.create k spinCount .empty) [] [] := by
  obtain ⟨e, h, hcreate, hmade⟩ := Entry.exists_create k spinCount .empty
  rw [hcreate]
  exact ⟨e, rfl, hmade.holds, by rw [hmade.roster], by rw [hmade.roster], by rw [hmade.roster]⟩

theorem containerChannel_fifo {k : Container.Kind} (hchain : k ≠ .chain) (hstack : k ≠ .stack) :
    containerChannel.Fifo (containerHolds k) := by
  refine ⟨fun s pushed waiting n hs hn hlen => ?_, fun s pushed waiting hs => ?_⟩
  · obtain ⟨e, hc, he, rfl, rfl, rfl⟩ := hs
    obtain ⟨e', h', hp, hr, ho⟩ := he.push hn (fun hk => absurd hk hchain) fun _ => hlen
    have hpush : containerChannel.push s n = (e'.container, h') := by
      show (s.1.push s.2 n).2 = _
      rw [← hc, hp]
    rw [hpush]
    refine ⟨e', rfl, ho.holds, by rw [hr, Roster.push], by rw [hr, Roster.push], ?_⟩
    rw [hr, Roster.push, if_neg hstack]
  · obtain ⟨e, hc, he, rfl, rfl, rfl⟩ := hs
    obtain ⟨e', h', hp, hr, ho⟩ := he.pop
    have hpop : containerChannel.pop s = (e.roster.waiting.head?, e'.container, h') := by
      show ((s.1.pop s.2).1.item?, (s.1.pop s.2).2) = _
      rw [← hc, hp, Popped.item?_ofOption]
    rw [hpop]
    exact ⟨rfl, e', rfl, ho.holds, by rw [hr, Roster.pop], by rw [hr, Roster.pop],
      by rw [hr, Roster.pop]⟩

theorem queueChannel_fifo : queueChannel.Fifo fun q _ waiting => q.Holds waiting := by
  refine ⟨fun q pushed waiting n hq _ _ => ?_, fun q pushed waiting hq => hq.pop⟩
  rcases hq.push n true with ⟨hf, -⟩ | ⟨-, hq'⟩
  · have hno := ((hq.push_failed_iff n true).mp hf).2
    cases hno
  · exact hq'

def Run.Serves (holds : σ → List Nat → List Nat → Prop) (r : Run σ) (pushed : List Nat) : Prop :=
  ∃ waiting, holds r.state pushed waiting ∧ pushed = (r.log.reverse.map Prod.snd) ++ waiting

namespace Run.Serves

theorem length_le (hr : r.Serves holds pushed) : r.log.length ≤ pushed.length := by
  obtain ⟨waiting, -, rfl⟩ := hr
  simp

theorem popBy (hf : ch.Fifo holds) (hr : r.Serves holds pushed) (consumer : Nat) :
    (popBy ch r consumer).Serves holds pushed ∧
      (popBy ch r consumer).log.length = min (r.log.length + 1) pushed.length := by
  obtain ⟨waiting, hs, he⟩ := hr
  obtain ⟨hpop, hs'⟩ := hf.pop _ _ _ hs
  rw [Workload.popBy]
  have hlen := congrArg List.length he
  simp only [List.length_append, List.length_map, List.length_reverse] at hlen
  cases waiting with
  | nil =>
    have hstate : ch.pop r.state = (none, (ch.pop r.state).2) := Prod.ext hpop rfl
    rw [hstate]
    refine ⟨⟨[], hs', he⟩, ?_⟩
    simp only [List.length_nil] at hlen
    show r.log.length = _
    omega
  | cons item waiting =>
    have hstate : ch.pop r.state = (some item, (ch.pop r.state).2) := Prod.ext hpop rfl
    rw [hstate]
    refine ⟨⟨waiting, hs', by simpa using he⟩, ?_⟩
    simp only [List.length_cons] at hlen ⊢
    omega

theorem popEach (hf : ch.Fifo holds) (hr : r.Serves holds pushed) (consumers : List Nat) :
    (consumers.foldl (Workload.popBy ch) r).Serves holds pushed ∧
      (consumers.foldl (Workload.popBy ch) r).log.length =
        min (r.log.length + consumers.length) pushed.length := by
  induction consumers generalizing r with
  | nil => exact ⟨hr, (Nat.min_eq_left hr.length_le).symm⟩
  | cons c cs ih =>
    obtain ⟨hone, hlen⟩ := hr.popBy hf c
    obtain ⟨hall, hlen'⟩ := ih hone
    refine ⟨hall, ?_⟩
    rw [List.foldl_cons, hlen', hlen, List.length_cons]
    omega

theorem pushEach (hf : ch.Fifo holds) (hr : r.Serves holds pushed) (items : List Nat)
    (hn : (pushed ++ items).Nodup) (hlen : (pushed ++ items).length < UInt32.size) :
    Serves holds { r with state := items.foldl ch.push r.state } (pushed ++ items) := by
  induction items generalizing r pushed with
  | nil => simpa using hr
  | cons item items ih =>
    obtain ⟨waiting, hs, he⟩ := hr
    rw [List.append_cons] at hn hlen ⊢
    have hfresh : item ∉ waiting := fun hm => by
      have hd := (List.nodup_append.mp (List.nodup_append.mp hn).1).2.2
      exact hd item (he ▸ List.mem_append_right _ hm) item (List.mem_singleton_self item) rfl
    have hone : pushed.length + 1 < UInt32.size := by
      simp only [List.length_append, List.length_singleton] at hlen
      omega
    exact ih (r := { r with state := ch.push r.state item })
      ⟨waiting ++ [item], hf.push _ _ _ _ hs hfresh hone, by rw [he, List.append_assoc]⟩ hn hlen

end Run.Serves

def turn (w : Workload) (index : Nat) : List Nat :=
  (List.range w.producers).map fun p => w.number p index

/-- The items that are pushed in the first `n` rounds, in order. -/
def schedule (w : Workload) (n : Nat) : List Nat := (List.range n).flatMap w.turn

theorem schedule_succ (w : Workload) (n : Nat) :
    w.schedule (n + 1) = w.schedule n ++ w.turn n := by
  simp [schedule, List.range_succ]

theorem length_schedule (w : Workload) (n : Nat) : (w.schedule n).length = n * w.producers := by
  induction n with
  | zero => rw [Nat.zero_mul]; rfl
  | succ n ih => rw [schedule_succ, List.length_append, ih, Nat.succ_mul]; simp [turn]

theorem origin_number (hi : index < w.items) (p : Nat) :
    w.number p index / w.items = p ∧ w.number p index % w.items = index := by
  have hpos : 0 < w.items := Nat.zero_lt_of_lt hi
  rw [number, Nat.mul_comm]
  exact ⟨by rw [Nat.mul_add_div hpos, Nat.div_eq_of_lt hi, Nat.add_zero],
    by rw [Nat.mul_add_mod, Nat.mod_eq_of_lt hi]⟩

/-- No item comes twice, and those of one producer come in ascending order. -/
theorem pairwise_schedule (w : Workload) (hn : n ≤ w.items) :
    (w.schedule n).Pairwise fun a b => a ≠ b ∧ (a / w.items = b / w.items → a < b) := by
  rw [schedule, List.pairwise_flatMap]
  refine ⟨fun i hi => ?_, ?_⟩
  · have hi' : i < w.items := Nat.lt_of_lt_of_le (List.mem_range.mp hi) hn
    rw [turn, List.pairwise_map]
    refine List.pairwise_lt_range.imp fun {p p'} hp => ?_
    have hdiv : w.number p i / w.items ≠ w.number p' i / w.items := by
      rw [(origin_number hi' p).1, (origin_number hi' p').1]
      exact Nat.ne_of_lt hp
    exact ⟨fun he => hdiv (by rw [he]), fun he => absurd he hdiv⟩
  · refine List.pairwise_lt_range.imp_of_mem fun {i j} hi hj hij x hx y hy => ?_
    obtain ⟨p, -, rfl⟩ := List.mem_map.mp hx
    obtain ⟨p', -, rfl⟩ := List.mem_map.mp hy
    obtain ⟨hx, hx'⟩ := origin_number (Nat.lt_of_lt_of_le (List.mem_range.mp hi) hn) p
    obtain ⟨hy, hy'⟩ := origin_number (Nat.lt_of_lt_of_le (List.mem_range.mp hj) hn) p'
    refine ⟨fun he => ?_, fun he => ?_⟩
    · rw [he, hy'] at hx'
      omega
    · rw [hx, hy] at he
      rw [he, number, number]
      omega

theorem nodup_schedule (w : Workload) (hn : n ≤ w.items) : (w.schedule n).Nodup :=
  (w.pairwise_schedule hn).imp And.left

theorem mem_schedule {item : Nat} : item ∈ w.schedule w.items ↔ item < w.total := by
  simp only [schedule, turn, List.mem_flatMap, List.mem_map, List.mem_range, total]
  constructor
  · rintro ⟨i, hi, p, hp, rfl⟩
    calc p * w.items + i
      _ < (p + 1) * w.items := by rw [Nat.succ_mul]; omega
      _ ≤ w.producers * w.items := Nat.mul_le_mul_right _ hp
  · intro hlt
    have hpos : 0 < w.items := Nat.pos_of_ne_zero fun hz => by simp [hz] at hlt
    exact ⟨item % w.items, Nat.mod_lt _ hpos, item / w.items,
      (Nat.div_lt_iff_lt_mul hpos).mpr hlt, Nat.div_add_mod' item w.items⟩

theorem serves_rounds (hf : ch.Fifo holds) (hs : holds s [] []) (hlen : w.total < UInt32.size)
    (hn : n ≤ w.items) :
    ((List.range n).foldl (w.round ch) ⟨s, []⟩).Serves holds (w.schedule n) := by
  induction n with
  | zero => exact ⟨[], hs, rfl⟩
  | succ n ih =>
    have hlen' : (w.schedule n ++ w.turn n).length < UInt32.size := by
      rw [← schedule_succ, length_schedule, Nat.mul_comm]
      exact Nat.lt_of_le_of_lt (Nat.mul_le_mul_left _ hn) hlen
    have hpush := (ih (Nat.le_of_succ_le hn)).pushEach hf (w.turn n)
      (by rw [← schedule_succ]; exact w.nodup_schedule hn) hlen'
    rw [List.range_succ, List.foldl_append, List.foldl_cons, List.foldl_nil, round, schedule_succ]
    rw [turn, List.foldl_map] at hpush
    exact (hpush.popEach hf (List.range w.consumers)).1

/-- Everything comes out, in the order in which it was pushed. -/
theorem runChannel_items (hf : ch.Fifo holds) (hs : holds s [] []) (hlen : w.total < UInt32.size) :
    (w.runChannel ch s).map Prod.snd = w.schedule w.items := by
  have hrounds := serves_rounds hf hs hlen (Nat.le_refl w.items)
  obtain ⟨hserves, hcount⟩ := hrounds.popEach hf ((List.range w.total).map (· % w.consumers))
  rw [List.foldl_map] at hserves hcount
  obtain ⟨waiting, -, he⟩ := hserves
  have hall : waiting = [] := by
    have hl := congrArg List.length he
    rw [List.length_append, List.length_map, List.length_reverse, hcount, length_schedule,
      List.length_map, List.length_range, total, Nat.mul_comm w.items] at hl
    rw [← List.length_eq_zero_iff]
    omega
  rw [hall, List.append_nil] at he
  exact he.symm

section Tally

variable {log : List (Nat × Nat)} {item : Nat}

theorem getElem?_counts (w : Workload) (log : List (Nat × Nat)) (item : Nat) :
    (w.counts log)[item]? =
      if item < w.total then some ((log.map Prod.snd).count item) else none := by
  have hfold (counts : Array Nat) :
      (log.foldl (fun counts entry => counts.modify entry.2 (· + 1)) counts)[item]? =
        counts[item]?.map (· + (log.map Prod.snd).count item) := by
    induction log generalizing counts with
    | nil => simp
    | cons entry log ih =>
      rw [List.foldl_cons, ih, Array.getElem?_modify, List.map_cons, List.count_cons]
      by_cases he : entry.2 = item
      · cases counts[item]? <;> simp [he]
        omega
      · simp [he]
  refine (hfold _).trans ?_
  rw [Array.getElem?_replicate]
  split <;> simp

/-- Every item came out once. -/
theorem counts_eq (hlog : log.map Prod.snd = w.schedule w.items) :
    w.counts log = Array.replicate w.total 1 := by
  refine Array.ext_getElem? fun item => ?_
  rw [getElem?_counts, hlog, Array.getElem?_replicate]
  split
  · next hi =>
    rw [List.count_eq_one_of_mem (w.nodup_schedule (Nat.le_refl _)) (mem_schedule.mpr hi)]
  · rfl

theorem isAscending_of_pairwise {items : List Nat} (h : items.Pairwise (· < ·)) :
    isAscending items = true := by
  induction items with
  | nil => rfl
  | cons a items ih =>
    cases items with
    | nil => rfl
    | cons b items =>
      have hab : a < b := (List.pairwise_cons.mp h).1 b List.mem_cons_self
      rw [isAscending, ih h.of_cons, decide_eq_true hab]
      rfl

theorem isOrdered_eq (hlog : log.map Prod.snd = w.schedule w.items) : w.isOrdered log = true := by
  simp only [isOrdered, List.all_eq_true]
  intro c _ p _
  apply isAscending_of_pairwise
  -- What a consumer saw of a producer is a part of the schedule.
  have hsub : ((log.filter fun entry => entry.1 = c).map Prod.snd).Sublist (w.schedule w.items) :=
    hlog ▸ List.filter_sublist.map Prod.snd
  rw [List.pairwise_filter]
  refine ((w.pairwise_schedule (Nat.le_refl _)).sublist hsub).imp fun {a b} hab ha hb => ?_
  exact hab.2 ((of_decide_eq_true ha).trans (of_decide_eq_true hb).symm)

theorem schedule_of_one_producer (hp : w.producers = 1) (n : Nat) :
    w.schedule n = List.range n := by
  induction n with
  | zero => rfl
  | succ n ih => rw [schedule_succ, ih, List.range_succ]; simp [turn, hp, number]

theorem ends_eq (hlog : log.map Prod.snd = w.schedule w.items) : w.ends log =
    if w.total = 0 then (none, none) else (some 0, some (w.total - 1)) := by
  rw [ends, hlog]
  by_cases hone : w.producers = 1 ∧ w.consumers = 1
  · rw [if_pos hone, schedule_of_one_producer hone.1, total, hone.1, Nat.one_mul]
    cases w.items <;> simp [List.head?_range, List.getLast?_range]
  · rw [if_neg hone]
    split
    · next hz =>
      have hnil : w.schedule w.items = [] := by
        rw [← List.length_eq_zero_iff, length_schedule, Nat.mul_comm]
        exact hz
      rw [hnil]
      rfl
    · next hz =>
      refine Prod.ext (List.min?_eq_some_iff.mpr ⟨?_, fun b _ => Nat.zero_le b⟩)
        (List.max?_eq_some_iff.mpr ⟨?_, fun b hb => ?_⟩)
      · exact mem_schedule.mpr (Nat.pos_of_ne_zero hz)
      · exact mem_schedule.mpr (by omega)
      · have hlt := mem_schedule.mp hb
        omega

end Tally

theorem fits_iff {k : Kind} : w.fits k = true ↔
    k.isShared = true ∧ 1 ≤ w.producers ∧
      w.producers ≤ (if k.manyProducers then maxThreads else 1) ∧ 1 ≤ w.consumers ∧
      w.consumers ≤ (if k.manyConsumers then maxThreads else 1) ∧ w.items ≤ maxItems ∧
      w.spinCount ≤ maxSpin := by
  simp only [fits, Bool.and_eq_true, decide_eq_true_eq, and_assoc]

theorem total_lt {k : Kind} (hw : w.fits k = true) : w.total < UInt32.size := by
  obtain ⟨-, -, hp, -, -, hi, -⟩ := fits_iff.mp hw
  have hthreads : w.producers ≤ maxThreads := Nat.le_trans hp (by split <;> decide)
  calc w.producers * w.items
    _ ≤ maxThreads * maxItems := Nat.mul_le_mul hthreads hi
    _ < UInt32.size := by decide

theorem pops_items {k : Kind} (hw : w.fits k = true) (hk : k ≠ .counter) :
    (w.pops k).map Prod.snd = w.schedule w.items := by
  cases k with
  | linked k =>
    have hshared := (fits_iff.mp hw).1
    refine runChannel_items (containerChannel_fifo ?_ ?_) (containerHolds_create k w.spinCount)
      (total_lt hw)
    · rintro rfl
      cases hshared
    · rintro rfl
      cases hshared
  | pool => exact runChannel_items queueChannel_fifo ValueQueue.Holds.empty (total_lt hw)
  | twoLock =>
    exact runChannel_items queueChannel_fifo (ValueQueue.Holds.twoLock w.spinCount) (total_lt hw)
  | counter => exact absurd rfl hk

/-- Whatever the kind of the queue, and however many threads share it, the consumers together see
every item once, each of them sees the items of each producer in order, and the outermost items are
the first one of the first producer and the last one of the last. -/
theorem tally_pops {k : Kind} (hw : w.fits k = true) (hk : k ≠ .counter) :
    w.tally (w.pops k) =
      { popped := w.total
        lost := 0
        duplicated := 0
        ordered := true
        first := if w.items = 0 then none else some (0, 0)
        last := if w.items = 0 then none else some (w.producers - 1, w.items - 1) } := by
  have hitems := pops_items hw hk
  have hpopped : (w.pops k).length = w.total := by
    rw [← List.length_map (f := Prod.snd), hitems, length_schedule, total, Nat.mul_comm]
  have hproducers : 0 < w.producers := (fits_iff.mp hw).2.1
  rw [tally, counts_eq hitems, isOrdered_eq hitems, ends_eq hitems, hpopped]
  by_cases hz : w.items = 0
  · simp [total, hz]
  · have hpos : 0 < w.items := Nat.pos_of_ne_zero hz
    have hlast : w.total - 1 = w.number (w.producers - 1) (w.items - 1) := by
      obtain ⟨p, hp⟩ := Nat.exists_eq_succ_of_ne_zero (Nat.ne_of_gt hproducers)
      rw [total, number, hp, Nat.succ_mul, Nat.succ_sub_one]
      omega
    obtain ⟨hdiv, hmod⟩ := origin_number (Nat.sub_lt hpos Nat.one_pos) (w.producers - 1)
    have htotal : w.total ≠ 0 := Nat.ne_of_gt (Nat.mul_pos hproducers hpos)
    simp [htotal, hz, origin, hlast, hdiv, hmod, Array.count_replicate]

example : (⟨3, 2, 4, 0⟩ : Workload).fits (.linked .mpmc) = true ∧
    (⟨3, 2, 4, 0⟩ : Workload).tally ((⟨3, 2, 4, 0⟩ : Workload).pops (.linked .mpmc)) =
      ⟨12, 0, 0, true, some (0, 0), some (2, 3)⟩ := by decide +kernel

/-- The lock is free in the end, and the data went up once for every item. -/
theorem count_eq (w : Workload) : w.count = ⟨.free, Int64.ofNat w.total⟩ := by
  rw [count]
  induction w.total with
  | zero => rfl
  | succ n ih =>
    rw [List.range_succ, List.foldl_append, ih, Int64.ofNat_add]
    rfl

theorem toInt_count {k : Kind} (hw : w.fits k = true) : w.count.data.toInt = w.total := by
  rw [count_eq]
  exact Int64.toInt_ofNat_of_lt (Nat.lt_trans (total_lt hw) (by decide))

end LinkedQueues.Workload

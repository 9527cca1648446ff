import LinkedQueues.Proofs.Registry.All
import LinkedQueues.Proofs.ValueQueue
import LinkedQueues.Session.Values

/-!
Pushes that fail for lack of memory. A transcript keeps every answer of a run. Without the lines of
the failed pushes it is the transcript of the run without these pushes (`replay`).
-/
namespace LinkedQueues

namespace Values

variable {α : Type}

structure Sound (layout : Layout) (s : Session α) : Prop where
  layout : s.layout = layout
  queues : s.registry.All fun _ q => ∃ vs, q.Holds vs

namespace Sound

variable {layout : Layout} {s : Session α} {slot into : String} {access : Access} {q : ValueQueue α}
  {r : Registry (ValueQueue α)}

theorem start (layout : Layout) : Sound (α := α) layout (.start layout) := ⟨rfl, .empty⟩

theorem withRegistry (hs : Sound layout s) (hr : r.All fun _ q => ∃ vs, q.Holds vs) :
    Sound layout { s with registry := r } := ⟨hs.layout, hr⟩

theorem query (hs : Sound layout s) (r : Option (Reply α)) :
    Sound layout (s.ofOption r).session := by
  cases r <;> exact hs

theorem update (hs : Sound layout s) (hq : s.registry.queue? slot = some q) {d : ValueQueue α}
    (hd : ∃ vs, d.Holds vs) : Sound layout (s.update slot d) :=
  hs.withRegistry (hs.queues.setQueue hq fun _ _ => hd)

theorem place (hs : Sound layout s) (hq : ∃ vs, q.Holds vs) (slot : String) (a : Reply α) :
    Sound layout (s.settle a (s.registry.place slot (.owned q))).session :=
  hs.withRegistry (hs.queues.place hq)

theorem create {setup : Setup} (hs : Sound layout s) :
    Sound layout (s.create slot setup).session := by
  cases setup with
  | pool => exact hs.place ⟨[], .empty⟩ slot .done
  | twoLock spinCount => exact hs.place ⟨[], .twoLock spinCount⟩ slot .done
  | poolWithCapacity capacity failAt =>
    rw [Session.create]
    split
    · exact hs
    · exact hs.place ⟨[], .withCapacity capacity⟩ slot .done

theorem push {v : α} {allocates : Bool} (hs : Sound layout s) :
    Sound layout (s.push slot v allocates access).session := by
  rw [Session.push]
  cases hp : s.producing? slot access with
  | none => exact hs
  | some q =>
    have hq := Registry.queue?_of_producing? hp
    obtain ⟨-, vs, hh⟩ := hs.queues.queue? hq
    have hset : Sound layout (s.update slot (q.push v allocates).2) :=
      hs.update hq ((hh.push v allocates).elim (fun h => ⟨_, h.2⟩) fun h => ⟨_, h.2⟩)
    cases hpushed : (q.push v allocates).1 <;> simp only [hpushed] <;> exact hset

theorem pushAll {vs : List (Option α)} (hs : Sound layout s) :
    Sound layout (Session.pushAll slot access vs s).session := by
  induction vs generalizing s with
  | nil => exact hs
  | cons v vs ih =>
    cases v with
    | none => exact hs
    | some v =>
      have hpush : Sound layout (s.push slot v true access).session := hs.push
      rw [Session.pushAll]
      cases (s.push slot v true access).answer.reply
      case done => exact ih hpush
      all_goals exact hpush

theorem pop (hs : Sound layout s) : Sound layout (s.pop slot access).session := by
  rw [Session.pop]
  cases hc : s.consuming? slot access with
  | none => exact hs
  | some q =>
    have hq := Registry.queue?_of_consuming? hc
    obtain ⟨-, vs, hh⟩ := hs.queues.queue? hq
    exact hs.update hq ⟨_, hh.pop.2⟩

theorem drain {limit : Nat} (hs : Sound layout s) :
    Sound layout (Session.drain slot access limit s).session := by
  induction limit generalizing s with
  | zero => exact hs
  | succ limit ih =>
    have hpop : Sound layout (s.pop slot access).session := hs.pop
    have hrest := ih hpop
    rw [Session.drain]
    split
    · simp only
      split <;> exact hrest
    · exact hpop

theorem take (hs : Sound layout s) : Sound layout (s.take slot into).session := by
  rw [Session.take]
  cases hq : s.owned? slot with
  | none => exact hs
  | some q =>
    have hset := hs.update (Registry.queue?_of_owned? hq) ⟨[], .leftBehind defaultSpinCount q⟩
    exact hset.place (hs.queues.owned? hq) into .done

theorem dispose (hs : Sound layout s) : Sound layout (s.dispose slot).session := by
  rw [Session.dispose]
  split
  · exact hs
  · exact hs.withRegistry (hs.queues.dispose slot)

theorem split {producer consumer : String} (hs : Sound layout s) :
    Sound layout (s.split slot producer consumer).session := by
  rw [Session.split]
  cases hq : s.owned? slot with
  | none => exact hs
  | some q =>
    simp only
    split
    · have hpair := Registry.All.split hs.queues (hs.queues.owned? hq) slot producer consumer
      exact hs.withRegistry hpair
    · exact hs

theorem reclaim (hs : Sound layout s) : Sound layout (s.reclaim slot into).session := by
  rw [Session.reclaim]
  split
  · split
    · next hu => exact hs.withRegistry (Registry.All.unshare hs.queues hu fun _ h => h)
    · exact hs
  · exact hs

theorem step (hs : Sound layout s) (c : Command α) : Sound layout (s.step c).session := by
  cases c with
  | create slot setup => exact hs.create
  | push slot v allocates access => exact hs.push
  | pushAll slot vs access =>
    rw [Session.step]
    split
    · exact hs.pushAll
    · exact hs
  | pop slot access => exact hs.pop
  | drain slot limit access =>
    rw [Session.step]
    split
    · exact hs.drain
    · exact hs
  | isEmpty slot => exact hs.query _
  | nodes slot => exact hs.query _
  | spinCount slot => exact hs.query _
  | describe slot onLines => exact hs.query _
  | take slot into => exact hs.take
  | dispose slot => exact hs.dispose
  | split slot producer consumer => exact hs.split
  | reclaim slot into => exact hs.reclaim

/-- A push that runs out of memory disposes of its value and does nothing else. -/
theorem push_failed {v : α} {allocates : Bool} {e : AllocFailure} (hs : Sound layout s)
    (hf : (s.push slot v allocates access).answer.reply = .outOfMemory e) :
    allocates = false ∧
      s.push slot v allocates access = ⟨s.outOfMemory, [v], s⟩ := by
  rw [Session.push] at hf ⊢
  cases hp : s.producing? slot access with
  | none => simp [hp, Session.reject, Session.reply, Reply.quiet] at hf
  | some q =>
    have hq := Registry.queue?_of_producing? hp
    obtain ⟨-, vs, hh⟩ := hs.queues.queue? hq
    cases hpushed : (q.push v allocates).1 with
    | stored => simp [hp, hpushed, Session.reply, Reply.quiet] at hf
    | grown nodes => simp [hp, hpushed] at hf
    | failed =>
      refine ⟨((hh.push_failed_iff v allocates).mp hpushed).2, ?_⟩
      simp only [hpushed, hh.push_failed hpushed]
      rw [Session.update, Registry.setQueue_self hq]

theorem push_failed_iff {v : α} {allocates : Bool} (hs : Sound layout s)
    (hq : s.producing? slot access = some q) :
    (s.push slot v allocates access).answer.reply = .outOfMemory ⟨layout⟩ ↔
      q.NeedsNode ∧ allocates = false := by
  obtain ⟨-, vs, hh⟩ := hs.queues.queue? (Registry.queue?_of_producing? hq)
  rw [← hh.push_failed_iff v allocates, Session.push]
  cases hpushed : (q.push v allocates).1 <;>
    simp [hq, hpushed, Session.reply, Reply.quiet, Session.outOfMemory, Session.update, hs.layout]

end Sound

structure Line (α : Type) where
  command : Command α
  answer : Answer α
  disposed : List α

def Line.failed (l : Line α) : Bool :=
  match l.command, l.answer.reply with
  | .push .., .outOfMemory _ => true
  | _, _ => false

namespace Session

def transcript (s : Session α) : List (Command α) → List (Line α) × Session α
  | [] => ([], s)
  | c :: cs =>
    let o := s.step c
    let (ls, s) := o.session.transcript cs
    (⟨c, o.answer, o.disposed⟩ :: ls, s)

end Session

namespace Sound

variable {layout : Layout} {s : Session α} {c : Command α} {cs : List (Command α)} {l : Line α}

theorem step_failed (hs : Sound layout s)
    (hf : Line.failed ⟨c, (s.step c).answer, (s.step c).disposed⟩ = true) :
    ∃ slot v access, c = .push slot v false access ∧ s.step c = ⟨s.outOfMemory, [v], s⟩ := by
  cases c with
  | push slot v allocates access =>
    simp only [Line.failed] at hf
    split at hf
    · next he =>
      obtain ⟨rfl, hstep⟩ := hs.push_failed he
      exact ⟨slot, v, access, rfl, hstep⟩
    · cases hf
  | _ => cases hf

theorem transcript (hs : Sound layout s) (cs : List (Command α)) :
    Sound layout (s.transcript cs).2 := by
  induction cs generalizing s with
  | nil => exact hs
  | cons c cs ih => exact ih (hs.step c)

theorem exists_of_mem (hs : Sound layout s) (hl : l ∈ (s.transcript cs).1) :
    ∃ t, Sound layout t ∧
      l = ⟨l.command, (t.step l.command).answer, (t.step l.command).disposed⟩ := by
  induction cs generalizing s with
  | nil => cases hl
  | cons c cs ih =>
    rcases List.mem_cons.mp hl with rfl | hl
    · exact ⟨s, hs, rfl⟩
    · exact ih (hs.step c) hl

/-- The session does not notice when the failed pushes are left out. -/
theorem replay (hs : Sound layout s) (cs : List (Command α)) :
    let kept := (s.transcript cs).1.filter (!·.failed)
    s.transcript (kept.map Line.command) = (kept, (s.transcript cs).2) := by
  induction cs generalizing s with
  | nil => rfl
  | cons c cs ih =>
    have hrest := ih (hs.step c)
    simp only [Session.transcript]
    by_cases hf : Line.failed ⟨c, (s.step c).answer, (s.step c).disposed⟩ = true
    · obtain ⟨slot, v, access, -, hstep⟩ := hs.step_failed hf
      rw [List.filter_cons_of_neg (by simp [hf])]
      simp only [hstep] at hrest ⊢
      exact hrest
    · rw [List.filter_cons_of_pos (by simp [hf]), List.map_cons, Session.transcript]
      simp only at hrest ⊢
      rw [hrest]

end Sound

/-- Whichever allocations fail: without the pushes that failed, all other commands come to the same
answers and events, dispose of the same values, and leave the same session behind. A failed push
disposes of its own value and reports this. A push fails exactly when it needs a node and cannot
have one. -/
theorem transcript_without_failed_pushes (layout : Layout) (cs : List (Command α)) :
    let t := (Session.start layout).transcript cs
    let kept := t.1.filter (!·.failed)
    (Session.start layout).transcript (kept.map Line.command) = (kept, t.2) ∧
      (∀ l ∈ t.1, l.failed = true → ∃ slot v access, l = ⟨.push slot v false access,
        ⟨.outOfMemory ⟨layout⟩, [.allocationFailed layout]⟩, [v]⟩) ∧
      ∀ slot v allocates access q, t.2.producing? slot access = some q →
        ((t.2.step (.push slot v allocates access)).answer.reply = .outOfMemory ⟨layout⟩ ↔
          q.NeedsNode ∧ allocates = false) := by
  have hs := Sound.start (α := α) layout
  refine ⟨hs.replay cs, fun l hl hf => ?_, fun slot v allocates access q hq =>
    (hs.transcript cs).push_failed_iff hq⟩
  obtain ⟨t, ht, he⟩ := hs.exists_of_mem hl
  rw [he] at hf
  obtain ⟨slot, v, access, hc, hstep⟩ := ht.step_failed hf
  refine ⟨slot, v, access, ?_⟩
  rw [he, hstep, hc, Session.outOfMemory, ht.layout]

/-- Some of these pushes find no memory, and need some. -/
def failing : List (Command Nat) :=
  [.create "pool" (.poolWithCapacity 1 none), .create "locked" (.twoLock 5),
   .push "pool" 1 false .direct, .push "pool" 2 false .direct, .push "locked" 3 false .direct,
   .pop "pool" .direct, .push "pool" 4 false .direct, .push "pool" 5 true .direct,
   .push "pool" 6 false .direct, .nodes "pool", .dispose "pool"]

theorem transcript_failing :
    let t := (Session.start ⟨16, 8⟩).transcript failing
    t.1.map Line.failed =
        [false, false, false, true, true, false, false, false, true, false, false] ∧
      t.1.map Line.disposed = [[], [], [], [2], [3], [], [], [], [6], [], [4, 5]] ∧
      ((Session.start ⟨16, 8⟩).transcript
        [.create "pool" (.poolWithCapacity 1 none), .create "locked" (.twoLock 5),
         .push "pool" 1 false .direct, .pop "pool" .direct, .push "pool" 4 false .direct,
         .push "pool" 5 true .direct, .nodes "pool", .dispose "pool"]).2 = t.2 := by
  intro t
  have hcommands : (t.1.filter (!·.failed)).map Line.command =
      [.create "pool" (.poolWithCapacity 1 none), .create "locked" (.twoLock 5),
       .push "pool" 1 false .direct, .pop "pool" .direct, .push "pool" 4 false .direct,
       .push "pool" 5 true .direct, .nodes "pool", .dispose "pool"] := by decide +kernel
  have hsame := congrArg Prod.snd (transcript_without_failed_pushes ⟨16, 8⟩ failing).1
  refine ⟨by decide +kernel, by decide +kernel, ?_⟩
  rw [← hcommands]
  exact hsame

end Values

end LinkedQueues

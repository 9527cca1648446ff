import LinkedQueues.Proofs.Registry.Moves
import LinkedQueues.Proofs.Session.Failures

/-!
The queues of a session as plain lists. Pushes, pops and moves do to the lists what one expects, and
what they answer and dispose of can be told from the lists. Two sessions whose queues keep their
nodes in different ways are the same as long as both have memory.
-/
namespace LinkedQueues.Values

variable {α : Type}

abbrev Contents (α : Type) := Registry (List α)

/-- What a command replies and disposes of, and what the queues hold afterwards. -/
@[ext]
structure Effect (α : Type) where
  reply : Reply α
  disposed : List α
  contents : Contents α

namespace Contents

def reject (r : Contents α) : Effect α := ⟨.rejected, [], r⟩

def settle (a : Reply α) (change : List (List α) × Contents α) : Effect α :=
  ⟨a, change.1.flatten, change.2⟩

/-- Commands that look at nodes, and those that are made up of others, have no meaning here. -/
def step (r : Contents α) : Command α → Effect α
  | .create slot _ => settle .done (r.place slot (.owned []))
  | .push slot v _ _ =>
    match r.producing? slot fun _ => true with
    | none => r.reject
    | some vs => ⟨.done, [], r.setQueue slot (vs ++ [v])⟩
  | .pop slot _ =>
    match r.consuming? slot fun _ => true with
    | none => r.reject
    | some vs => ⟨.items vs.head?.toList, [], r.setQueue slot vs.tail⟩
  | .isEmpty slot =>
    match r.consuming? slot fun _ => true with
    | none => r.reject
    | some vs => ⟨.flag vs.isEmpty, [], r⟩
  | .take slot into =>
    match r.owned? slot with
    | none => r.reject
    | some vs => settle .done ((r.setQueue slot []).place into (.owned vs))
  | .dispose slot =>
    match r.holding? slot with
    | none => r.reject
    | some _ => settle .done (r.dispose slot)
  | _ => r.reject

end Contents

/-- Commands for queues as their owners use them. -/
def Command.isPlain : Command α → Bool
  | .push _ _ _ access | .pop _ access => access = .direct
  | .create .. | .isEmpty _ | .take .. | .dispose _ => true
  | _ => false

def Session.contents (s : Session α) : Contents α := s.registry.map ValueQueue.toList

def Outcome.effect (o : Outcome α) : Effect α := ⟨o.answer.reply, o.disposed, o.session.contents⟩

def provided : Reply α → Bool
  | .outOfMemory _ => false
  | _ => true

/-- The nodes that are there from the start can all be allocated. -/
def Setup.isSupplied : Setup → Bool
  | .poolWithCapacity capacity failAt => !failAt.any (· < capacity)
  | .pool | .twoLock _ => true

def Command.allocates : Command α → Bool
  | .create _ setup => setup.isSupplied
  | .push _ _ allocates _ => allocates
  | _ => true

namespace Session

/-- No allocation that the command asks for fails. A push asks for one only if it needs a node. -/
def Supplies (s : Session α) : Command α → Prop
  | .create _ setup => setup.isSupplied = true
  | .push slot _ allocates access => ∀ q ∈ s.producing? slot access, q.NeedsNode → allocates = true
  | _ => True

instance (s : Session α) : (c : Command α) → Decidable (s.Supplies c)
  | .create _ setup => inferInstanceAs (Decidable (setup.isSupplied = true))
  | .push slot _ allocates access =>
    inferInstanceAs (Decidable (∀ q ∈ s.producing? slot access, q.NeedsNode → allocates = true))
  | .pushAll .. | .pop .. | .drain .. | .isEmpty _ | .nodes _ | .spinCount _ | .describe ..
  | .take .. | .dispose _ | .split .. | .reclaim .. => isTrue trivial

def Ample (s : Session α) : List (Command α) → Prop
  | [] => True
  | c :: cs => s.Supplies c ∧ (s.step c).session.Ample cs

instance decidableAmple (s : Session α) : (cs : List (Command α)) → Decidable (s.Ample cs)
  | [] => isTrue trivial
  | c :: cs =>
    have := decidableAmple (s.step c).session cs
    inferInstanceAs (Decidable (_ ∧ _))

variable {q : ValueQueue α} {vs : List α}

theorem contents_start (layout : Layout) : (start (α := α) layout).contents = .empty :=
  Registry.map_empty _

theorem effect_settle (s : Session α) (a : Reply α)
    (change : List (ValueQueue α) × Registry (ValueQueue α)) :
    (s.settle a change).effect =
      Contents.settle a (Registry.mapChange ValueQueue.toList change) := rfl

theorem producing?_contents (s : Session α) (slot : String) :
    (s.contents.producing? slot fun _ => true) =
      (s.producing? slot .direct).map ValueQueue.toList :=
  Registry.producing?_map ValueQueue.toList s.registry slot _

theorem consuming?_contents (s : Session α) (slot : String) :
    (s.contents.consuming? slot fun _ => true) =
      (s.consuming? slot .direct).map ValueQueue.toList :=
  Registry.consuming?_map ValueQueue.toList s.registry slot _

theorem owned?_contents (s : Session α) (slot : String) :
    s.contents.owned? slot = (s.owned? slot).map ValueQueue.toList :=
  Registry.owned?_map ValueQueue.toList s.registry slot

theorem contents_update (s : Session α) (slot : String) (hq : q.toList = vs) :
    (s.update slot q).contents = s.contents.setQueue slot vs := by
  rw [← hq, contents, contents, Registry.setQueue_map]
  rfl

theorem effect_place (s : Session α) (hq : q.toList = vs) (slot : String) :
    (s.settle .done (s.registry.place slot (.owned q))).effect =
      Contents.settle .done (s.contents.place slot (.owned vs)) := by
  rw [effect_settle, ← Registry.place_map, ← hq]
  rfl

/-- A run is ample if no allocation fails, needed or not. -/
theorem ample_of_allocates (s : Session α) {cs : List (Command α)}
    (hcs : ∀ c ∈ cs, c.allocates = true) : s.Ample cs := by
  induction cs generalizing s with
  | nil => trivial
  | cons c cs ih =>
    have hc := hcs c List.mem_cons_self
    refine ⟨?_, ih _ fun d hd => hcs d (List.mem_cons_of_mem c hd)⟩
    cases c with
    | create slot setup => exact hc
    | push slot v allocates access => exact fun _ _ _ => hc
    | _ => trivial

theorem finish_eq (s : Session α) : s.finish = s.contents.disposeAll.1.flatten := by
  rw [contents, Registry.disposeAll_map]
  rfl

end Session

namespace Sound

variable {layout : Layout} {s : Session α} {slot into : String} {access : Access} {c : Command α}

/-- Whether a command is short of memory can be told from its allocations. -/
theorem provided_iff (hs : Sound layout s) (hc : c.isPlain = true) :
    provided (s.step c).answer.reply = true ↔ s.Supplies c := by
  cases c with
  | create slot setup =>
    cases setup with
    | poolWithCapacity capacity failAt =>
      cases hf : failAt.any (· < capacity) <;>
        simp [Session.step, Session.create, Session.Supplies, Setup.isSupplied, hf, provided,
          Session.settle, Reply.quiet, Session.outOfMemory]
    | pool => exact iff_of_true rfl rfl
    | twoLock spinCount => exact iff_of_true rfl rfl
  | push slot v allocates access =>
    rw [Session.step, Session.push, Session.Supplies]
    cases hq : s.producing? slot access with
    | none => simp [Session.reject, Session.reply, Reply.quiet, provided]
    | some q =>
      obtain ⟨-, vs, hh⟩ := hs.queues.queue? (Registry.queue?_of_producing? hq)
      have hf := hh.push_failed_iff v allocates
      cases hpushed : (q.push v allocates).1 <;> rw [hpushed] at hf <;>
        simpa [hpushed, provided, Session.reply, Reply.quiet, Session.outOfMemory] using hf
  | pop slot access =>
    refine iff_of_true ?_ trivial
    rw [Session.step, Session.pop]
    split <;> rfl
  | isEmpty slot =>
    refine iff_of_true ?_ trivial
    rw [Session.step]
    cases s.consuming? slot .direct <;> rfl
  | take slot into =>
    refine iff_of_true ?_ trivial
    rw [Session.step, Session.take]
    split <;> rfl
  | dispose slot =>
    refine iff_of_true ?_ trivial
    rw [Session.step, Session.dispose]
    split <;> rfl
  | _ => cases hc

theorem effect_create {setup : Setup} (hp : provided (s.create slot setup).answer.reply = true) :
    (s.create slot setup).effect = s.contents.step (.create slot setup) := by
  cases setup with
  | pool => exact s.effect_place ValueQueue.Holds.empty.toList_eq slot
  | twoLock spinCount => exact s.effect_place (ValueQueue.Holds.twoLock spinCount).toList_eq slot
  | poolWithCapacity capacity failAt =>
    rw [Session.create] at hp ⊢
    split at hp
    · cases hp
    · next hf =>
      rw [if_neg hf]
      exact s.effect_place (ValueQueue.Holds.withCapacity capacity).toList_eq slot

theorem effect_push (hs : Sound layout s) {v : α} {allocates : Bool}
    (hp : provided (s.push slot v allocates .direct).answer.reply = true) :
    (s.push slot v allocates .direct).effect =
      s.contents.step (.push slot v allocates .direct) := by
  rw [Contents.step, s.producing?_contents]
  rw [Session.push] at hp ⊢
  cases hq : s.producing? slot .direct with
  | none => rfl
  | some q =>
    obtain ⟨-, vs, hh⟩ := hs.queues.queue? (Registry.queue?_of_producing? hq)
    simp only [hq] at hp ⊢
    rw [Option.map_some, hh.toList_eq]
    rcases hh.push v allocates with ⟨hf, -⟩ | ⟨hf, hh'⟩
    · simp only [hf] at hp
      cases hp
    · have hu := s.contents_update slot hh'.toList_eq
      cases hpushed : (q.push v allocates).1 with
      | failed => exact absurd hpushed hf
      | stored => exact Effect.ext rfl rfl hu
      | grown nodes => exact Effect.ext rfl rfl hu

theorem effect_pop (hs : Sound layout s) :
    (s.pop slot .direct).effect = s.contents.step (.pop slot .direct) := by
  rw [Contents.step, s.consuming?_contents, Session.pop]
  cases hq : s.consuming? slot .direct with
  | none => rfl
  | some q =>
    obtain ⟨-, vs, hh⟩ := hs.queues.queue? (Registry.queue?_of_consuming? hq)
    rw [Option.map_some, hh.toList_eq]
    refine Effect.ext ?_ rfl (s.contents_update slot hh.pop.2.toList_eq)
    simp only [Outcome.effect, Session.reply, Reply.quiet, hh.pop.1]

theorem effect_isEmpty (hs : Sound layout s) :
    (s.step (.isEmpty slot)).effect = s.contents.step (.isEmpty slot) := by
  rw [Contents.step, s.consuming?_contents, Session.step]
  cases hq : s.consuming? slot .direct with
  | none => rfl
  | some q =>
    obtain ⟨-, vs, hh⟩ := hs.queues.queue? (Registry.queue?_of_consuming? hq)
    have hflag : q.isEmpty = vs.isEmpty := by
      rw [Bool.eq_iff_iff, hh.isEmpty_iff, List.isEmpty_iff]
    rw [Option.map_some, Option.map_some, hh.toList_eq, hflag]
    rfl

theorem effect_take (hs : Sound layout s) :
    (s.take slot into).effect = s.contents.step (.take slot into) := by
  rw [Contents.step, s.owned?_contents, Session.take]
  cases hq : s.owned? slot with
  | none => rfl
  | some q =>
    obtain ⟨vs, hh⟩ := hs.queues.owned? hq
    have hleft := (ValueQueue.Holds.leftBehind defaultSpinCount q).toList_eq
    simp only [Option.map_some, hh.toList_eq]
    rw [← s.contents_update slot hleft]
    exact Session.effect_place _ hh.toList_eq into

theorem effect_dispose (s : Session α) (slot : String) :
    (s.dispose slot).effect = s.contents.step (.dispose slot) := by
  rw [Contents.step, Session.dispose, Session.contents, Registry.holding?_map]
  cases s.registry.holding? slot with
  | none => rfl
  | some h =>
    rw [Option.map_some]
    simp only [Registry.dispose_map]
    rfl

/-- A session does to its queues what is done to the lists. -/
theorem effect_step (hs : Sound layout s) (hc : c.isPlain = true)
    (hsupply : s.Supplies c) : (s.step c).effect = s.contents.step c := by
  have hp := (hs.provided_iff hc).mpr hsupply
  cases c with
  | create slot setup => exact effect_create hp
  | push slot v allocates access =>
    obtain rfl : access = .direct := of_decide_eq_true hc
    exact hs.effect_push hp
  | pop slot access =>
    obtain rfl : access = .direct := of_decide_eq_true hc
    exact hs.effect_pop
  | isEmpty slot => exact hs.effect_isEmpty
  | take slot into => exact hs.effect_take
  | dispose slot => exact effect_dispose s slot
  | _ => cases hc

end Sound

/-- The same command, given to a queue with spare nodes and to one with two locks. How many nodes
the former has from the start does not matter, nor which allocations would have failed. -/
inductive Twin : Command α → Command α → Prop
  | create (slot : String) (spinCount : Nat) :
      Twin (.create slot .pool) (.create slot (.twoLock spinCount))
  | createWithCapacity (slot : String) (capacity : Nat) (failAt : Option Nat) (spinCount : Nat) :
      Twin (.create slot (.poolWithCapacity capacity failAt)) (.create slot (.twoLock spinCount))
  | push (slot : String) (v : α) (a b : Bool) :
      Twin (.push slot v a .direct) (.push slot v b .direct)
  | pop (slot : String) : Twin (.pop slot .direct) (.pop slot .direct)
  | isEmpty (slot : String) : Twin (.isEmpty slot) (.isEmpty slot)
  | take (slot into : String) : Twin (.take slot into) (.take slot into)
  | dispose (slot : String) : Twin (.dispose slot) (.dispose slot)

namespace Twin

variable {c d : Command α}

theorem isPlain (h : Twin c d) : c.isPlain = true ∧ d.isPlain = true := by
  cases h <;> exact ⟨rfl, rfl⟩

theorem step_eq (h : Twin c d) (r : Contents α) : r.step c = r.step d := by
  cases h <;> rfl

end Twin

def Line.seen (l : Line α) : Reply α × List α := (l.answer.reply, l.disposed)

namespace Sound

variable {layout layout' : Layout} {s t : Session α} {cs ds : List (Command α)}

theorem transcripts_alike (hs : Sound layout s) (ht : Sound layout' t)
    (hst : s.contents = t.contents) (htwin : List.Forall₂ Twin cs ds)
    (hc : s.Ample cs) (hd : t.Ample ds) :
    (s.transcript cs).1.map Line.seen = (t.transcript ds).1.map Line.seen ∧
      (s.transcript cs).2.contents = (t.transcript ds).2.contents := by
  induction htwin generalizing s t with
  | nil => exact ⟨rfl, hst⟩
  | @cons c d cs ds hcd _ ih =>
    obtain ⟨hpc, hpd⟩ := hcd.isPlain
    have heffect : (s.step c).effect = (t.step d).effect := by
      rw [hs.effect_step hpc hc.1, ht.effect_step hpd hd.1, hst, hcd.step_eq]
    obtain ⟨hlines, hcontents⟩ :=
      ih (hs.step c) (ht.step d) (congrArg Effect.contents heffect) hc.2 hd.2
    have hseen : (⟨c, (s.step c).answer, (s.step c).disposed⟩ : Line α).seen =
        (⟨d, (t.step d).answer, (t.step d).disposed⟩ : Line α).seen :=
      Prod.ext (congrArg Effect.reply heffect) (congrArg Effect.disposed heffect)
    simp only [Session.transcript, List.map_cons]
    exact ⟨by rw [hseen, hlines], hcontents⟩

end Sound

/-- As long as there is memory, nobody can tell a queue with spare nodes, however many, from one
with two locks. Every pop, every question and every move gets the same answer, the same values are
disposed of by each command and when everything goes, in the same order, and the queues hold the
same values under every name. -/
theorem transcript_eq_of_twin (layout layout' : Layout) (cs ds : List (Command α))
    (htwin : List.Forall₂ Twin cs ds) :
    let a := (Session.start layout).transcript cs
    let b := (Session.start layout').transcript ds
    (Session.start layout).Ample cs → (Session.start layout').Ample ds →
      a.1.map Line.seen = b.1.map Line.seen ∧
        a.2.registry.map ValueQueue.toList = b.2.registry.map ValueQueue.toList ∧
        a.2.finish = b.2.finish := by
  intro a b ha hb
  have hstart : (Session.start (α := α) layout).contents = (Session.start layout').contents := by
    rw [Session.contents_start, Session.contents_start]
  obtain ⟨hlines, hcontents⟩ :=
    (Sound.start layout).transcripts_alike (.start layout') hstart htwin ha hb
  refine ⟨hlines, hcontents, ?_⟩
  rw [Session.finish_eq, Session.finish_eq, hcontents]

/-- A queue that has one spare node too few, is moved twice, and is left with values in the end. -/
def pooled : List (Command Nat) :=
  [.create "q" (.poolWithCapacity 1 none), .push "q" 1 false .direct, .push "q" 2 true .direct,
   .pop "q" .direct, .push "q" 3 false .direct, .take "q" "r", .isEmpty "q",
   .push "q" 4 true .direct, .pop "r" .direct, .take "q" "r", .push "r" 5 true .direct,
   .pop "q" .direct, .isEmpty "r"]

def locked : List (Command Nat) :=
  [.create "q" (.twoLock 9), .push "q" 1 true .direct, .push "q" 2 true .direct, .pop "q" .direct,
   .push "q" 3 true .direct, .take "q" "r", .isEmpty "q", .push "q" 4 true .direct,
   .pop "r" .direct, .take "q" "r", .push "r" 5 true .direct, .pop "q" .direct, .isEmpty "r"]

theorem pooled_locked_twins : List.Forall₂ Twin pooled locked :=
  .cons (.createWithCapacity ..) (.cons (.push ..) (.cons (.push ..) (.cons (.pop ..)
    (.cons (.push ..) (.cons (.take ..) (.cons (.isEmpty ..) (.cons (.push ..) (.cons (.pop ..)
      (.cons (.take ..) (.cons (.push ..) (.cons (.pop ..) (.cons (.isEmpty ..) .nil))))))))))))

theorem transcript_pooled_eq_locked :
    let a := (Session.start ⟨16, 8⟩).transcript pooled
    let b := (Session.start ⟨8, 8⟩).transcript locked
    (Session.start ⟨16, 8⟩).Ample pooled ∧ (Session.start ⟨8, 8⟩).Ample locked ∧
      a.1.map Line.disposed =
        [[], [], [], [], [], [], [], [], [], [3], [], [], []] ∧
      b.1.map Line.seen = a.1.map Line.seen ∧ a.2.finish = [4, 5] ∧ b.2.finish = [4, 5] := by
  intro a b
  have ha : (Session.start ⟨16, 8⟩).Ample pooled := by decide +kernel
  have hb : (Session.start ⟨8, 8⟩).Ample locked :=
    Session.ample_of_allocates _ (by decide)
  have hleft : a.2.finish = [4, 5] := by decide +kernel
  obtain ⟨hseen, -, hfinish⟩ :=
    transcript_eq_of_twin ⟨16, 8⟩ ⟨8, 8⟩ pooled locked pooled_locked_twins ha hb
  exact ⟨ha, hb, by decide +kernel, hseen.symm, hleft, hfinish ▸ hleft⟩

end LinkedQueues.Values

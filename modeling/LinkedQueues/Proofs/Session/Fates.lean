import LinkedQueues.Proofs.Session.Accounts

/-!
Fates of values. A history keeps what a run did with values next to its session and its book. Every
value that was given to a push is returned once or disposed of once, by the queue it went into or by
the push itself.
-/
namespace LinkedQueues.Values

open scoped List

variable {α : Type}

structure History (α : Type) where
  session : Session α
  book : Book (Account α) := {}
  /-- The values given to pushes, those of failed pushes among them. -/
  offered : List α := []
  refused : List α := []
  returned : List α := []
  disposed : List α := []

namespace History

def start (layout : Layout) : History α := { session := .start layout }

def step (h : History α) (c : Command α) : History α :=
  let o := h.session.step c
  let r := o.answer.reply
  { session := o.session
    book := c.post h.book r
    offered := h.offered ++ c.offered r
    refused := h.refused ++ c.refused r
    returned := h.returned ++ c.returned r
    disposed := h.disposed ++ o.disposed }

def run (h : History α) (cs : List (Command α)) : History α := cs.foldl step h

variable {h : History α}

structure Kept (h : History α) : Prop where
  agree : ∃ p, Agree p h.session h.book
  offered : h.offered.Perm (h.refused ++ h.book.accounts.flatMap Account.stored)
  returned : h.returned.Perm (h.book.accounts.flatMap Account.returned)
  disposed : h.disposed.Perm (h.refused ++ h.book.closed.flatMap Account.left)

theorem perm_append_both {xs as bs bs' as' vs : List α} (hx : xs.Perm (as ++ bs))
    (hb : bs'.Perm (bs ++ vs)) : (xs ++ (as' ++ vs)).Perm (as ++ as' ++ bs') :=
  calc xs ++ (as' ++ vs)
    _ ~ as ++ bs ++ (as' ++ vs) := hx.append_right _
    _ = as ++ (bs ++ (as' ++ vs)) := List.append_assoc ..
    _ ~ as ++ (as' ++ (bs ++ vs)) := (List.perm_append_comm_assoc _ _ _).append_left as
    _ ~ as ++ (as' ++ bs') := (hb.symm.append_left as').append_left as
    _ = as ++ as' ++ bs' := (List.append_assoc ..).symm

namespace Kept

theorem start (layout : Layout) : Kept (α := α) (.start layout) :=
  ⟨⟨_, .start layout⟩, .refl _, .refl _, .refl _⟩

theorem posts (hk : Kept h) {c : Command α} (hc : c.isSingle) : Posts h.session h.book c := by
  obtain ⟨p, ha⟩ := hk.agree
  exact ha.step hc

theorem step (hk : Kept h) {c : Command α} (hc : c.isSingle) : Kept (h.step c) := by
  have hpost := hk.posts hc
  obtain ⟨gone, hclosed, hdisposed, -⟩ := hpost.gone
  refine ⟨hpost.agree, ?_, ?_, ?_⟩
  · rw [History.step, Command.offered_eq]
    exact perm_append_both hk.offered hpost.stored
  · exact (hk.returned.append_right _).trans hpost.returned.symm
  · rw [History.step, hclosed, hdisposed, List.flatMap_append]
    exact perm_append_both hk.disposed (.refl _)

theorem run (hk : Kept h) {cs : List (Command α)} (hcs : ∀ c ∈ cs, c.isSingle) :
    Kept (h.run cs) := by
  induction cs generalizing h with
  | nil => exact hk
  | cons c cs ih =>
    exact ih (hk.step (hcs c List.mem_cons_self)) fun d hd => hcs d (List.mem_cons_of_mem c hd)

end Kept

structure Fates (h : History α) : Prop where
  /-- Every value that was offered was returned once, or was disposed of once, or is disposed of
  once when everything goes. -/
  once : h.offered.Perm (h.returned ++ h.disposed ++ h.session.finish)
  /-- It was refused, or went into one queue. -/
  stored : h.offered.Perm (h.refused ++ h.book.accounts.flatMap Account.stored)
  /-- What came out of a queue is what went into it, in that order. -/
  inOrder : ∀ a ∈ h.book.accounts, a.stored = a.returned ++ a.left
  returned : h.returned.Perm (h.book.accounts.flatMap Account.returned)
  disposed : h.disposed.Perm (h.refused ++ h.book.closed.flatMap Account.left)
  finish : ∃ last : List (Account α), last.Perm h.book.registry.queues ∧
    h.session.finish = last.flatMap Account.left
  /-- Every queue has one account. -/
  ids : (h.book.accounts.map Account.id).Perm (List.range h.book.opened)
  /-- The names lead to the same queues in the session and in the book. -/
  content : h.session.registry.map ValueQueue.toList = h.book.registry.map Account.left
  /-- An account is open as long as a name leads to it, and no name leads elsewhere. -/
  held : ∀ a ∈ h.book.registry.queues, ∃ slot, h.book.registry.queue? slot = some a
  reached : ∀ slot, h.session.registry.isHeld slot = true →
    ∃ a, h.book.registry.queue? slot = some a
  lost : ∀ a ∈ h.book.closed, ∀ slot a', h.book.registry.queue? slot = some a' → a'.id ≠ a.id
  /-- The number that is kept for a split queue is that of the names with a handle of it. -/
  handles : ∀ id, (h.session.registry.shared.read id).map Shared.handles =
    if h.session.registry.holders id = [] then none else some (h.session.registry.holders id).length
  holders : ∀ id, (h.session.registry.holders id).Nodup
  /-- Its account is open until nobody has a handle. -/
  ended : ∀ id, h.session.registry.holders id = [] ↔ h.book.registry.at? (.shared id) = none

theorem Kept.fates (hk : Kept h) : h.Fates := by
  obtain ⟨p, ha⟩ := hk.agree
  obtain ⟨last, hlast, hfinish⟩ := ha.finish_eq
  have hopen : (h.book.registry.queues.flatMap Account.left).Perm h.session.finish :=
    hfinish ▸ (hlast.flatMap_right _).symm
  have honce : h.offered.Perm (h.returned ++ h.disposed ++ h.session.finish) := by
    calc h.offered
      _ ~ h.refused ++ h.book.accounts.flatMap Account.stored := hk.offered
      _ ~ h.refused ++ (h.book.accounts.flatMap Account.returned ++ _) :=
        ha.stored_perm.append_left _
      _ ~ h.book.accounts.flatMap Account.returned ++ (h.refused ++ _) :=
        List.perm_append_comm_assoc _ _ _
      _ = h.book.accounts.flatMap Account.returned ++ (h.refused ++ _ ++ _) := by
        rw [List.append_assoc h.refused]
      _ ~ h.returned ++ (h.disposed ++ h.session.finish) :=
        hk.returned.symm.append (hk.disposed.symm.append hopen)
      _ = h.returned ++ h.disposed ++ h.session.finish := (List.append_assoc ..).symm
  refine ⟨honce, hk.offered, fun a => ha.inOrder, hk.returned, hk.disposed, ⟨last, hlast, hfinish⟩,
    ha.covers.numbers, ha.content, fun a => ha.held, fun slot => ha.reached,
    fun a hm slot a' => ha.lost hm, ha.covers.counted_queues.tally, Registry.nodup_holders _,
    fun id => ?_⟩
  rw [ha.covers.holders_eq]
  exact ha.covers.counted_accounts.holders_eq_nil_iff

/-- A command refuses the values `vs`, and disposes of them and of what is left in the queues of the
accounts `gone`. -/
structure Disposal (h : History α) (c : Command α) (vs : List α) (gone : List (Account α)) :
    Prop where
  refused : (h.step c).refused = h.refused ++ vs
  /-- Only a push without memory is refused its value. -/
  memory : ∀ v ∈ vs, ∃ slot access, c = .push slot v false access
  closed : (h.step c).book.closed = h.book.closed ++ gone
  disposed : (h.step c).disposed = h.disposed ++ vs ++ gone.flatMap Account.left
  /-- A queue goes with the name that owned it or with the last of its handles. One that came with
  the same command has never held a value. -/
  last : ∀ a ∈ gone, (∃ slot, h.book.registry.owned? slot = some a) ∨
    (∃ id, h.book.registry.at? (.shared id) = some a ∧ h.session.registry.holders id ≠ [] ∧
      (h.step c).session.registry.holders id = []) ∨
    (h.book.opened ≤ a.id ∧ a.stored = [])
  unreached : ∀ a ∈ gone, ∀ slot a', (h.step c).book.registry.queue? slot = some a' → a'.id ≠ a.id
  /-- A split queue whose last handle goes is given up or owned by a name. -/
  passage : h.book.Passage Account.id (h.step c).book

/-- The account of a queue that goes belonged to a name, or nobody has a handle of it any more. -/
theorem Kept.last (hk : Kept h) {c : Command α} (hc : c.isSingle) {a : Account α}
    (hopen : a ∈ h.book.registry.queues) (hclosed : a ∈ (h.step c).book.closed) :
    (∃ slot, h.book.registry.owned? slot = some a) ∨
      ∃ id, h.book.registry.at? (.shared id) = some a ∧ h.session.registry.holders id ≠ [] ∧
        (h.step c).session.registry.holders id = [] := by
  have hnext := (hk.step hc).fates
  obtain ⟨o, ho⟩ := Registry.mem_queues_iff.mp hopen
  cases o with
  | name slot => exact Or.inl ⟨slot, ho⟩
  | shared id =>
    obtain ⟨gone, -, hfate⟩ := (hk.posts hc).passage.fate
    refine Or.inr ⟨id, ho, fun hnil => ?_, ?_⟩
    · rw [(hk.fates.ended id).mp hnil] at ho
      cases ho
    · rcases hfate id a ho with ⟨a', ha', hid⟩ | ⟨hend, -⟩
      · -- The account would be open and closed.
        obtain ⟨slot, hslot⟩ := hnext.held a' (Registry.mem_queues_iff.mpr ⟨_, ha'⟩)
        exact absurd hid (hnext.lost a hclosed slot a' hslot)
      · exact (hnext.ended id).mpr hend

/-- Every value that was given to a push meets one fate. The queues that go by a command, with their
owner or the last of their handles, are closed in the book, and what was left in them is disposed
of in the order in which it went in. -/
theorem run_fates (layout : Layout) (cs : List (Command α))
    (hcs : ∀ c ∈ cs, c.isSingle) :
    let h := (History.start layout).run cs
    h.Fates ∧ ∀ c : Command α, c.isSingle → ∃ vs gone, h.Disposal c vs gone := by
  intro h
  have hk : h.Kept := (Kept.start layout).run hcs
  refine ⟨hk.fates, fun c hc => ?_⟩
  have hpost := hk.posts hc
  obtain ⟨p, ha⟩ := hk.agree
  obtain ⟨gone, hclosed, hdisposed, hopen⟩ := hpost.gone
  have hmem (a : Account α) (hm : a ∈ gone) : a ∈ (h.step c).book.closed := by
    rw [History.step, hclosed]
    exact List.mem_append_right _ hm
  refine ⟨c.refused (h.session.step c).answer.reply, gone, rfl, ha.refused_eq c, hclosed, ?_,
    fun a hm => ?_, fun a hm => (hk.step hc).fates.lost a (hmem a hm), hpost.passage⟩
  · rw [History.step, hdisposed, List.append_assoc]
  · rcases hopen a hm with ho | hnew
    · exact (hk.last hc ho (hmem a hm)).imp_right Or.inl
    · exact Or.inr (Or.inr hnew)

/-- A queue is taken, split and put together again, and goes with its last handle. -/
def dropping : List (Command Nat) :=
  [.create "pool" .pool, .create "locked" (.twoLock 5), .push "pool" 1 true .direct,
   .push "pool" 2 true .direct, .push "pool" 3 false .direct, .pop "pool" .direct,
   .take "pool" "moved", .split "moved" "in" "out", .push "in" 4 true .direct,
   .push "locked" 5 true .direct, .reclaim "out" "whole", .dispose "in", .push "in" 6 true .direct,
   .reclaim "out" "whole", .pop "whole" .direct, .push "whole" 7 false .direct,
   .split "whole" "in" "out", .dispose "out", .push "pool" 8 true .direct]

/-- Two values outlive the first handle of their queue, and go when something else takes the name of
the second. -/
theorem run_fates_dropping :
    let h := (start ⟨16, 8⟩).run dropping
    let last := h.step (.create "in" .pool)
    (∀ c ∈ dropping, c.isSingle) ∧ h.offered = [1, 2, 3, 4, 5, 7, 8] ∧ h.returned = [1, 2] ∧
      h.refused = [3] ∧ h.disposed = [3] ∧ h.session.finish.Perm [4, 5, 7, 8] ∧
      h.session.registry.holders 1 = ["in"] ∧
      h.book.registry.queue? "in" = some ⟨0, [1, 2, 4, 7], [1, 2]⟩ ∧
      last.session.registry.holders 1 = [] ∧ last.disposed = [3, 4, 7] := by
  intro h last
  have hcs : ∀ c ∈ dropping, c.isSingle := by decide
  obtain ⟨hfates, hstep⟩ := run_fates ⟨16, 8⟩ dropping hcs
  obtain ⟨vs, gone, hlast⟩ := hstep (.create "in" .pool) rfl
  have ho : h.offered = [1, 2, 3, 4, 5, 7, 8] := by decide +kernel
  have hr : h.returned = [1, 2] := by decide +kernel
  have hf : h.refused = [3] := by decide +kernel
  have hd : h.disposed = [3] := by decide +kernel
  have hfinish : h.session.finish.Perm [4, 5, 7, 8] := by
    have honce : h.offered.Perm (h.returned ++ h.disposed ++ h.session.finish) := hfates.once
    rw [ho, hr, hd] at honce
    exact (List.perm_append_left_iff [1, 2, 3]).mp (honce.symm.trans (by decide))
  have hvs : vs = [] := by
    have hkept : [3] = h.refused ++ vs := hlast.refused
    simpa [hf] using hkept
  have hgone : gone = [⟨0, [1, 2, 4, 7], [1, 2]⟩] := by
    have hopen : h.book.closed = [] := by decide +kernel
    have hclosed : last.book.closed = h.book.closed ++ gone := hlast.closed
    rw [hopen, List.nil_append] at hclosed
    rw [← hclosed]
    decide +kernel
  refine ⟨hcs, ho, hr, hf, hd, hfinish, by decide +kernel, by decide +kernel, by decide +kernel, ?_⟩
  have hdisposed : last.disposed = h.disposed ++ vs ++ gone.flatMap Account.left := hlast.disposed
  rw [hdisposed, hd, hvs, hgone]
  decide

end History

end LinkedQueues.Values

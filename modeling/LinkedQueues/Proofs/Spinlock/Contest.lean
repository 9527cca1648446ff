import LinkedQueues.Proofs.Spinlock
import Mathlib.Logic.Function.Basic
import Mathlib.Logic.Relation

/-!
Any number of threads that want one lock, each in its own manner, and make their accesses to the
word in any order. Main result: the two ways of waiting go through the same attempts and do the same
about those that fail, and a call comes back only when its thread, and no other, has the lock.
-/
namespace LinkedQueues

namespace Spinlock

inductive Manner
  | spinning (spinCount : Nat)
  | consulting
  /-- Tries once and gives up. -/
  | once
  deriving DecidableEq

/-- Where a thread is: before which access to the word, or at none. -/
inductive Approach
  | outside
  | look (attempt : Nat)
  | grab (attempt : Nat)
  | inside
  deriving DecidableEq

namespace Manner

def again : Manner → Nat → Approach
  | spinning _, attempt => .look attempt
  | consulting, attempt => .grab attempt
  | once, _ => .outside

theorem again_ne_inside (m : Manner) (attempt : Nat) : m.again attempt ≠ .inside := by
  cases m <;> nofun

/-- What the look before an attempt finds, if it does not find that the lock is held. -/
def glance : Manner → Nat → List Bool
  | spinning _, _ + 1 => [false]
  | _, _ => []

/-- The accesses of `n` attempts that failed found these words. -/
def Failing : Manner → Nat → List Bool → Prop
  | _, 0, ws => ws = []
  | spinning _, n + 1, ws => ∃ misses : List Miss, misses.length = n ∧ ws = missed misses
  | _, n + 1, ws => ws = List.replicate (n + 1) true

variable {m : Manner} {n : Nat} {ws : List Bool}

theorem Failing.grab (h : m.Failing n ws) : m.Failing (n + 1) (ws ++ m.glance n ++ [true]) := by
  cases n with
  | zero =>
    obtain rfl : ws = [] := h
    cases m with
    | spinning s => exact ⟨[], rfl, rfl⟩
    | _ => rfl
  | succ n =>
    cases m with
    | spinning s =>
      obtain ⟨misses, hl, rfl⟩ := h
      exact ⟨misses ++ [.overtaken], by simp [hl], by simp [missed, glance, Miss.words]⟩
    | _ =>
      obtain rfl : ws = List.replicate (n + 1) true := h
      simp [Failing, glance, List.replicate_succ']

theorem Failing.look (h : m.Failing n ws) (hg : m.glance n = [false]) :
    m.Failing (n + 1) (ws ++ [true]) := by
  cases m with
  | spinning s =>
    cases n with
    | zero => cases hg
    | succ n =>
      obtain ⟨misses, hl, rfl⟩ := h
      exact ⟨misses ++ [.held], by simp [hl], by simp [missed, Miss.words]⟩
  | _ => cases hg

end Manner

structure Contender where
  manner : Manner
  approach : Approach
  /-- Whether the lock was held at each access, in order. -/
  found : List Bool
  /-- The attempts that failed, in order. -/
  failed : List Nat

namespace Contender

def idle : Contender := ⟨.once, .outside, [], []⟩

def call (m : Manner) : Contender := ⟨m, .grab 0, [], []⟩

def fail (c : Contender) (attempt : Nat) : Contender :=
  { c with approach := c.manner.again (attempt + 1), failed := c.failed ++ [attempt] }

def look (c : Contender) (attempt : Nat) (held : Bool) : Contender :=
  let c := { c with found := c.found ++ [held] }
  if held then c.fail attempt else { c with approach := .grab attempt }

def grab (c : Contender) (attempt : Nat) (held : Bool) : Contender :=
  let c := { c with found := c.found ++ [held] }
  if held then c.fail attempt else { c with approach := .inside }

def leave (c : Contender) : Contender := { c with approach := .outside }

theorem look_ne_inside (c : Contender) (attempt : Nat) (held : Bool) :
    (c.look attempt held).approach ≠ .inside := by
  cases held with
  | true => exact c.manner.again_ne_inside _
  | false => nofun

theorem grab_eq_inside_iff (c : Contender) (attempt : Nat) (held : Bool) :
    (c.grab attempt held).approach = .inside ↔ held = false := by
  cases held with
  | true => exact iff_of_false (c.manner.again_ne_inside _) nofun
  | false => exact iff_of_true rfl rfl

/-- What a thread that is here has found, if the failed attempts found `ws`. -/
def Fits (c : Contender) (n : Nat) (ws : List Bool) : Approach → Prop
  | .outside => True
  | .look attempt => attempt = n ∧ c.found = ws ∧ c.manner.glance n = [false]
  | .grab attempt => attempt = n ∧ c.found = ws ++ c.manner.glance n
  | .inside => c.found = ws ++ c.manner.glance n ++ [false]

/-- The first `n` attempts failed, with nothing else in between. -/
structure Kept (c : Contender) (n : Nat) (ws : List Bool) : Prop where
  failed : c.failed = List.range n
  failing : c.manner.Failing n ws
  fits : c.Fits n ws c.approach

variable {c : Contender} {n attempt : Nat} {ws : List Bool}

theorem kept_idle : idle.Kept 0 [] := ⟨rfl, rfl, trivial⟩

theorem kept_call (m : Manner) : (call m).Kept 0 [] := by
  refine ⟨rfl, ?_, rfl, ?_⟩
  · cases m <;> rfl
  · cases m <;> rfl

theorem Kept.fail (h : c.Kept n ws) {ws' : List Bool} (hf : c.manner.Failing (n + 1) ws') :
    ({ c with found := ws' }.fail n).Kept (n + 1) ws' := by
  refine ⟨?_, hf, ?_⟩
  · simp [Contender.fail, h.failed, List.range_succ]
  · rcases c with ⟨m, approach, found, failed⟩
    cases m with
    | spinning s => exact ⟨rfl, rfl, rfl⟩
    | consulting => exact ⟨rfl, (List.append_nil _).symm⟩
    | once => trivial

theorem Kept.look (h : c.Kept n ws) (ha : c.approach = .look attempt) (held : Bool) :
    ∃ n ws, (c.look attempt held).Kept n ws := by
  have hfits := h.fits
  rw [ha] at hfits
  obtain ⟨rfl, hfound, hg⟩ := hfits
  cases held with
  | true => exact ⟨_, _, h.fail (hfound ▸ h.failing.look hg)⟩
  | false => exact ⟨attempt, ws, h.failed, h.failing, rfl, by simp [Contender.look, hfound, hg]⟩

theorem Kept.grab (h : c.Kept n ws) (ha : c.approach = .grab attempt) (held : Bool) :
    ∃ n ws, (c.grab attempt held).Kept n ws := by
  have hfits := h.fits
  rw [ha] at hfits
  obtain ⟨rfl, hfound⟩ := hfits
  cases held with
  -- Behind a look that found the word free this is an attempt that was overtaken.
  | true => exact ⟨_, _, h.fail (hfound ▸ h.failing.grab)⟩
  | false => exact ⟨attempt, ws, h.failed, h.failing, by simp [Contender.grab, Fits, hfound]⟩

theorem Kept.leave (h : c.Kept n ws) : c.leave.Kept n ws := ⟨h.failed, h.failing, trivial⟩

theorem Kept.spun (h : c.Kept n ws) (ha : c.approach = .inside) {spinCount : Nat}
    (hm : c.manner = .spinning spinCount) :
    lockSpinning spinCount c.found = (c.failed.flatMap (onFailure spinCount), ⟨true⟩) := by
  have hfound := h.fits
  have hf := h.failing
  rw [ha] at hfound
  rw [Fits, hm] at hfound
  rw [hm] at hf
  rw [hfound, h.failed]
  cases n with
  | zero =>
    obtain rfl : ws = [] := hf
    exact lockSpinning_free spinCount []
  | succ n =>
    obtain ⟨misses, rfl, rfl⟩ := hf
    rw [List.append_assoc]
    exact lockSpinning_contended spinCount [] misses

theorem Kept.consulted (h : c.Kept n ws) (ha : c.approach = .inside)
    (hm : c.manner = .consulting) : lockConsulting 0 c.found = (c.failed, ⟨true⟩) := by
  have hfound := h.fits
  have hf := h.failing
  rw [ha] at hfound
  rw [Fits, hm] at hfound
  rw [hm] at hf
  have hws : ws = List.replicate n true := by
    cases n <;> exact hf
  have hg : Manner.consulting.glance n = [] := rfl
  rw [hfound, h.failed, hws, hg, List.append_nil]
  exact lockConsulting_contended n []

end Contender

end Spinlock

open Spinlock

/-- The word of a lock, and the threads, which are numbered. -/
structure Contest where
  word : Spinlock
  contender : Nat → Contender

namespace Contest

def start : Contest := ⟨.free, fun _ => .idle⟩

def Inside (w : Contest) (p : Nat) : Prop := (w.contender p).approach = .inside

def set (w : Contest) (p : Nat) (c : Contender) (l : Spinlock) : Contest :=
  ⟨l, Function.update w.contender p c⟩

def call (w : Contest) (p : Nat) (m : Manner) : Contest := w.set p (.call m) w.word

def look (w : Contest) (p attempt : Nat) : Contest :=
  w.set p ((w.contender p).look attempt w.word.locked) w.word

def grab (w : Contest) (p attempt : Nat) : Contest :=
  let (taken, l) := w.word.tryLock
  w.set p ((w.contender p).grab attempt !taken) l

def leave (w : Contest) (p : Nat) (l : Spinlock) : Contest := w.set p (w.contender p).leave l

inductive Move : Contest → Contest → Prop
  | call (w : Contest) (p : Nat) (m : Manner) (h : (w.contender p).approach = .outside) :
      Move w (w.call p m)
  | look (w : Contest) (p attempt : Nat) (h : (w.contender p).approach = .look attempt) :
      Move w (w.look p attempt)
  | grab (w : Contest) (p attempt : Nat) (h : (w.contender p).approach = .grab attempt) :
      Move w (w.grab p attempt)
  | leave (w : Contest) (p : Nat) (l : Spinlock) (h : w.Inside p) (hl : w.word.unlock = .ok l) :
      Move w (w.leave p l)

def Reachable : Contest → Prop := Relation.ReflTransGen Move start

/-- The word is set while a thread has the lock, and only one has it. -/
structure Orderly (w : Contest) : Prop where
  locked_iff : w.word.locked = true ↔ ∃ p, w.Inside p
  alone : ∀ p p', w.Inside p → w.Inside p' → p = p'
  kept : ∀ p, ∃ n ws, (w.contender p).Kept n ws

variable {w w' : Contest} {p : Nat} {c : Contender} {l : Spinlock}

theorem contender_set (p' : Nat) :
    (w.set p c l).contender p' = if p' = p then c else w.contender p' := by
  simp [set, Function.update_apply]

theorem inside_set_iff (p' : Nat) :
    (w.set p c l).Inside p' ↔ if p' = p then c.approach = .inside else w.Inside p' := by
  rw [Inside, contender_set]
  split <;> rfl

theorem not_inside {a : Approach} (h : (w.contender p).approach = a) (ha : a ≠ .inside) :
    ¬ w.Inside p := fun hi => ha (h.symm.trans hi)

namespace Orderly

theorem start : start.Orderly := by
  have hnone (p : Nat) : ¬ Contest.start.Inside p := nofun
  refine ⟨⟨nofun, fun ⟨p, hp⟩ => absurd hp (hnone p)⟩, fun p _ hp => absurd hp (hnone p), ?_⟩
  exact fun _ => ⟨0, [], Contender.kept_idle⟩

theorem kept_set (h : w.Orderly) (hc : ∃ n ws, c.Kept n ws) (p' : Nat) :
    ∃ n ws, ((w.set p c l).contender p').Kept n ws := by
  rw [contender_set]
  split
  · exact hc
  · exact h.kept p'

theorem outside (h : w.Orderly) (hp : ¬ w.Inside p) (hc : c.approach ≠ .inside)
    (hk : ∃ n ws, c.Kept n ws) (hl : l.locked = w.word.locked) : (w.set p c l).Orderly := by
  have hsame (p' : Nat) : (w.set p c l).Inside p' ↔ w.Inside p' := by
    rw [inside_set_iff]
    split
    · next he => exact ⟨fun hi => absurd hi hc, fun hi => absurd (he ▸ hi) hp⟩
    · exact Iff.rfl
  refine ⟨?_, fun p₁ p₂ h₁ h₂ => ?_, h.kept_set hk⟩
  · rw [set, hl, h.locked_iff]
    exact exists_congr fun p' => (hsame p').symm
  · exact h.alone p₁ p₂ ((hsame p₁).mp h₁) ((hsame p₂).mp h₂)

theorem enter (h : w.Orderly) (hw : w.word.locked = false) (hc : c.approach = .inside)
    (hk : ∃ n ws, c.Kept n ws) : (w.set p c ⟨true⟩).Orderly := by
  have hnone (p' : Nat) : ¬ w.Inside p' := fun hp' => by
    simpa [hw] using h.locked_iff.mpr ⟨p', hp'⟩
  have honly (p' : Nat) : (w.set p c ⟨true⟩).Inside p' ↔ p' = p := by
    rw [inside_set_iff]
    split
    · next he => exact iff_of_true hc he
    · next hne => exact iff_of_false (hnone p') hne
  refine ⟨⟨fun _ => ⟨p, (honly p).mpr rfl⟩, fun _ => rfl⟩, fun p₁ p₂ h₁ h₂ => ?_, h.kept_set hk⟩
  exact ((honly p₁).mp h₁).trans ((honly p₂).mp h₂).symm

theorem giveBack (h : w.Orderly) (hp : w.Inside p) (hc : c.approach ≠ .inside)
    (hk : ∃ n ws, c.Kept n ws) : (w.set p c .free).Orderly := by
  have hnone (p' : Nat) : ¬ (w.set p c .free).Inside p' := by
    rw [inside_set_iff]
    split
    · exact hc
    · next hne => exact fun hp' => hne (h.alone p' p hp' hp)
  refine ⟨⟨nofun, fun ⟨p', hp'⟩ => absurd hp' (hnone p')⟩, fun p₁ _ h₁ => ?_, h.kept_set hk⟩
  exact absurd h₁ (hnone p₁)

theorem unlock_eq (h : w.Orderly) (hp : w.Inside p) : w.word.unlock = .ok .free := by
  have hl := h.locked_iff.mpr ⟨p, hp⟩
  simp [unlock, hl]

theorem step (h : w.Orderly) (st : Move w w') : w'.Orderly := by
  cases st with
  | call p m hp =>
    have hc : (Contender.call m).approach ≠ .inside := by simp [Contender.call]
    exact h.outside (not_inside hp (by simp)) hc ⟨0, [], Contender.kept_call m⟩ rfl
  | look p attempt hp =>
    obtain ⟨n, ws, hk⟩ := h.kept p
    have hc := (w.contender p).look_ne_inside attempt w.word.locked
    exact h.outside (not_inside hp (by simp)) hc (hk.look hp _) rfl
  | grab p attempt hp =>
    obtain ⟨n, ws, hk⟩ := h.kept p
    have hk' := hk.grab hp (!w.word.tryLock.1)
    have hin := (w.contender p).grab_eq_inside_iff attempt (!w.word.tryLock.1)
    cases hw : w.word.locked with
    | true =>
      -- Whoever sets a word that is set already leaves it as it is.
      refine h.outside (not_inside hp (by simp)) (fun hi => ?_) hk' (by simp [hw])
      have hfree : (!w.word.tryLock.1) = false := hin.mp hi
      simp [tryLock, hw] at hfree
    | false => exact h.enter hw (hin.mpr (by simp [tryLock, hw])) hk'
  | leave p l hp hl =>
    rw [h.unlock_eq hp] at hl
    obtain rfl : Spinlock.free = l := Except.ok.inj hl
    obtain ⟨n, ws, hk⟩ := h.kept p
    exact h.giveBack hp (by simp [Contender.leave]) ⟨n, ws, hk.leave⟩

end Orderly

theorem Reachable.orderly (h : w.Reachable) : w.Orderly := by
  have hr : Relation.ReflTransGen Move Contest.start w := h
  induction hr with
  | refl => exact .start
  | tail hr st ih => exact (ih hr).step st

/-- The word is set because thread `p` found it free and set it, and no other thread has the lock.
The call did about the attempts that failed what it does by itself when it finds the same. -/
structure HeldBy (w : Contest) (p : Nat) : Prop where
  locked : w.word.locked = true
  alone : ∀ p', w.Inside p' → p' = p
  last : (w.contender p).found.getLast? = some false
  failed : (w.contender p).failed = List.range (w.contender p).failed.length
  spun : ∀ spinCount, (w.contender p).manner = .spinning spinCount →
    lockSpinning spinCount (w.contender p).found =
      ((w.contender p).failed.flatMap (onFailure spinCount), w.word)
  consulted : (w.contender p).manner = .consulting →
    lockConsulting 0 (w.contender p).found = ((w.contender p).failed, w.word)
  unlock : w.word.unlock = .ok .free

theorem Orderly.heldBy (h : w.Orderly) (hp : w.Inside p) : w.HeldBy p := by
  have hl := h.locked_iff.mpr ⟨p, hp⟩
  have hw : w.word = ⟨true⟩ := congrArg Spinlock.mk hl
  obtain ⟨n, ws, hk⟩ := h.kept p
  have hfits := hk.fits
  rw [hp] at hfits
  refine ⟨hl, fun p' hp' => h.alone p' p hp' hp, ?_, ?_, fun s hm => ?_, fun hm => ?_,
    h.unlock_eq hp⟩
  · rw [hfits]
    simp
  · simp [hk.failed]
  · rw [hw]
    exact hk.spun hp hm
  · rw [hw]
    exact hk.consulted hp hm

/-- When the first attempt and all of `misses` fail and the next one finds the lock free, a policy
is consulted about each of the failed attempts, in order. A thread that spins waits once for each
of them: it spins first, and reports once before it yields. When the first attempt finds the lock
free, nothing is waited for. In any contest a thread whose call came back has the lock. -/
theorem lock_traces_agree (spinCount : Nat) (misses : List Miss) (rest : List Bool) :
    let k := misses.length
    let consulting := lockConsulting 0 (List.replicate (k + 1) true ++ false :: rest)
    let spinning := lockSpinning spinCount (missed misses ++ false :: false :: rest)
    consulting = (List.range (k + 1), ⟨true⟩) ∧ spinning.2 = ⟨true⟩ ∧
    spinning.1.filterMap LockStep.wait? =
      consulting.1.map (fun attempt => .ofAttempt attempt spinCount) ∧
    spinning.1 = List.replicate (min (k + 1) spinCount) (.wait .spin) ++
      ((if spinCount ≤ k then [.report (.contended spinCount)] else []) ++
        List.replicate (k + 1 - spinCount) (.wait .yield)) ∧
    lockSpinning spinCount (false :: rest) = ([], ⟨true⟩) ∧
    lockConsulting 0 (false :: rest) = ([], ⟨true⟩) ∧
    ∀ (w : Contest) (p : Nat), w.Reachable → w.Inside p → w.HeldBy p := by
  intro k consulting spinning
  have hconsulting : consulting = (List.range (k + 1), ⟨true⟩) :=
    lockConsulting_contended (k + 1) rest
  have hspinning : spinning = (onFailures spinCount (k + 1), ⟨true⟩) :=
    lockSpinning_contended spinCount rest misses
  refine ⟨hconsulting, by rw [hspinning], ?_, ?_, lockSpinning_free spinCount rest,
    lockConsulting_contended 0 rest, fun w p hw hp => hw.orderly.heldBy hp⟩
  · rw [hspinning, hconsulting, filterMap_wait_onFailures]
  · simp only [hspinning, onFailures_eq, Nat.lt_succ_iff]

/-- Thread 1 finds the lock held at first. It sees that thread 0 gives it back, but thread 2 is
faster. -/
def contended : Contest :=
  let w := ((start.call 0 .once).grab 0 0).call 1 (.spinning 1)
  let w := (((w.grab 1 0).look 1 1).leave 0 .free).look 1 2
  let w := (((w.call 2 .consulting).grab 2 0).grab 1 2).leave 2 .free
  (w.look 1 3).grab 1 3

theorem reachable_contended : contended.Reachable := by
  have step {w w' : Contest} (h : w.Reachable) (st : Move w w') : w'.Reachable :=
    Relation.ReflTransGen.tail h st
  have h₁ := step .refl (.call _ 0 .once rfl)
  have h₂ := step h₁ (.grab _ 0 0 rfl)
  have h₃ := step h₂ (.call _ 1 (.spinning 1) rfl)
  have h₄ := step h₃ (.grab _ 1 0 rfl)
  have h₅ := step h₄ (.look _ 1 1 rfl)
  have h₆ := step h₅ (.leave _ 0 .free rfl rfl)
  have h₇ := step h₆ (.look _ 1 2 rfl)
  have h₈ := step h₇ (.call _ 2 .consulting rfl)
  have h₉ := step h₈ (.grab _ 2 0 rfl)
  have h₁₀ := step h₉ (.grab _ 1 2 rfl)
  have h₁₁ := step h₁₀ (.leave _ 2 .free rfl rfl)
  have h₁₂ := step h₁₁ (.look _ 1 3 rfl)
  exact step h₁₂ (.grab _ 1 3 rfl)

theorem heldBy_contended : contended.Reachable ∧ contended.Inside 1 ∧ contended.HeldBy 1 ∧
    (contended.contender 1).found = missed [.held, .overtaken] ++ [false, false] ∧
    (lockSpinning 1 (missed [.held, .overtaken] ++ [false, false])).1 =
      [.wait .spin, .report (.contended 1), .wait .yield, .wait .yield] := by
  obtain ⟨-, -, -, htrace, -, -, hheld⟩ := lock_traces_agree 1 [.held, .overtaken] []
  exact ⟨reachable_contended, rfl, hheld contended 1 reachable_contended rfl, rfl, htrace⟩

end Contest

end LinkedQueues

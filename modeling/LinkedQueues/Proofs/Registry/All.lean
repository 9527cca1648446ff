import LinkedQueues.Proofs.Registry

/-!
Properties that the queues of a registry have in common, each with its owner. A queue that stays
where it is keeps them, and so it is enough to look at the queues that come or change hands.
-/
namespace LinkedQueues

def Owner.isShared : Owner → Bool
  | .name _ => false
  | .shared _ => true

namespace Registry

variable {Q : Type} {P P' : Owner → Q → Prop} {r r' : Registry Q} {name into : String} {id : Nat}
  {o : Owner} {q d : Q}

def All (P : Owner → Q → Prop) (r : Registry Q) : Prop := ∀ o q, r.at? o = some q → P o q

namespace All

theorem of_within {X : Owner → Option Q} (hw : Within r.at? X) (hX : ∀ o q, X o = some q → P o q) :
    All P r := fun o q hq => hX o q (hw o q hq)

theorem of_update {X : Owner → Option Q} {d : Option Q}
    (hX : ∀ p q, p ≠ o → X p = some q → P p q) (hd : ∀ q ∈ d, P o q) (p : Owner) (q : Q)
    (hq : Function.update X o d p = some q) : P p q := by
  by_cases hp : p = o
  · subst hp
    rw [Function.update_self] at hq
    exact hd q hq
  · rw [Function.update_of_ne hp] at hq
    exact hX p q hp hq

theorem empty : All P (empty : Registry Q) := fun o q hq => by
  rw [at?_empty] at hq
  cases hq

theorem iff_queues {P : Q → Prop} : All (fun _ => P) r ↔ ∀ q ∈ r.queues, P q := by
  constructor
  · intro ha q hq
    obtain ⟨o, ho⟩ := mem_queues_iff.mp hq
    exact ha o q ho
  · intro ha o q ho
    exact ha q (mem_queues_iff.mpr ⟨o, ho⟩)

theorem mono (ha : All P r) (hP : ∀ o q, P o q → P' o q) : All P' r :=
  fun o q hq => hP o q (ha o q hq)

theorem queue? (ha : All P r) (hq : r.queue? name = some q) : ∃ o, P o q := by
  obtain ⟨o, -, ho⟩ := exists_owner hq
  exact ⟨o, ha o q ho⟩

theorem owned? (ha : All P r) (hq : r.owned? name = some q) : P (.name name) q := ha _ q hq

theorem vacate (ha : All P r) (name : String) : All P (r.vacate name) := by
  refine of_within (X := r.at?) ?_ ha
  rw [at?_vacate]
  exact Within.update_none _ _

theorem place (ha : All P r) (hq : P (.name name) q) : All P (r.place name (.owned q)).2 :=
  of_within (place_within r name (.owned q))
    (of_update (fun o q _ => ha o q) (by simpa [Holding.queue?] using hq))

theorem setQueue_of_others (howner : r.owner? name = some o) (ho : r.at? o = some q)
    (hothers : ∀ p d, p ≠ o → r.at? p = some d → P p d) (hd : P o d) :
    All P (r.setQueue name d) := by
  intro p c hc
  rw [at?_setQueue howner ho] at hc
  exact of_update hothers (by simpa using hd) p c hc

theorem setQueue (ha : All P r) (hq : r.queue? name = some q) (hd : ∀ o, P o q → P o d) :
    All P (r.setQueue name d) := by
  obtain ⟨o, howner, ho⟩ := exists_owner hq
  exact setQueue_of_others howner ho (fun p c _ hc => ha p c hc) (hd o (ha o q ho))

theorem dispose (ha : All P r) (name : String) : All P (r.dispose name).2 :=
  of_within (dispose_within r name) ha

theorem split (ha : All P r) (hq : P (.shared r.fresh) q) (name producer consumer : String) :
    All P (r.split name q producer consumer).2 := by
  refine of_within (split_within r name q producer consumer)
    (of_update (fun o d _ => ?_) (by simpa using hq))
  exact of_update (fun o d _ => ha o d) (by simp) o d

theorem clone (ha : All P r) (id : Nat) (into : String) : All P (r.clone id into).2 :=
  of_within (clone_within r id into) ha

theorem unshare {gone : List Q} (ha : All P r) (hu : r.unshare name id into = some (gone, r'))
    (hq : ∀ q, P (.shared id) q → P (.name into) q) : All P r' := by
  obtain ⟨q, hat, hw⟩ := unshare_within hu
  refine of_within hw (of_update (fun o d _ => ?_) (by simpa using hq q (ha _ q hat)))
  exact of_update (fun o d _ => ha o d) (by simp) o d

end All

end Registry

end LinkedQueues

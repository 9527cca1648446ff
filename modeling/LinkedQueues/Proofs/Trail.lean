import Mathlib.Data.List.Basic
import Mathlib.Data.List.Nodup

/-!
Walks along links. A trail lists the cells that one passes from a start on, and where one arrives.
A trail that arrives nowhere is determined by its start, and passes no cell twice.
-/
namespace LinkedQueues

variable {κ : Type}

/-- Following `next` from `a` passes exactly the listed cells, in this order, and arrives at `b`. -/
def Trail (next : κ → Option κ) : Option κ → List κ → Option κ → Prop
  | a, [], b => a = b
  | a, k :: ks, b => a = some k ∧ Trail next (next k) ks b

namespace Trail

variable {next next' : κ → Option κ} {a b : Option κ} {ks ls : List κ} {k t n : κ}

@[simp] theorem nil_iff : Trail next a [] b ↔ a = b := Iff.rfl

@[simp] theorem cons_iff : Trail next a (k :: ks) b ↔ a = some k ∧ Trail next (next k) ks b :=
  Iff.rfl

theorem append_iff : Trail next a (ks ++ ls) b ↔ ∃ c, Trail next a ks c ∧ Trail next c ls b := by
  induction ks generalizing a with
  | nil => simp
  | cons k ks ih => simp [ih, and_assoc]

theorem congr (h : Trail next a ks b) (same : ∀ k ∈ ks, next' k = next k) : Trail next' a ks b := by
  induction ks generalizing a with
  | nil => exact h
  | cons k ks ih =>
    refine ⟨h.1, ?_⟩
    rw [same k (by simp)]
    exact ih h.2 (fun l hl => same l (by simp [hl]))

/-- The start of a trail that arrives nowhere is its first cell. -/
theorem start_eq (h : Trail next a ks none) : a = ks.head? := by
  cases ks with
  | nil => exact h
  | cons k ks => exact h.1

theorem unique (hk : Trail next a ks none) (hl : Trail next a ls none) : ks = ls := by
  induction ks generalizing a ls with
  | nil =>
    have ha : a = none := hk
    cases ls with
    | nil => rfl
    | cons l ls => simp [ha] at hl
  | cons k ks ih =>
    cases ls with
    | nil => simp_all
    | cons l ls =>
      have he : k = l := Option.some.inj (hk.1.symm.trans hl.1)
      subst he
      rw [ih hk.2 hl.2]

/-- A cell that comes twice would be followed by two different rests. -/
theorem nodup (h : Trail next a ks none) : ks.Nodup := by
  induction ks generalizing a with
  | nil => exact List.nodup_nil
  | cons k ks ih =>
    refine List.nodup_cons.mpr ⟨fun hm => ?_, ih h.2⟩
    obtain ⟨xs, ys, rfl⟩ := List.append_of_mem hm
    obtain ⟨c, -, -, hy⟩ := append_iff.mp h.2
    have he := congrArg List.length (h.2.unique hy)
    simp at he
    omega

/-- The cells of a trail that arrives nowhere determine its links. -/
theorem next_eq (h : Trail next a ks none) (h' : Trail next' b ks none) (hk : k ∈ ks) :
    next' k = next k := by
  induction ks generalizing a b with
  | nil => cases hk
  | cons l ks ih =>
    rcases List.mem_cons.mp hk with rfl | hk
    · rw [h.2.start_eq, h'.2.start_eq]
    · exact ih h.2 h'.2 hk

/-- Only the last cell of a trail that arrives nowhere leads nowhere. -/
theorem next_eq_none_iff (h : Trail next a ks none) (hk : k ∈ ks) :
    next k = none ↔ ks.getLast? = some k := by
  induction ks generalizing a with
  | nil => cases hk
  | cons l ks ih =>
    have hd := (List.nodup_cons.mp h.nodup).1
    have hl := h.2.start_eq
    cases ks with
    | nil =>
      obtain rfl := List.mem_singleton.mp hk
      simpa using hl
    | cons l' ks =>
      rw [List.getLast?_cons_cons]
      rcases List.mem_cons.mp hk with rfl | hk
      · rw [hl]
        exact ⟨fun hn => by simp at hn, fun hm => absurd (List.mem_of_getLast? hm) hd⟩
      · exact ih h.2 hk

/-- Nothing on a trail leads back to its first cell. -/
theorem next_ne_first (h : Trail next (some k) (k :: ks) none) (ht : t ∈ k :: ks) :
    next t ≠ some k := by
  intro he
  obtain ⟨xs, ys, hs⟩ := List.append_of_mem ht
  have hk := (List.nodup_cons.mp h.nodup).1
  rw [hs] at h
  obtain ⟨c, -, -, hy⟩ := append_iff.mp h
  have hsub : ys ⊆ ks := by
    have htail := congrArg List.tail hs
    rw [List.tail_cons] at htail
    rw [htail]
    cases xs <;> simp
  exact hk (hsub (List.mem_of_head? (by rw [← hy.start_eq, he])))

theorem extend (h : Trail next a ks none) (last : ks.getLast? = some t)
    (same : ∀ k ∈ ks, k ≠ t → next' k = next k) (hl : Trail next' (next' t) ls b) :
    Trail next' a (ks ++ ls) b := by
  obtain ⟨front, rfl⟩ := List.getLast?_eq_some_iff.mp last
  have hd := h.nodup
  obtain ⟨c, hf, rfl, -⟩ := append_iff.mp h
  have hf' : Trail next' a front (some t) := by
    refine hf.congr fun k hk => same k (by simp [hk]) ?_
    rintro rfl
    simp [List.nodup_append] at hd
    exact hd.2 _ hk rfl
  rw [List.append_assoc, append_iff]
  exact ⟨some t, hf', rfl, hl⟩

theorem snoc (h : Trail next a ks none) (last : ks.getLast? = some t)
    (same : ∀ k ∈ ks, k ≠ t → next' k = next k) (ht : next' t = some n) (hn : next' n = none) :
    Trail next' a (ks ++ [n]) none :=
  h.extend last same ⟨ht, hn⟩

end Trail

end LinkedQueues

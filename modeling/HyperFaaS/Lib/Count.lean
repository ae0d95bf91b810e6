import Mathlib.Data.Nat.Count
import Mathlib.Algebra.BigOperators.Group.Finset.Basic
import Mathlib.Algebra.BigOperators.Intervals
import Mathlib.Algebra.BigOperators.Ring.Finset
import Mathlib.Algebra.Order.Ring.Int

/-!
Counting over the first `n` indices of a table when one entry changes. The
tables of the models are functions on `Nat` with a size, their counters are
integers, so the lemmas say by how much a count or a sum moves.
-/

namespace Lib

open Function

variable {n i k m : Nat}

theorem count_congr {p q : Nat → Prop} [DecidablePred p] [DecidablePred q]
    (h : ∀ j, j < n → (p j ↔ q j)) : Nat.count p n = Nat.count q n := by
  induction n with
  | zero => simp
  | succ n ih =>
    have hn := h n (by omega)
    rw [Nat.count_succ, Nat.count_succ, ih (fun j hj => h j (by omega))]
    by_cases hp : p n
    · simp [hp, hn.mp hp]
    · simp [hp, mt hn.mpr hp]

theorem count_join {p q : Nat → Prop} [DecidablePred p] [DecidablePred q] (hi : i < n) (hp : ¬ p i)
    (hq : q i) (h : ∀ j, j ≠ i → (q j ↔ p j)) : Nat.count q n = Nat.count p n + 1 := by
  induction n with
  | zero => omega
  | succ n ih =>
    rw [Nat.count_succ, Nat.count_succ]
    by_cases hin : i = n
    · subst hin
      have hc : Nat.count q i = Nat.count p i := count_congr (fun j hj => h j (by omega))
      simp [hp, hq, hc]
    · rw [ih (by omega)]
      have hn := h n (by omega)
      by_cases hpn : p n
      · simp [hpn, hn.mpr hpn]
      · simp [hpn, mt hn.mp hpn]

theorem count_leave {p q : Nat → Prop} [DecidablePred p] [DecidablePred q] (hi : i < n) (hp : p i)
    (hq : ¬ q i) (h : ∀ j, j ≠ i → (q j ↔ p j)) : Nat.count p n = Nat.count q n + 1 :=
  count_join hi hq hp (fun j hj => (h j hj).symm)

theorem count_pos {p : Nat → Prop} [DecidablePred p] (hi : i < n) (hp : p i) : 0 < Nat.count p n :=
  Nat.pos_of_ne_zero (Nat.count_ne_iff_exists.mpr ⟨i, hi, hp⟩)

theorem count_grow {p q : Nat → Prop} [DecidablePred p] [DecidablePred q] (hq : ¬ q n)
    (h : ∀ j, j < n → (q j ↔ p j)) : Nat.count q (n + 1) = Nat.count p n := by
  rw [Nat.count_succ, count_congr h]
  simp [hq]

theorem count_update {p q : Nat → Bool} (hi : i < n) (h : ∀ j, j ≠ i → q j = p j) :
    Nat.count (fun j => q j = true) n + (p i).toNat =
      Nat.count (fun j => p j = true) n + (q i).toNat := by
  by_cases same : q i = p i
  · have hqp : q = p := by
      funext j
      by_cases hj : j = i
      · rw [hj, same]
      · exact h j hj
    rw [hqp]
  · cases hp : p i with
    | false =>
      have hq : q i = true := by simpa [hp] using same
      have hc := count_join (p := fun j => p j = true) (q := fun j => q j = true) hi
        (by simp [hp]) hq (fun j hj => by rw [h j hj])
      simp [hc, hq]
    | true =>
      have hq : q i = false := by simpa [hp] using same
      have hc := count_leave (p := fun j => p j = true) (q := fun j => q j = true) hi hp
        (by simp [hq]) (fun j hj => by rw [h j hj])
      simp [hc, hq]

theorem count_update_two {p q : Nat → Bool} (hi : i < n) (hk : k < n) (hik : i ≠ k)
    (h : ∀ j, j ≠ i → j ≠ k → q j = p j) :
    Nat.count (fun j => q j = true) n + (p i).toNat + (p k).toNat =
      Nat.count (fun j => p j = true) n + (q i).toNat + (q k).toNat := by
  have h1 := count_update (p := p) (q := update p i (q i)) hi
    (fun j hj => update_of_ne hj _ _)
  have h2 := count_update (p := update p i (q i)) (q := q) hk (by
    intro j hj
    by_cases hji : j = i
    · rw [hji, update_self]
    · rw [update_of_ne hji, h j hji hj])
  rw [update_self] at h1
  rw [update_of_ne hik.symm] at h2
  omega

theorem count_beyond {p : Nat → Bool} (hnm : n ≤ m) (hp : ∀ j, n ≤ j → p j = false) :
    Nat.count (fun j => p j = true) m = Nat.count (fun j => p j = true) n := by
  induction m, hnm using Nat.le_induction with
  | base => rfl
  | succ m hm ih => simp [Nat.count_succ, ih, hp m hm]

/-- One index changes, and the table may grow or shrink by entries that are not
counted. -/
theorem count_move {p q : Nat → Bool} (hp : ∀ j, n ≤ j → p j = false)
    (hq : ∀ j, m ≤ j → q j = false) (h : ∀ j, j ≠ i → q j = p j) :
    Nat.count (fun j => q j = true) m + (p i).toNat =
      Nat.count (fun j => p j = true) n + (q i).toNat := by
  have hc := count_update (n := max (max n m) (i + 1)) (by omega) h
  rwa [count_beyond (by omega) hp, count_beyond (by omega) hq] at hc

theorem count_move_two {p q : Nat → Bool} (hp : ∀ j, n ≤ j → p j = false)
    (hq : ∀ j, m ≤ j → q j = false) (hik : i ≠ k) (h : ∀ j, j ≠ i → j ≠ k → q j = p j) :
    Nat.count (fun j => q j = true) m + (p i).toNat + (p k).toNat =
      Nat.count (fun j => p j = true) n + (q i).toNat + (q k).toNat := by
  have hc := count_update_two (n := max (max n m) (max i k + 1)) (by omega) (by omega) hik h
  rwa [count_beyond (by omega) hp, count_beyond (by omega) hq] at hc

theorem sum_count_some (f : Nat → Option Nat) (n m : Nat)
    (h : ∀ t, t < n → ∀ i, f t = some i → i < m) :
    ∑ i ∈ Finset.range m, Nat.count (fun t => decide (f t = some i) = true) n =
      Nat.count (fun t => (f t).isSome = true) n := by
  induction n with
  | zero => simp
  | succ n ih =>
    have ih := ih (fun t ht => h t (by omega))
    simp only [Nat.count_succ, Finset.sum_add_distrib, ih]
    cases hf : f n with
    | none => simp
    | some k =>
      have hk : k < m := h n (by omega) k hf
      simp [Finset.sum_ite_eq, hk]

theorem sum_change {f g : Nat → Int} (hi : i < n) (h : ∀ j, j ≠ i → g j = f j) :
    ∑ j ∈ Finset.range n, g j = ∑ j ∈ Finset.range n, f j + (g i - f i) := by
  induction n with
  | zero => omega
  | succ n ih =>
    rw [Finset.sum_range_succ, Finset.sum_range_succ]
    by_cases hin : i = n
    · subst hin
      have hs : ∑ j ∈ Finset.range i, g j = ∑ j ∈ Finset.range i, f j := by
        apply Finset.sum_congr rfl
        intro j hj
        exact h j (by have := Finset.mem_range.mp hj; omega)
      rw [hs]
      omega
    · rw [ih (by omega), h n (by omega)]
      omega

theorem sum_update {f g : Nat → Nat} (hi : i < n) (h : ∀ j, j ≠ i → g j = f j) :
    ∑ j ∈ Finset.range n, g j + f i = ∑ j ∈ Finset.range n, f j + g i := by
  have hc := sum_change (f := fun j => (f j : Int)) (g := fun j => (g j : Int)) hi
    (fun j hj => by simp only [h j hj])
  rw [← Nat.cast_sum, ← Nat.cast_sum] at hc
  omega

theorem count_le_length {p : Nat → Prop} [DecidablePred p] (g : Nat → Nat) {l : List Nat}
    (hmem : ∀ j, j < n → p j → g j ∈ l)
    (hinj : ∀ i j, i < n → j < n → p i → p j → g i = g j → i = j) : Nat.count p n ≤ l.length := by
  rw [Nat.count_eq_card_filter_range]
  have hcard : ((Finset.range n).filter p).card ≤ l.toFinset.card := by
    apply Finset.card_le_card_of_injOn g
    · intro j hj
      simp only [Finset.mem_coe, Finset.mem_filter, Finset.mem_range] at hj
      simpa using hmem j hj.1 hj.2
    · intro i hi j hj heq
      simp only [Finset.mem_coe, Finset.mem_filter, Finset.mem_range] at hi hj
      exact hinj i j hi.1 hj.1 hi.2 hj.2 heq
  exact hcard.trans (List.toFinset_card_le l)

/-- One entry of a table changes: some entry has `P` if the changed one has it or another. -/
theorem exists_moved {α : Type} {P : α → Prop} {g g' : Nat → α} {j : Nat} {x : α}
    (h : g' = update g j x) : ∃ others : Prop,
      ((∃ i, P (g i)) ↔ P (g j) ∨ others) ∧ ((∃ i, P (g' i)) ↔ P x ∨ others) := by
  subst h
  refine ⟨∃ i, i ≠ j ∧ P (g i), by grind, ?_, ?_⟩
  · rintro ⟨i, hi⟩
    grind [update_apply]
  · rintro (hx | ⟨i, hij, hi⟩)
    · exact ⟨j, by rwa [update_self]⟩
    · exact ⟨i, by rwa [update_of_ne hij]⟩

end Lib

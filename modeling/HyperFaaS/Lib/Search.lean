import Mathlib.Data.List.Sort

/-!
Finding the first element of a sorted list. Proved here:

* `getElem?_search`: a binary search over the indices finds what a walk from the
  front would find, on any list where the predicate stays true once it is true;
* `filter_insertionSort`: dropping elements before or after sorting is the same.
-/

namespace Lib

/-- The loop of a binary search for the first index where `p` holds; the first
argument bounds the turns that are left. -/
def searchFrom (p : Nat → Bool) : Nat → Nat → Nat → Nat
  | 0, lo, _ => lo
  | n + 1, lo, hi =>
      if lo < hi then
        if p ((lo + hi) / 2) then searchFrom p n lo ((lo + hi) / 2)
        else searchFrom p n ((lo + hi) / 2 + 1) hi
      else lo

def search (n : Nat) (p : Nat → Bool) : Nat := searchFrom p n 0 n

theorem searchFrom_le (p : Nat → Bool) (n : Nat) {lo hi : Nat} (h : lo ≤ hi) :
    searchFrom p n lo hi ≤ hi := by
  induction n generalizing lo hi with
  | zero => exact h
  | succ n ih =>
    rw [searchFrom]
    split_ifs with hlt
    · exact (ih (by omega)).trans (by omega)
    · exact ih (by omega)
    · exact h

theorem search_le (n : Nat) (p : Nat → Bool) : search n p ≤ n := searchFrom_le p n (Nat.zero_le n)

/-- Below `n`, `p` fails before `lo` and holds from `hi` on. -/
structure Cuts (p : Nat → Bool) (n lo hi : Nat) : Prop where
  below : ∀ i, i < lo → p i = false
  above : ∀ i, hi ≤ i → i < n → p i = true

theorem searchFrom_cuts {p : Nat → Bool} {N : Nat}
    (hp : ∀ i j, i ≤ j → j < N → p i = true → p j = true) (n : Nat) {lo hi : Nat} (hle : lo ≤ hi)
    (hhi : hi ≤ N) (hn : hi - lo ≤ n) (h : Cuts p N lo hi) :
    Cuts p N (searchFrom p n lo hi) (searchFrom p n lo hi) := by
  induction n generalizing lo hi with
  | zero =>
    obtain rfl : lo = hi := by omega
    exact h
  | succ n ih =>
    rw [searchFrom]
    split_ifs with hlt hmid
    · refine ih (by omega) (by omega) (by omega) ⟨h.below, fun i hi' hiN => ?_⟩
      exact hp _ i hi' hiN hmid
    · refine ih (by omega) hhi (by omega) ⟨fun i hi' => ?_, h.above⟩
      -- an index up to the middle where `p` held would make it hold in the middle
      rw [← Bool.not_eq_true]
      exact fun hpi => hmid (hp i _ (by omega) (by omega) hpi)
    · obtain rfl : lo = hi := by omega
      exact h

variable {α : Type}

theorem getElem?_search (q : α → Bool) {l : List α}
    (h : l.Pairwise fun x y => q x = true → q y = true) :
    l[search l.length fun i => (l[i]?).any q]? = l.find? q := by
  have hat : ∀ i, (hi : i < l.length) → (l[i]?).any q = q l[i] := by
    intro i hi
    rw [List.getElem?_eq_getElem hi, Option.any_some]
  have hmono : ∀ i j, i ≤ j → j < l.length → (l[i]?).any q = true → (l[j]?).any q = true := by
    intro i j hij hj hpi
    rw [hat i (by omega)] at hpi
    rw [hat j hj]
    rcases Nat.lt_or_eq_of_le hij with hlt | rfl
    · exact List.pairwise_iff_getElem.mp h i j (by omega) hj hlt hpi
    · exact hpi
  have hcut := searchFrom_cuts hmono l.length (Nat.zero_le _) le_rfl (by omega)
    (⟨fun i hi => absurd hi (Nat.not_lt_zero i), fun i hi hi' => absurd hi' (by omega)⟩ :
      Cuts _ l.length 0 l.length)
  change l[searchFrom _ l.length 0 l.length]? = _
  generalize searchFrom _ l.length 0 l.length = k at hcut ⊢
  by_cases hk : k < l.length
  · rw [List.getElem?_eq_getElem hk, eq_comm, List.find?_eq_some_iff_getElem]
    refine ⟨(hat k hk).symm.trans (hcut.above k le_rfl hk), k, hk, rfl, fun i hik => ?_⟩
    rw [← hat i (by omega), hcut.below i hik]
    rfl
  · rw [List.getElem?_eq_none (by omega), eq_comm, List.find?_eq_none]
    intro x hx
    obtain ⟨i, hi, rfl⟩ := List.getElem_of_mem hx
    rw [← hat i hi, hcut.below i (by omega)]
    exact Bool.false_ne_true

theorem filter_insertionSort (r : α → α → Prop) [DecidableRel r] [Std.Total r] [IsTrans α r]
    [Std.Antisymm r] (q : α → Bool) (l : List α) :
    (l.insertionSort r).filter q = (l.filter q).insertionSort r := by
  refine List.Perm.eq_of_pairwise' ((List.pairwise_insertionSort r l).filter q)
    (List.pairwise_insertionSort r _) ?_
  exact ((List.perm_insertionSort r l).filter q).trans (List.perm_insertionSort r _).symm

end Lib

import Mathlib.Data.List.InsertIdx
import Mathlib.Data.List.Pairwise
import Mathlib.Order.Lattice
import Mathlib.Order.Nat

/-!
Lists sorted strictly by a key, edited at the position a binary search finds.
Proved here:

* `lowerBound_split`: the search cuts a sorted list where the key belongs;
* `mem_put`, `mem_erase`: what an edit there does to the members;
* `Sorted.put`, `Sorted.erase`: the list stays sorted.
-/

namespace Lib

variable {α : Type} {key : α → Nat} {l : List α} {k : Nat} {x y : α}

def Sorted (key : α → Nat) (l : List α) : Prop := l.Pairwise fun x y => key x < key y

/-- The loop of a binary search for the first key that is at least `k`; the
first argument bounds the turns that are left. -/
def searchLoop (key : α → Nat) (l : List α) (k : Nat) : Nat → Nat → Nat → Nat
  | 0, lo, _ => lo
  | n + 1, lo, hi =>
      if lo < hi then
        match l[(lo + hi) / 2]? with
        | some x =>
            if key x < k then searchLoop key l k n ((lo + hi) / 2 + 1) hi
            else searchLoop key l k n lo ((lo + hi) / 2)
        | none => lo
      else lo

def lowerBound (key : α → Nat) (l : List α) (k : Nat) : Nat :=
  searchLoop key l k l.length 0 l.length

/-- What the loop keeps: below `lo` the keys are small, from `hi` on they are not. -/
structure Between (key : α → Nat) (l : List α) (k lo hi : Nat) : Prop where
  le : lo ≤ hi
  length : hi ≤ l.length
  below : ∀ i x, l[i]? = some x → i < lo → key x < k
  above : ∀ i x, l[i]? = some x → hi ≤ i → k ≤ key x

theorem Sorted.lt (h : Sorted key l) {i j : Nat} (hi : l[i]? = some x) (hj : l[j]? = some y)
    (hij : i < j) : key x < key y := by
  obtain ⟨hil, rfl⟩ := List.getElem?_eq_some_iff.mp hi
  obtain ⟨hjl, rfl⟩ := List.getElem?_eq_some_iff.mp hj
  exact List.pairwise_iff_getElem.mp h i j hil hjl hij

theorem searchLoop_between (hs : Sorted key l) (n lo hi : Nat) (h : Between key l k lo hi)
    (hn : hi - lo ≤ n) :
    Between key l k (searchLoop key l k n lo hi) (searchLoop key l k n lo hi) := by
  induction n generalizing lo hi with
  | zero =>
    have he : lo = hi := by have := h.le; omega
    subst he
    exact h
  | succ n ih =>
    simp only [searchLoop]
    by_cases hlt : lo < hi
    · rw [if_pos hlt]
      have hmid : (lo + hi) / 2 < l.length := by have := h.length; omega
      have hget : l[(lo + hi) / 2]? = some l[(lo + hi) / 2] := List.getElem?_eq_getElem hmid
      simp only [hget]
      by_cases hk : key l[(lo + hi) / 2] < k
      · rw [if_pos hk]
        refine ih _ _ ⟨by omega, h.length, fun i x hi hlo => ?_, h.above⟩ (by omega)
        rcases Nat.lt_or_eq_of_le (Nat.le_of_lt_succ hlo) with hbelow | rfl
        · exact (hs.lt hi hget hbelow).trans hk
        · rw [hget] at hi
          cases hi
          exact hk
      · rw [if_neg hk]
        refine ih _ _ ⟨by omega, by omega, h.below, fun i x hi hle => ?_⟩ (by omega)
        rcases Nat.lt_or_eq_of_le hle with habove | rfl
        · have := hs.lt hget hi habove
          omega
        · rw [hget] at hi
          cases hi
          omega
    · rw [if_neg hlt]
      have he : lo = hi := by have := h.le; omega
      subst he
      exact h

/-- **The search cuts the list** where the key belongs. -/
theorem lowerBound_split (hs : Sorted key l) (k : Nat) :
    ∃ pre post, l = pre ++ post ∧ lowerBound key l k = pre.length ∧
      (∀ x ∈ pre, key x < k) ∧ ∀ x ∈ post, k ≤ key x := by
  have hb := searchLoop_between (k := k) hs l.length 0 l.length
    ⟨Nat.zero_le _, le_rfl, fun i x _ hi => absurd hi (Nat.not_lt_zero i),
      fun i x hi hle => by
        have := (List.getElem?_eq_some_iff.mp hi).1
        omega⟩ (by omega)
  refine ⟨l.take (lowerBound key l k), l.drop (lowerBound key l k),
    (List.take_append_drop _ l).symm, ?_, ?_, ?_⟩
  · rw [List.length_take]
    exact (min_eq_left hb.length).symm
  · intro x hx
    obtain ⟨i, hi, rfl⟩ := List.mem_iff_getElem.mp hx
    rw [List.length_take] at hi
    refine hb.below i _ (List.getElem?_eq_some_iff.mpr ⟨by omega, ?_⟩) (by
      have : i < lowerBound key l k := by omega
      exact this)
    rw [List.getElem_take]
  · intro x hx
    obtain ⟨i, hi, rfl⟩ := List.mem_iff_getElem.mp hx
    rw [List.length_drop] at hi
    refine hb.above (lowerBound key l k + i) _
      (List.getElem?_eq_some_iff.mpr ⟨by omega, ?_⟩) (Nat.le_add_right _ _)
    rw [List.getElem_drop]

/-! ## Edits -/

/-- Overwrite the entry with the key of `x`, or insert `x` where its key belongs. -/
def put (key : α → Nat) (l : List α) (x : α) : List α :=
  match l[lowerBound key l (key x)]? with
  | some y => if key y = key x then l.set (lowerBound key l (key x)) x
      else l.insertIdx (lowerBound key l (key x)) x
  | none => l.insertIdx (lowerBound key l (key x)) x

/-- Take out the entry with key `k`. -/
def erase (key : α → Nat) (l : List α) (k : Nat) : List α :=
  match l[lowerBound key l k]? with
  | some y => if key y = k then l.eraseIdx (lowerBound key l k) else l
  | none => l

theorem Sorted.tail_of_split {pre post : List α} (hs : Sorted key (pre ++ post))
    (hpost : ∀ x ∈ post, k ≤ key x) :
    (∃ y rest, post = y :: rest ∧ key y = k ∧ ∀ x ∈ rest, k < key x) ∨ ∀ x ∈ post, k < key x := by
  cases post with
  | nil => exact .inr (by simp)
  | cons y rest =>
    have hrest : ∀ x ∈ rest, key y < key x :=
      (List.pairwise_cons.mp (List.pairwise_append.mp hs).2.1).1
    rcases Nat.lt_or_eq_of_le (hpost y List.mem_cons_self) with hlt | heq
    · refine .inr fun x hx => ?_
      rcases List.mem_cons.mp hx with rfl | hx
      · exact hlt
      · exact hlt.trans (hrest x hx)
    · exact .inl ⟨y, rest, rfl, heq.symm, fun x hx => heq ▸ hrest x hx⟩

theorem insertIdx_length (pre post : List α) (x : α) :
    (pre ++ post).insertIdx pre.length x = pre ++ x :: post := by
  induction pre with
  | nil => simp
  | cons y pre ih => simp [ih]

/-- What `put` makes of a sorted list, cut at the key. -/
theorem put_split (hs : Sorted key l) (x : α) : ∃ pre old post, l = pre ++ old ++ post ∧
    put key l x = pre ++ x :: post ∧ (∀ z ∈ pre, key z < key x) ∧ (∀ z ∈ old, key z = key x) ∧
      ∀ z ∈ post, key x < key z := by
  obtain ⟨pre, post, rfl, hpos, hpre, hpost⟩ := lowerBound_split hs (key x)
  unfold put
  rw [hpos]
  rcases hs.tail_of_split hpost with ⟨y, rest, rfl, hy, hrest⟩ | hgt
  · refine ⟨pre, [y], rest, by simp, ?_, hpre, by simpa using hy, hrest⟩
    simp [hy]
  · refine ⟨pre, [], post, by simp, ?_, hpre, by simp, hgt⟩
    cases post with
    | nil => simp
    | cons y rest =>
      have hne : key y ≠ key x := (hgt y List.mem_cons_self).ne'
      simp [hne, insertIdx_length]

theorem erase_split (hs : Sorted key l) (k : Nat) : ∃ pre old post, l = pre ++ old ++ post ∧
    erase key l k = pre ++ post ∧ (∀ z ∈ pre, key z < k) ∧ (∀ z ∈ old, key z = k) ∧
      ∀ z ∈ post, k < key z := by
  obtain ⟨pre, post, rfl, hpos, hpre, hpost⟩ := lowerBound_split hs k
  unfold erase
  rw [hpos]
  rcases hs.tail_of_split hpost with ⟨y, rest, rfl, hy, hrest⟩ | hgt
  · refine ⟨pre, [y], rest, by simp, ?_, hpre, by simpa using hy, hrest⟩
    simp [hy, List.eraseIdx_append_of_length_le]
  · refine ⟨pre, [], post, by simp, ?_, hpre, by simp, hgt⟩
    cases post with
    | nil => simp
    | cons y rest =>
      have hne : key y ≠ k := (hgt y List.mem_cons_self).ne'
      simp [hne]

theorem mem_put (hs : Sorted key l) : y ∈ put key l x ↔ y = x ∨ y ∈ l ∧ key y ≠ key x := by
  obtain ⟨pre, old, post, rfl, he, hpre, hold, hpost⟩ := put_split hs x
  rw [he]
  simp only [List.mem_append, List.mem_cons]
  constructor
  · rintro (h | h | h)
    · exact .inr ⟨.inl (.inl h), (hpre y h).ne⟩
    · exact .inl h
    · exact .inr ⟨.inr h, (hpost y h).ne'⟩
  · rintro (h | ⟨(h | h) | h, hne⟩)
    · exact .inr (.inl h)
    · exact .inl h
    · exact absurd (hold y h) hne
    · exact .inr (.inr h)

theorem mem_erase (hs : Sorted key l) : y ∈ erase key l k ↔ y ∈ l ∧ key y ≠ k := by
  obtain ⟨pre, old, post, rfl, he, hpre, hold, hpost⟩ := erase_split hs k
  rw [he]
  simp only [List.mem_append]
  constructor
  · rintro (h | h)
    · exact ⟨.inl (.inl h), (hpre y h).ne⟩
    · exact ⟨.inr h, (hpost y h).ne'⟩
  · rintro ⟨(h | h) | h, hne⟩
    · exact .inl h
    · exact absurd (hold y h) hne
    · exact .inr h

theorem Sorted.put (hs : Sorted key l) (x : α) : Sorted key (Lib.put key l x) := by
  obtain ⟨pre, old, post, rfl, he, hpre, hold, hpost⟩ := put_split hs x
  rw [he]
  obtain ⟨hleft, hright, hcross⟩ := List.pairwise_append.mp hs
  refine List.pairwise_append.mpr ⟨(List.pairwise_append.mp hleft).1,
    List.pairwise_cons.mpr ⟨hpost, hright⟩, fun a ha b hb => ?_⟩
  rcases List.mem_cons.mp hb with rfl | hb
  · exact hpre a ha
  · exact (hpre a ha).trans (hpost b hb)

theorem Sorted.erase (hs : Sorted key l) (k : Nat) : Sorted key (Lib.erase key l k) := by
  obtain ⟨pre, old, post, rfl, he, hpre, hold, hpost⟩ := erase_split hs k
  rw [he]
  obtain ⟨hleft, hright, -⟩ := List.pairwise_append.mp hs
  exact List.pairwise_append.mpr ⟨(List.pairwise_append.mp hleft).1, hright,
    fun a ha b hb => (hpre a ha).trans (hpost b hb)⟩

end Lib

import Mathlib.Data.List.Basic

/-!
A queue served in order, as an automaton over the events at its ends: elements
join at the back, are served at the front, or leave from anywhere. An empty
queue may serve an element that never joined. A history is accepted when every
service in it is one of these.

* `no_overtake`: an accepted history serves nobody while someone who joined
  before them is still in the queue.
-/

namespace Lib.Fifo

inductive QEvent (α : Type)
  | join (a : α)
  | serve (a : α)
  | leave (a : α)
  deriving DecidableEq, Repr

variable {α : Type} [DecidableEq α]

def step (q : List α) : QEvent α → Option (List α)
  | .join a => some (q ++ [a])
  | .leave a => some (q.erase a)
  | .serve a =>
      match q with
      | [] => some []
      | x :: rest => if x = a then some rest else none

def run : List α → List (QEvent α) → Option (List α)
  | q, [] => some q
  | q, e :: es =>
      match step q e with
      | some q' => run q' es
      | none => none

theorem run_append (q : List α) (l₁ l₂ : List (QEvent α)) :
    run q (l₁ ++ l₂) = (run q l₁).bind (fun q' => run q' l₂) := by
  induction l₁ generalizing q with
  | nil => rfl
  | cons e es ih =>
    simp only [List.cons_append, run]
    cases step q e with
    | none => rfl
    | some q' => exact ih q'

/-- `b` is served or leaves somewhere in the history. -/
def Departs (b : α) (l : List (QEvent α)) : Prop := .serve b ∈ l ∨ .leave b ∈ l

theorem mem_of_run (q q' : List α) (l : List (QEvent α)) (h : run q l = some q') (a : α)
    (ha : a ∈ q') : a ∈ q ∨ .join a ∈ l := by
  induction l generalizing q with
  | nil =>
    simp only [run, Option.some.injEq] at h
    exact Or.inl (h ▸ ha)
  | cons e es ih =>
    simp only [run] at h
    cases hs : step q e with
    | none => simp [hs] at h
    | some q₁ =>
      simp only [hs] at h
      rcases ih q₁ h with hq | hj
      · cases e with
        | join b =>
          simp only [step, Option.some.injEq] at hs
          rw [← hs, List.mem_append, List.mem_singleton] at hq
          rcases hq with hq | rfl
          · exact Or.inl hq
          · exact Or.inr (List.mem_cons_self ..)
        | leave b =>
          simp only [step, Option.some.injEq] at hs
          rw [← hs] at hq
          exact Or.inl (List.mem_of_mem_erase hq)
        | serve b =>
          cases q with
          | nil =>
            simp only [step, Option.some.injEq] at hs
            rw [← hs] at hq
            simp at hq
          | cons x rest =>
            simp only [step] at hs
            split at hs
            · simp only [Option.some.injEq] at hs
              exact Or.inl (List.mem_cons_of_mem _ (hs ▸ hq))
            · simp at hs
      · exact Or.inr (List.mem_cons_of_mem _ hj)

/-- One event leaves `b` behind a prefix without `a`, when `b` does not depart. -/
theorem step_keeps_ahead (u v q' : List α) (a b : α) (e : QEvent α) (hu : a ∉ u)
    (hb : e ≠ .serve b ∧ e ≠ .leave b) (h : step (u ++ b :: v) e = some q') :
    ∃ u' v', q' = u' ++ b :: v' ∧ a ∉ u' := by
  cases e with
  | join x =>
    simp only [step, Option.some.injEq] at h
    exact ⟨u, v ++ [x], by simp [← h], hu⟩
  | leave x =>
    simp only [step, Option.some.injEq] at h
    have hx : x ≠ b := by
      rintro rfl
      exact hb.2 rfl
    by_cases hxu : x ∈ u
    · refine ⟨u.erase x, v, ?_, fun ha => hu (List.mem_of_mem_erase ha)⟩
      rw [← h, List.erase_append_left _ hxu]
    · refine ⟨u, v.erase x, ?_, hu⟩
      rw [← h, List.erase_append_right _ hxu, List.erase_cons_tail]
      simpa using Ne.symm hx
  | serve x =>
    cases u with
    | nil =>
      simp only [List.nil_append, step] at h
      split at h
      · rename_i hbx
        exact absurd (by rw [hbx]) hb.1
      · simp at h
    | cons y u =>
      simp only [List.cons_append, step] at h
      split at h
      · simp only [Option.some.injEq] at h
        exact ⟨u, v, h.symm, fun ha => hu (List.mem_cons_of_mem _ ha)⟩
      · simp at h

theorem run_keeps_ahead (l : List (QEvent α)) (u v q' : List α) (a b : α) (hu : a ∉ u)
    (hb : ¬ Departs b l) (h : run (u ++ b :: v) l = some q') :
    ∃ u' v', q' = u' ++ b :: v' ∧ a ∉ u' := by
  induction l generalizing u v with
  | nil =>
    simp only [run, Option.some.injEq] at h
    exact ⟨u, v, h.symm, hu⟩
  | cons e es ih =>
    simp only [run] at h
    cases hs : step (u ++ b :: v) e with
    | none => simp [hs] at h
    | some q₁ =>
      simp only [hs] at h
      have he : e ≠ .serve b ∧ e ≠ .leave b :=
        ⟨fun hc => hb (Or.inl (by simp [hc])), fun hc => hb (Or.inr (by simp [hc]))⟩
      obtain ⟨u₁, v₁, rfl, hu₁⟩ := step_keeps_ahead u v q₁ a b e hu he hs
      apply ih u₁ v₁ hu₁ ?_ h
      rintro (hd | hd)
      · exact hb (Or.inl (List.mem_cons_of_mem _ hd))
      · exact hb (Or.inr (List.mem_cons_of_mem _ hd))

/-- **No overtaking.** Whoever joined when `a` had not yet joined has departed
before `a` is served. -/
theorem no_overtake (l₁ l₂ l₃ : List (QEvent α)) (a b : α) (q : List α) (hab : a ≠ b)
    (ha : .join a ∉ l₁) (h : run [] (l₁ ++ .join b :: l₂ ++ .serve a :: l₃) = some q) :
    Departs b l₂ := by
  by_contra hb
  rw [run_append, run_append] at h
  cases h₁ : run [] l₁ with
  | none => simp [h₁] at h
  | some q₁ =>
    have haq : a ∉ q₁ := by
      intro hm
      rcases mem_of_run [] q₁ l₁ h₁ a hm with hm | hm
      · simp at hm
      · exact ha hm
    simp only [h₁, Option.bind_some, run, step] at h
    cases h₂ : run (q₁ ++ [b]) l₂ with
    | none => simp [h₂] at h
    | some q₂ =>
      obtain ⟨u, v, rfl, hu⟩ := run_keeps_ahead l₂ q₁ [] q₂ a b haq hb h₂
      simp only [h₂, Option.bind_some] at h
      cases u with
      | nil => simp [Ne.symm hab] at h
      | cons y u =>
        have hy : y ≠ a := by
          rintro rfl
          exact hu (List.mem_cons_self ..)
        simp [hy] at h

end Lib.Fifo

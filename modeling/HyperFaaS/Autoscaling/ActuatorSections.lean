import HyperFaaS.Lib.Count
import HyperFaaS.Autoscaling.Actuator
import Mathlib.Data.List.Basic

/-!
What the sections of the actuator do to its lists of instances.

* `Drops`: the three ways to remove instances (a stop that is over, a snapshot,
  a removal event) all take some instances off one worker's list;
* `Marks`: choosing instances to stop only sets marks;
* `Balanced`: the counters are the sums over the lists, and every section keeps
  it.
-/

namespace HyperFaaS.Autoscaling

namespace SandboxActuator

variable {clear : Bool → Int → Int} {a a' : SandboxActuator} {idx : Nat}

def tracked (a : SandboxActuator) (idx : Nat) : List TrackedInstance :=
  (a.workerInstances idx).instances

def startsOn (a : SandboxActuator) (idx : Nat) : Int := (a.workerInstances idx).pendingStarts

/-- One worker gets a new list, and the two counters that go with it new values. -/
def edit (a : SandboxActuator) (idx : Nat) (l : List TrackedInstance) (total stops : Int) :
    SandboxActuator :=
  { a.setWorker idx { a.workerInstances idx with instances := l } with
    totalInstances := total
    pendingStops := stops }

@[simp] theorem edit_workers (a : SandboxActuator) (idx : Nat) (l : List TrackedInstance)
    (total stops : Int) : (a.edit idx l total stops).workers = a.workers := rfl

@[simp] theorem edit_totalInstances (a : SandboxActuator) (idx : Nat) (l : List TrackedInstance)
    (total stops : Int) : (a.edit idx l total stops).totalInstances = total := rfl

@[simp] theorem edit_pendingStarts (a : SandboxActuator) (idx : Nat) (l : List TrackedInstance)
    (total stops : Int) : (a.edit idx l total stops).pendingStarts = a.pendingStarts := rfl

@[simp] theorem edit_pendingStops (a : SandboxActuator) (idx : Nat) (l : List TrackedInstance)
    (total stops : Int) : (a.edit idx l total stops).pendingStops = stops := rfl

@[simp] theorem edit_tracked (a : SandboxActuator) (idx : Nat) (l : List TrackedInstance)
    (total stops : Int) : (a.edit idx l total stops).tracked idx = l := by
  simp [edit, tracked, setWorker]

variable {j : Nat} {x y : TrackedInstance} {l l' : List TrackedInstance} {items ys : List StopItem}

theorem edit_other (a : SandboxActuator) (hj : j ≠ idx) (l : List TrackedInstance)
    (total stops : Int) : (a.edit idx l total stops).workerInstances j = a.workerInstances j := by
  simp [edit, setWorker, hj]

theorem edit_tracked_other (a : SandboxActuator) (hj : j ≠ idx) (l : List TrackedInstance)
    (total stops : Int) : (a.edit idx l total stops).tracked j = a.tracked j := by
  rw [tracked, edit_other a hj]
  rfl

@[simp] theorem edit_startsOn (a : SandboxActuator) (idx j : Nat) (l : List TrackedInstance)
    (total stops : Int) : (a.edit idx l total stops).startsOn j = a.startsOn j := by
  by_cases hj : j = idx
  · subst hj
    simp [edit, startsOn, setWorker]
  · rw [startsOn, edit_other a hj]
    rfl

theorem edit_self (a : SandboxActuator) (idx : Nat) :
    a.edit idx (a.tracked idx) a.totalInstances a.pendingStops = a := by
  simp [edit, tracked, setWorker, Function.update_eq_self]

/-! ## Removing instances -/

/-- The marks of these instances are cleared, one after the other. -/
def clears (clear : Bool → Int → Int) (xs : List TrackedInstance) (n : Int) : Int :=
  xs.foldl (fun n x => clear x.stopping n) n

/-- The instances `xs` leave the list of worker `idx`. -/
structure Drops (clear : Bool → Int → Int) (a a' : SandboxActuator) (idx : Nat)
    (xs : List TrackedInstance) : Prop where
  bound : idx < a.workers ∨ xs = [] ∧ a' = a
  perm : (a.tracked idx).Perm (xs ++ a'.tracked idx)
  eq : a' = a.edit idx (a'.tracked idx) (a.totalInstances - xs.length)
    (clears clear xs a.pendingStops)

theorem Drops.nothing (clear : Bool → Int → Int) (a : SandboxActuator) (idx : Nat) :
    Drops clear a a idx [] where
  bound := .inr ⟨rfl, rfl⟩
  perm := List.Perm.refl _
  eq := by simpa [clears] using (edit_self a idx).symm

theorem Drops.one (hb : idx < a.workers) (hp : (a.tracked idx).Perm (x :: l)) :
    Drops clear a (a.edit idx l (a.totalInstances - 1) (clear x.stopping a.pendingStops)) idx [x] where
  bound := .inl hb
  perm := by simpa using hp
  eq := by simp [clears]

theorem Drops.workers {xs : List TrackedInstance} (h : Drops clear a a' idx xs) :
    a'.workers = a.workers := by
  rw [h.eq]
  rfl

theorem Drops.pendingStarts {xs : List TrackedInstance} (h : Drops clear a a' idx xs) :
    a'.pendingStarts = a.pendingStarts := by
  rw [h.eq]
  rfl

theorem Drops.startsOn {xs : List TrackedInstance} (h : Drops clear a a' idx xs) (j : Nat) :
    a'.startsOn j = a.startsOn j := by
  rw [h.eq, edit_startsOn]

theorem Drops.other {xs : List TrackedInstance} (h : Drops clear a a' idx xs) (hj : j ≠ idx) :
    a'.tracked j = a.tracked j := by
  rw [h.eq, edit_tracked_other a hj]

theorem sift_eq (presence : WorkerPresence) (l : List TrackedInstance) (n : Int) :
    sift clear presence l n =
      (l.filter (keeps presence), (l.filter (fun x => !keeps presence x)).map removed,
        clears clear (l.filter (fun x => !keeps presence x)) n) := by
  induction l generalizing n with
  | nil => rfl
  | cons x l ih =>
    cases hk : keeps presence x with
    | true => simp [sift, hk, ih]
    | false => simp [sift, hk, ih, clears]

/-- A snapshot keeps the instances it may not evict and drops the others. -/
theorem reconcileWorkerStateWith_spec (clear : Bool → Int → Int) (a : SandboxActuator) (idx : Nat)
    (presence : WorkerPresence) :
    ∃ xs, Drops clear a (a.reconcileWorkerStateWith clear idx presence).1 idx xs ∧
      (a.reconcileWorkerStateWith clear idx presence).2 = xs.map removed ∧
      (∀ x ∈ xs, keeps presence x = false) ∧
      (idx < a.workers → ∀ x ∈ (a.reconcileWorkerStateWith clear idx presence).1.tracked idx,
        keeps presence x = true) := by
  unfold reconcileWorkerStateWith
  by_cases hb : idx ≥ a.workers
  · rw [if_pos hb]
    exact ⟨[], .nothing clear a idx, rfl, by simp, fun h => by omega⟩
  · rw [if_neg hb]
    simp only [sift_eq]
    refine ⟨(a.tracked idx).filter (fun x => !keeps presence x), ⟨.inl (by omega), ?_, ?_⟩,
      rfl, ?_, ?_⟩
    · simp only [tracked, setWorker, Function.update_self]
      exact ((List.filter_append_perm (keeps presence) _).symm).trans List.perm_append_comm
    · simp [edit, tracked, setWorker]
    · intro x hx
      simpa using (List.mem_filter.mp hx).2
    · intro _ x hx
      simp only [tracked, setWorker, Function.update_self] at hx
      exact (List.mem_filter.mp hx).2

theorem eraseP_perm {p : TrackedInstance → Bool} (h : l.find? p = some x) :
    l.Perm (x :: l.eraseP p) := by
  induction l with
  | nil => cases h
  | cons y l ih =>
    cases hy : p y with
    | true =>
      rw [List.find?_cons_of_pos hy, Option.some.injEq] at h
      rw [List.eraseP_cons_of_pos hy, h]
    | false =>
      rw [List.find?_cons_of_neg (by simp [hy])] at h
      rw [List.eraseP_cons_of_neg (by simp [hy])]
      exact ((ih h).cons y).trans (List.Perm.swap x y _)

theorem handleSandboxRemovedWith_spec (clear : Bool → Int → Int) (a : SandboxActuator)
    (idx instanceID revision : Nat) :
    ∃ xs, Drops clear a (a.handleSandboxRemovedWith clear idx instanceID revision).1 idx xs ∧
      (a.handleSandboxRemovedWith clear idx instanceID revision).2 = xs.map removed ∧
      (∀ x ∈ xs, x.id = instanceID) := by
  unfold handleSandboxRemovedWith
  by_cases hb : idx ≥ a.workers
  · rw [if_pos hb]
    exact ⟨[], .nothing clear a idx, rfl, by simp⟩
  · rw [if_neg hb]
    cases hf : (a.workerInstances idx).instances.find? (fun inst => inst.id == instanceID) with
    | none => exact ⟨[], by simpa [hf] using .nothing clear a idx, by simp [hf], by simp⟩
    | some x =>
      have hid : x.id = instanceID := by simpa using List.find?_some hf
      cases hs : staleEvent revision x with
      | true => exact ⟨[], by simpa [hf, hs] using .nothing clear a idx, by simp [hf, hs], by simp⟩
      | false =>
        refine ⟨[x], ?_, by simp [hf, hs], by simpa using hid⟩
        simp only [hf, hs]
        exact .one (by omega) (eraseP_perm hf)

theorem swapRemove_perm {i : Nat} (h : l[i]? = some x) : l.Perm (x :: swapRemove l i) := by
  obtain ⟨hi, hx⟩ := List.getElem?_eq_some_iff.mp h
  have hne : l ≠ [] := List.ne_nil_of_length_pos (by omega)
  obtain ⟨init, last, rfl⟩ : ∃ init last, l = init ++ [last] :=
    ⟨_, _, (List.dropLast_append_getLast hne).symm⟩
  simp only [swapRemove, List.getLast?_append, List.getLast?_singleton, Option.some_or]
  by_cases hlast : i < init.length
  · -- the last instance fills the hole
    have hx' : init[i] = x := by rw [← hx, List.getElem_append_left hlast]
    rw [List.set_append_left _ _ hlast, List.dropLast_concat]
    have hset := List.set_perm_cons_eraseIdx hlast last
    have hget := (List.getElem_cons_eraseIdx_perm hlast).symm
    rw [hx'] at hget
    calc (init ++ [last]).Perm (last :: init) := List.perm_append_singleton last init
      _ |>.Perm (last :: x :: init.eraseIdx i) := hget.cons last
      _ |>.Perm (x :: last :: init.eraseIdx i) := List.Perm.swap x last _
      _ |>.Perm (x :: init.set i last) := hset.symm.cons x
  · have hi' : i = init.length := by
      simp only [List.length_append, List.length_singleton] at hi
      omega
    subst hi'
    have hx' : last = x := by simpa using hx
    simp [hx']

theorem removeInstanceWith_spec (clear : Bool → Int → Int) (a : SandboxActuator)
    (idx instanceID : Nat) :
    Drops clear a (a.removeInstanceWith clear idx instanceID).1 idx [] ∧
        (a.removeInstanceWith clear idx instanceID).2 = "" ∧
        (idx < a.workers → ∀ x ∈ a.tracked idx, x.id ≠ instanceID) ∨
      ∃ x, Drops clear a (a.removeInstanceWith clear idx instanceID).1 idx [x] ∧
        (a.removeInstanceWith clear idx instanceID).2 = x.address ∧ x.id = instanceID := by
  unfold removeInstanceWith
  by_cases hb : idx ≥ a.workers
  · rw [if_pos hb]
    exact .inl ⟨.nothing clear a idx, rfl, fun h => by omega⟩
  · rw [if_neg hb]
    cases hf : (a.workerInstances idx).instances.findIdx? (fun inst => inst.id == instanceID) with
    | none =>
      refine .inl ⟨by simpa [hf] using .nothing clear a idx, by simp [hf], ?_⟩
      intro _ x hx
      simpa using List.findIdx?_eq_none_iff.mp hf x hx
    | some i =>
      obtain ⟨hi, hp, -⟩ := List.findIdx?_eq_some_iff_getElem.mp hf
      have hx := List.getElem?_eq_getElem hi
      refine .inr ⟨(a.workerInstances idx).instances[i], ?_, by simp [hf, hx], by simpa using hp⟩
      simp only [hf, hx]
      exact .one (by omega) (swapRemove_perm hx)

/-! ## Marks -/

theorem unmark_some {id : Nat} (h : unmark id l = some l') :
    ∃ pre x post, l = pre ++ x :: post ∧ l' = pre ++ { x with stopping := false } :: post ∧
      x.id = id ∧ x.stopping = true := by
  induction l generalizing l' with
  | nil => cases h
  | cons y l ih =>
    unfold unmark at h
    by_cases hy : y.id = id
    · rw [if_pos hy] at h
      cases hs : y.stopping with
      | false => simp [hs] at h
      | true =>
        simp only [hs, if_true, Option.some.injEq] at h
        exact ⟨[], y, l, rfl, h.symm, hy, hs⟩
    · rw [if_neg hy] at h
      obtain ⟨l'', hl, rfl⟩ := Option.map_eq_some_iff.mp h
      obtain ⟨pre, x, post, rfl, rfl, hid, hs⟩ := ih hl
      exact ⟨y :: pre, x, post, rfl, rfl, hid, hs⟩

theorem unmark_none {id : Nat} (h : unmark id l = none) (hn : (l.map (·.id)).Nodup) (hx : x ∈ l)
    (hid : x.id = id) : x.stopping = false := by
  induction l with
  | nil => cases hx
  | cons y l ih =>
    simp only [List.map_cons, List.nodup_cons] at hn
    unfold unmark at h
    by_cases hy : y.id = id
    · rw [if_pos hy] at h
      have hxy : x = y := by
        rcases List.mem_cons.mp hx with rfl | hxl
        · rfl
        · exact absurd (List.mem_map.mpr ⟨x, hxl, hid.trans hy.symm⟩) hn.1
      cases hs : y.stopping with
      | false => rw [hxy, hs]
      | true => simp [hs] at h
    · rw [if_neg hy, Option.map_eq_none_iff] at h
      rcases List.mem_cons.mp hx with rfl | hxl
      · exact absurd hid hy
      · exact ih h hn.2 hxl

theorem cancelStopWith_spec (clear : Bool → Int → Int) (a : SandboxActuator) (idx id : Nat) :
    (a.cancelStopWith clear idx id = a ∧ (idx < a.workers → ((a.tracked idx).map (·.id)).Nodup →
        ∀ x ∈ a.tracked idx, x.id = id → x.stopping = false)) ∨
      ∃ pre x post, idx < a.workers ∧ a.tracked idx = pre ++ x :: post ∧ x.id = id ∧
        x.stopping = true ∧ a.cancelStopWith clear idx id =
          a.edit idx (pre ++ { x with stopping := false } :: post) a.totalInstances
            (clear true a.pendingStops) := by
  unfold cancelStopWith
  by_cases hb : idx ≥ a.workers
  · rw [if_pos hb]
    exact .inl ⟨rfl, fun h => by omega⟩
  · rw [if_neg hb]
    cases hu : unmark id (a.workerInstances idx).instances with
    | none => exact .inl ⟨by simp [hu], fun _ hn x hx => unmark_none hu hn hx⟩
    | some l =>
      obtain ⟨pre, x, post, hl, rfl, hid, hs⟩ := unmark_some hu
      refine .inr ⟨pre, x, post, by omega, hl, hid, hs, ?_⟩
      simp only [hu]
      rfl

theorem cancelStop_workers (a : SandboxActuator) (idx id : Nat) :
    (a.cancelStop idx id).workers = a.workers := by
  rcases cancelStopWith_spec clearStop a idx id with ⟨he, -⟩ | ⟨pre, x, post, -, -, -, -, he⟩
  · rw [cancelStop, he]
  · rw [cancelStop, he, edit_workers]

theorem cancelStop_startsOn (a : SandboxActuator) (idx id j : Nat) :
    (a.cancelStop idx id).startsOn j = a.startsOn j := by
  rcases cancelStopWith_spec clearStop a idx id with ⟨he, -⟩ | ⟨pre, x, post, -, -, -, -, he⟩
  · rw [cancelStop, he]
  · rw [cancelStop, he, edit_startsOn]

/-- An instance before and after stops were chosen: the same, or marked and
among the items. -/
def Marked (items : List StopItem) (idx : Nat) (x y : TrackedInstance) : Prop :=
  y = x ∨ x.stopping = false ∧ y = { x with stopping := true } ∧
    ⟨idx, x.id, x.address⟩ ∈ items

theorem Marked.mono {items' : List StopItem} (h : Marked items idx x y) (hs : items ⊆ items') :
    Marked items' idx x y :=
  h.imp_right fun ⟨hx, hy, hm⟩ => ⟨hx, hy, hs hm⟩

theorem Marked.refl (items : List StopItem) (idx : Nat) (l : List TrackedInstance) :
    List.Forall₂ (Marked items idx) l l :=
  List.forall₂_same.mpr fun _ _ => .inl rfl

theorem Marked.id_eq (h : Marked items idx x y) : y.id = x.id := by
  rcases h with rfl | ⟨-, rfl, -⟩
  · rfl
  · rfl

theorem markStopping_spec (idx n : Nat) (l : List TrackedInstance) :
    List.Forall₂ (Marked (markStopping idx n l).2.1 idx) l (markStopping idx n l).1 ∧
      (markStopping idx n l).1.countP (·.stopping) =
        l.countP (·.stopping) + (markStopping idx n l).2.1.length ∧
      ∀ it ∈ (markStopping idx n l).2.1, ∃ x ∈ l, it = ⟨idx, x.id, x.address⟩ := by
  induction l generalizing n with
  | nil => cases n <;> simp [markStopping]
  | cons x l ih =>
    cases n with
    | zero => exact ⟨Marked.refl [] idx _, by simp [markStopping], by simp [markStopping]⟩
    | succ n =>
      cases hx : x.stopping with
      | true =>
        obtain ⟨h1, h2, h3⟩ := ih (n + 1)
        have he : markStopping idx (n + 1) (x :: l) =
            (x :: (markStopping idx (n + 1) l).1, (markStopping idx (n + 1) l).2) := by
          simp [markStopping, hx]
        rw [he]
        refine ⟨.cons (.inl rfl) h1, by simp [hx, h2]; omega, ?_⟩
        intro it hit
        obtain ⟨y, hy, rfl⟩ := h3 it hit
        exact ⟨y, List.mem_cons_of_mem _ hy, rfl⟩
      | false =>
        obtain ⟨h1, h2, h3⟩ := ih n
        have he : markStopping idx (n + 1) (x :: l) =
            ({ x with stopping := true } :: (markStopping idx n l).1,
              ⟨idx, x.id, x.address⟩ :: (markStopping idx n l).2.1, (markStopping idx n l).2.2) := by
          simp [markStopping, hx]
        rw [he]
        refine ⟨.cons (.inr ⟨hx, rfl, List.mem_cons_self⟩) ?_, by simp [hx, h2]; omega, ?_⟩
        · exact h1.imp fun _ _ h => h.mono (List.subset_cons_self _ _)
        · intro it hit
          rcases List.mem_cons.mp hit with rfl | hit
          · exact ⟨x, List.mem_cons_self, rfl⟩
          · obtain ⟨y, hy, rfl⟩ := h3 it hit
            exact ⟨y, List.mem_cons_of_mem _ hy, rfl⟩

/-- The instances named by `items` are marked, nothing else changes. -/
structure Marks (a a' : SandboxActuator) (items : List StopItem) : Prop where
  eq : a' = { a with
    workerInstances := a'.workerInstances
    pendingStops := a.pendingStops + items.length }
  starts : ∀ idx, a'.startsOn idx = a.startsOn idx
  lists : ∀ idx, List.Forall₂ (Marked items idx) (a.tracked idx) (a'.tracked idx)
  items : ∀ it ∈ items, it.workerIdx < a.workers ∧
    ∃ x ∈ a.tracked it.workerIdx, it.instanceID = x.id

theorem Marks.nothing (a : SandboxActuator) : Marks a a [] where
  eq := by simp
  starts := fun _ => rfl
  lists := fun idx => Marked.refl [] idx _
  items := by simp

theorem Marked.comp {xs : List StopItem} {z : TrackedInstance} (h : Marked xs idx x y)
    (h' : Marked ys idx y z) : Marked (xs ++ ys) idx x z := by
  rcases h with rfl | ⟨hx, rfl, hm⟩
  · exact h'.mono (List.subset_append_right xs ys)
  · rcases h' with rfl | ⟨hy, -, -⟩
    · exact .inr ⟨hx, rfl, List.mem_append_left ys hm⟩
    · cases hy

theorem Marked.comp_lists {xs : List StopItem} {l'' : List TrackedInstance}
    (h : List.Forall₂ (Marked xs idx) l l') (h' : List.Forall₂ (Marked ys idx) l' l'') :
    List.Forall₂ (Marked (xs ++ ys) idx) l l'' := by
  induction h generalizing l'' with
  | nil =>
    cases h'
    exact .nil
  | cons hx _ ih =>
    cases h' with
    | cons hy hl => exact .cons (hx.comp hy) (ih hl)

theorem Marked.source {xs : List StopItem} (h : List.Forall₂ (Marked xs idx) l l') (hy : y ∈ l') :
    ∃ x ∈ l, Marked xs idx x y := by
  induction h with
  | nil => cases hy
  | cons hx _ ih =>
    rcases List.mem_cons.mp hy with rfl | hy
    · exact ⟨_, List.mem_cons_self, hx⟩
    · obtain ⟨x, hm, hr⟩ := ih hy
      exact ⟨x, List.mem_cons_of_mem _ hm, hr⟩

theorem Marks.workers (h : Marks a a' items) : a'.workers = a.workers := by
  rw [h.eq]

theorem Marks.trans {b c : SandboxActuator} {xs : List StopItem} (h : Marks a b xs)
    (h' : Marks b c ys) : Marks a c (xs ++ ys) where
  eq := by
    have hb := h.eq
    have hc := h'.eq
    rw [hb] at hc
    simp only [List.length_append, Nat.cast_add]
    rw [hc]
    simp only [mk.injEq, true_and, and_true]
    ring
  starts := fun idx => (h'.starts idx).trans (h.starts idx)
  lists := fun idx => Marked.comp_lists (h.lists idx) (h'.lists idx)
  items := by
    intro it hit
    rcases List.mem_append.mp hit with hx | hy
    · exact h.items it hx
    · obtain ⟨hlt, y, hm, hid⟩ := h'.items it hy
      obtain ⟨x, hx, hxy⟩ := Marked.source (h.lists it.workerIdx) hm
      exact ⟨h.workers ▸ hlt, x, hx, hid.trans hxy.id_eq⟩

theorem markWorker_eq (a : SandboxActuator) (idx n : Nat) :
    a.markWorker idx n =
      (a.edit idx (markStopping idx n (a.tracked idx)).1 a.totalInstances
        (a.pendingStops + (markStopping idx n (a.tracked idx)).2.1.length),
        (markStopping idx n (a.tracked idx)).2) := rfl

theorem markWorker_marks (a : SandboxActuator) (n : Nat) (hb : idx < a.workers) :
    Marks a (a.markWorker idx n).1 (a.markWorker idx n).2.1 := by
  obtain ⟨hl, -, hitems⟩ := markStopping_spec idx n (a.tracked idx)
  rw [markWorker_eq]
  constructor
  · rfl
  · exact fun j => edit_startsOn a idx j _ _ _
  · intro j
    by_cases hj : j = idx
    · subst hj
      simpa using hl
    · have hsame := edit_tracked_other a hj (markStopping idx n (a.tracked idx)).1
        a.totalInstances (a.pendingStops + (markStopping idx n (a.tracked idx)).2.1.length)
      rw [hsame]
      exact Marked.refl _ j _
  · intro it hit
    obtain ⟨x, hx, rfl⟩ := hitems it hit
    exact ⟨hb, x, hx, rfl⟩

theorem markWorkers_marks (l : List Nat) (n : Nat) (a : SandboxActuator)
    (hl : ∀ idx ∈ l, idx < a.workers) : Marks a (markWorkers l n a).1 (markWorkers l n a).2 := by
  induction l generalizing n a with
  | nil => exact .nothing a
  | cons idx l ih =>
    have h := markWorker_marks a n (hl idx List.mem_cons_self)
    exact h.trans (ih (a.markWorker idx n).2.2 (a.markWorker idx n).1 (fun j hj => by
      rw [h.workers]
      exact hl j (List.mem_cons_of_mem _ hj)))

theorem instancesForStopLocked_marks (a : SandboxActuator) (count : Int) :
    Marks a (a.instancesForStopLocked count).1 (a.instancesForStopLocked count).2 :=
  markWorkers_marks _ _ a (fun _ h => List.mem_range.mp h)

theorem instancesForStop_marks (a : SandboxActuator) (count : Int) :
    Marks a (a.instancesForStop count).1 (a.instancesForStop count).2 := by
  unfold instancesForStop
  split
  · exact .nothing a
  · exact instancesForStopLocked_marks a count

theorem instancesForStopWithinTarget_marks (a : SandboxActuator) (count : Int) :
    Marks a (a.instancesForStopWithinTarget count).1 (a.instancesForStopWithinTarget count).2 := by
  unfold instancesForStopWithinTarget
  split
  · exact .nothing a
  · dsimp only
    split
    · exact .nothing a
    · exact instancesForStopLocked_marks a _

end SandboxActuator

end HyperFaaS.Autoscaling

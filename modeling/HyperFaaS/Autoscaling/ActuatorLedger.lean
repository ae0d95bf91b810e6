import HyperFaaS.Autoscaling.ActuatorSections
import Mathlib.Algebra.Order.BigOperators.Group.Finset

/-!
The counters of the actuator. `Balanced` says that they are the sums over the
workers' records; every section keeps it, and where it holds the guards of
`pendingStops` make no difference.
-/

namespace HyperFaaS.Autoscaling

namespace SandboxActuator

variable {clear : Bool → Int → Int} {a a' : SandboxActuator} {idx : Nat}
  {xs : List TrackedInstance}

/-- The number of marked instances. -/
def marks (l : List TrackedInstance) : Nat := l.countP (·.stopping)

@[simp] theorem marks_nil : marks [] = 0 := rfl

@[simp] theorem marks_cons (x : TrackedInstance) (l : List TrackedInstance) :
    marks (x :: l) = marks l + x.stopping.toNat := by
  cases h : x.stopping <;> simp [marks, h]

@[simp] theorem marks_append (l l' : List TrackedInstance) :
    marks (l ++ l') = marks l + marks l' := by
  simp [marks, List.countP_append]

variable {l : List TrackedInstance}

theorem marks_perm {l' : List TrackedInstance} (h : l.Perm l') : marks l = marks l' :=
  h.countP_eq _

structure Balanced (a : SandboxActuator) : Prop where
  total : a.totalInstances = ∑ idx ∈ Finset.range a.workers, ((a.tracked idx).length : Int)
  starts : a.pendingStarts = ∑ idx ∈ Finset.range a.workers, a.startsOn idx
  stops : a.pendingStops = ∑ idx ∈ Finset.range a.workers, (marks (a.tracked idx) : Int)

theorem newSandboxActuator_balanced (workers : Nat) (cfg : DataplaneConfig) :
    (newSandboxActuator workers cfg).Balanced := by
  constructor <;> simp [newSandboxActuator, tracked, startsOn]

theorem Balanced.change (h : a.Balanced) (a' : SandboxActuator) (hb : idx < a.workers) (hw : a'.workers = a.workers)
    (hother : ∀ j, j ≠ idx → a'.workerInstances j = a.workerInstances j)
    (htotal : a'.totalInstances =
      a.totalInstances + (((a'.tracked idx).length : Int) - (a.tracked idx).length))
    (hstarts : a'.pendingStarts = a.pendingStarts + (a'.startsOn idx - a.startsOn idx))
    (hstops : a'.pendingStops =
      a.pendingStops + ((marks (a'.tracked idx) : Int) - marks (a.tracked idx))) :
    a'.Balanced where
  total := by
    rw [htotal, h.total, hw]
    refine (Lib.sum_change (f := fun j => ((a.tracked j).length : Int))
      (g := fun j => ((a'.tracked j).length : Int)) hb fun j hj => ?_).symm
    simp only [tracked, hother j hj]
  starts := by
    rw [hstarts, h.starts, hw]
    refine (Lib.sum_change (f := a.startsOn) (g := a'.startsOn) hb fun j hj => ?_).symm
    simp only [startsOn, hother j hj]
  stops := by
    rw [hstops, h.stops, hw]
    refine (Lib.sum_change (f := fun j => (marks (a.tracked j) : Int))
      (g := fun j => (marks (a'.tracked j) : Int)) hb fun j hj => ?_).symm
    simp only [tracked, hother j hj]

theorem Balanced.marks_le (h : a.Balanced) (hb : idx < a.workers) :
    (marks (a.tracked idx) : Int) ≤ a.pendingStops := by
  rw [h.stops]
  exact Finset.single_le_sum (f := fun j => (marks (a.tracked j) : Int))
    (fun j _ => Int.natCast_nonneg _) (Finset.mem_range.mpr hb)

theorem Balanced.total_nonneg (h : a.Balanced) : 0 ≤ a.totalInstances := by
  rw [h.total]
  exact Finset.sum_nonneg fun j _ => Int.natCast_nonneg _

theorem Balanced.stops_nonneg (h : a.Balanced) : 0 ≤ a.pendingStops := by
  rw [h.stops]
  exact Finset.sum_nonneg fun j _ => Int.natCast_nonneg _

/-! ## The guards -/

theorem clearStop_eq (stopping : Bool) {n : Int} (h : (stopping.toNat : Int) ≤ n) :
    clearStop stopping n = n - stopping.toNat := by
  cases stopping with
  | false => simp [clearStop]
  | true =>
    have hn : 0 < n := h
    simp [clearStop, hn]

theorem clearStopUnguarded_eq (stopping : Bool) (n : Int) :
    clearStopUnguarded stopping n = n - stopping.toNat := by
  cases stopping <;> simp [clearStopUnguarded]

theorem clears_unguarded (xs : List TrackedInstance) (n : Int) :
    clears clearStopUnguarded xs n = n - marks xs := by
  induction xs generalizing n with
  | nil => simp [clears]
  | cons x xs ih =>
    have hc : clears clearStopUnguarded (x :: xs) n =
        clears clearStopUnguarded xs (clearStopUnguarded x.stopping n) := rfl
    rw [hc, ih, clearStopUnguarded_eq, marks_cons]
    omega

/-- As long as the counter covers the marks, the guard never stops a decrement. -/
theorem clears_guarded (xs : List TrackedInstance) {n : Int} (h : (marks xs : Int) ≤ n) :
    clears clearStop xs n = n - marks xs := by
  induction xs generalizing n with
  | nil => simp [clears]
  | cons x xs ih =>
    have hc : clears clearStop (x :: xs) n = clears clearStop xs (clearStop x.stopping n) := rfl
    rw [marks_cons] at h ⊢
    rw [hc, clearStop_eq x.stopping (by omega), ih (by omega)]
    omega

theorem Drops.marks_le (h : Drops clear a a' idx xs) (hb : a.Balanced) :
    (marks xs : Int) ≤ a.pendingStops := by
  rcases h.bound with hlt | ⟨rfl, -⟩
  · have hle := hb.marks_le hlt
    rw [marks_perm h.perm, marks_append] at hle
    omega
  · simpa using hb.stops_nonneg

/-! ## The sections keep the counters right -/

theorem Balanced.edit (h : a.Balanced) {total stops : Int} (hb : idx < a.workers)
    (htotal : total = a.totalInstances + ((l.length : Int) - (a.tracked idx).length))
    (hstops : stops = a.pendingStops + ((marks l : Int) - marks (a.tracked idx))) :
    (a.edit idx l total stops).Balanced := by
  apply h.change (a.edit idx l total stops) hb rfl (fun j hj => edit_other a hj l total stops)
  · simpa using htotal
  · simp
  · simpa using hstops

theorem Drops.balanced (h : Drops clearStop a a' idx xs) (hb : a.Balanced) : a'.Balanced := by
  rcases h.bound with hlt | ⟨-, rfl⟩
  · have hlen := h.perm.length_eq
    have hmarks := marks_perm h.perm
    rw [List.length_append] at hlen
    rw [marks_append] at hmarks
    rw [h.eq]
    apply hb.edit hlt
    · omega
    · rw [clears_guarded xs (h.marks_le hb)]
      omega
  · exact hb

theorem cancelStop_balanced (hb : a.Balanced) (idx id : Nat) :
    (a.cancelStop idx id).Balanced := by
  rcases cancelStopWith_spec clearStop a idx id with ⟨he, -⟩ | ⟨pre, x, post, hlt, hl, -, hs, he⟩
  · rw [cancelStop, he]
    exact hb
  · rw [cancelStop, he]
    have hle := hb.marks_le hlt
    rw [hl, marks_append, marks_cons, hs] at hle
    have hone : (true.toNat : Int) ≤ a.pendingStops := by omega
    apply hb.edit hlt
    · simp [hl]
    · rw [clearStop_eq true hone, hl]
      simp only [marks_append, marks_cons, hs, Bool.toNat_true, Bool.toNat_false]
      omega

theorem markWorker_balanced (hb : a.Balanced) (n : Nat) (hlt : idx < a.workers) :
    (a.markWorker idx n).1.Balanced := by
  obtain ⟨hl, hc, -⟩ := markStopping_spec idx n (a.tracked idx)
  rw [markWorker_eq]
  apply hb.edit hlt
  · rw [hl.length_eq]
    omega
  · simp only [marks, hc]
    omega

theorem markWorkers_balanced (l : List Nat) (n : Nat) (a : SandboxActuator) (hb : a.Balanced)
    (hl : ∀ idx ∈ l, idx < a.workers) : (markWorkers l n a).1.Balanced := by
  induction l generalizing n a with
  | nil => exact hb
  | cons idx l ih =>
    have hlt := hl idx List.mem_cons_self
    exact ih _ _ (markWorker_balanced hb n hlt) fun j hj => hl j (List.mem_cons_of_mem _ hj)

theorem instancesForStopLocked_balanced (hb : a.Balanced) (count : Int) :
    (a.instancesForStopLocked count).1.Balanced :=
  markWorkers_balanced _ _ a hb fun _ h => List.mem_range.mp h

theorem instancesForStop_balanced (hb : a.Balanced) (count : Int) :
    (a.instancesForStop count).1.Balanced := by
  unfold instancesForStop
  split
  · exact hb
  · exact instancesForStopLocked_balanced hb count

theorem instancesForStopWithinTarget_balanced (hb : a.Balanced) (count : Int) :
    (a.instancesForStopWithinTarget count).1.Balanced := by
  unfold instancesForStopWithinTarget
  split
  · exact hb
  · dsimp only
    split
    · exact hb
    · exact instancesForStopLocked_balanced hb _

/-- `n` more starts are in progress on a worker, and `l` are its instances. -/
def restart (a : SandboxActuator) (idx : Nat) (l : List TrackedInstance) (total n : Int) :
    SandboxActuator :=
  { a.setWorker idx ⟨l, a.startsOn idx + n⟩ with
    pendingStarts := a.pendingStarts + n
    totalInstances := total }

theorem reserveLocalStart_ok {placement enforceTarget : Bool} {workerID : Nat} {spec : FunctionSpec}
    {reason : String} (h : a.reserveLocalStart placement workerID spec reason enforceTarget = .ok a') :
    0 < workerID ∧ workerID ≤ a.workers ∧
      a' = a.restart (workerID - 1) (a.tracked (workerID - 1)) a.totalInstances 1 := by
  unfold reserveLocalStart at h
  dsimp only at h
  iterate 6
    split at h
    · cases h
  rename_i hid _ _ _ _ _
  simp only [Except.ok.injEq] at h
  exact ⟨by omega, by omega, h.symm⟩

theorem failStart_eq (a : SandboxActuator) (idx : Nat) :
    a.failStart idx = a.restart idx (a.tracked idx) a.totalInstances (-1) := rfl

theorem registerStart_eq (a : SandboxActuator) (idx : Nat) (inst : TrackedInstance) :
    a.registerStart idx inst =
      a.restart idx (a.tracked idx ++ [inst]) (a.totalInstances + 1) (-1) := rfl

theorem restart_other (a : SandboxActuator) {j : Nat} (hj : j ≠ idx) (l : List TrackedInstance)
    (total n : Int) : (a.restart idx l total n).workerInstances j = a.workerInstances j := by
  simp [restart, setWorker, hj]

@[simp] theorem restart_totalInstances (a : SandboxActuator) (idx : Nat)
    (l : List TrackedInstance) (total n : Int) :
    (a.restart idx l total n).totalInstances = total := rfl

@[simp] theorem restart_pendingStarts (a : SandboxActuator) (idx : Nat)
    (l : List TrackedInstance) (total n : Int) :
    (a.restart idx l total n).pendingStarts = a.pendingStarts + n := rfl

@[simp] theorem restart_pendingStops (a : SandboxActuator) (idx : Nat)
    (l : List TrackedInstance) (total n : Int) :
    (a.restart idx l total n).pendingStops = a.pendingStops := rfl

@[simp] theorem restart_tracked (a : SandboxActuator) (idx : Nat) (l : List TrackedInstance)
    (total n : Int) : (a.restart idx l total n).tracked idx = l := by
  simp [tracked, restart, setWorker]

theorem registerStart_tracked (a : SandboxActuator) (idx : Nat) (inst : TrackedInstance) (j : Nat) :
    (a.registerStart idx inst).tracked j = a.tracked j ++ if idx = j then [inst] else [] := by
  rw [registerStart_eq]
  by_cases hj : idx = j
  · subst hj
    simp
  · rw [tracked, restart_other _ (Ne.symm hj)]
    simp [hj, tracked]

@[simp] theorem restart_startsOn (a : SandboxActuator) (idx : Nat) (l : List TrackedInstance)
    (total n : Int) : (a.restart idx l total n).startsOn idx = a.startsOn idx + n := by
  simp [startsOn, restart, setWorker]

theorem Balanced.restart (h : a.Balanced) {total : Int} (n : Int) (hb : idx < a.workers)
    (htotal : total = a.totalInstances + ((l.length : Int) - (a.tracked idx).length))
    (hmarks : marks l = marks (a.tracked idx)) : (a.restart idx l total n).Balanced := by
  apply h.change (a.restart idx l total n) hb rfl (fun j hj => restart_other a hj l total n)
  · simpa using htotal
  · simp
  · simp [hmarks]

theorem setTarget_balanced (h : a.Balanced) (desired : Int) (reason : String) :
    (a.setTarget desired reason).Balanced :=
  ⟨h.total, h.starts, h.stops⟩

theorem toNat_le_marks {x : TrackedInstance} (h : x ∈ l) : x.stopping.toNat ≤ marks l := by
  obtain ⟨pre, post, rfl⟩ := List.append_of_mem h
  simp only [marks_append, marks_cons]
  omega

theorem Balanced.clear_agree (h : a.Balanced) (hb : idx < a.workers) {x : TrackedInstance}
    (hx : x ∈ a.tracked idx) :
    clearStop x.stopping a.pendingStops = clearStopUnguarded x.stopping a.pendingStops := by
  have hle := h.marks_le hb
  have hx' := toNat_le_marks hx
  rw [clearStop_eq x.stopping (by omega), clearStopUnguarded_eq]

theorem Balanced.cancelStop_unguarded (h : a.Balanced) (idx id : Nat) :
    a.cancelStop idx id = a.cancelStopWith clearStopUnguarded idx id := by
  unfold cancelStop cancelStopWith
  by_cases hb : idx ≥ a.workers
  · rw [if_pos hb, if_pos hb]
  · rw [if_neg hb, if_neg hb]
    cases hu : unmark id (a.workerInstances idx).instances with
    | none => simp [hu]
    | some l =>
      obtain ⟨pre, x, post, hl, -, -, hs⟩ := unmark_some hu
      have hx : x ∈ a.tracked idx := by simp [tracked, hl]
      have hc := h.clear_agree (by omega) hx
      rw [hs] at hc
      simp only [hu, hc]

theorem Balanced.removeInstance_unguarded (h : a.Balanced) (idx id : Nat) :
    a.removeInstance idx id = a.removeInstanceWith clearStopUnguarded idx id := by
  unfold removeInstance removeInstanceWith
  by_cases hb : idx ≥ a.workers
  · rw [if_pos hb, if_pos hb]
  · rw [if_neg hb, if_neg hb]
    cases hf : (a.workerInstances idx).instances.findIdx? (fun inst => inst.id == id) with
    | none => simp [hf]
    | some i =>
      cases hx : (a.workerInstances idx).instances[i]? with
      | none => simp [hf, hx]
      | some x =>
        have hb' : idx < a.workers := by omega
        have hc := h.clear_agree hb' (List.mem_of_getElem? hx)
        simp only [hf, hx, hc]

theorem Balanced.reconcileWorkerState_unguarded (h : a.Balanced) (idx : Nat)
    (presence : WorkerPresence) :
    a.reconcileWorkerState idx presence =
      a.reconcileWorkerStateWith clearStopUnguarded idx presence := by
  unfold reconcileWorkerState reconcileWorkerStateWith
  by_cases hb : idx ≥ a.workers
  · rw [if_pos hb, if_pos hb]
  · rw [if_neg hb, if_neg hb]
    have hb' : idx < a.workers := by omega
    have hle := h.marks_le hb'
    have hsub : marks ((a.tracked idx).filter (fun x => !keeps presence x)) ≤
        marks (a.tracked idx) := List.filter_sublist.countP_le
    have hc := clears_guarded ((a.tracked idx).filter (fun x => !keeps presence x))
      (n := a.pendingStops) (by omega)
    rw [← clears_unguarded] at hc
    simp only [tracked] at hc
    simp only [sift_eq, hc]

theorem Balanced.handleSandboxRemoved_unguarded (h : a.Balanced) (idx id revision : Nat) :
    a.handleSandboxRemoved idx id revision =
      a.handleSandboxRemovedWith clearStopUnguarded idx id revision := by
  unfold handleSandboxRemoved handleSandboxRemovedWith
  by_cases hb : idx ≥ a.workers
  · rw [if_pos hb, if_pos hb]
  · rw [if_neg hb, if_neg hb]
    cases hf : (a.workerInstances idx).instances.find? (fun inst => inst.id == id) with
    | none => simp [hf]
    | some x =>
      have hb' : idx < a.workers := by omega
      have hc := h.clear_agree hb' (List.mem_of_find?_eq_some hf)
      simp only [hf, hc]

end SandboxActuator

end HyperFaaS.Autoscaling

import HyperFaaS.Autoscaling.ActuatorLedger

/-!
What each section of the actuator does to `future`, the scale that reservations
are checked against. Where the counters are right it is the number of instances
not marked stopping plus the pending starts.

* `Drops.future`, `Marks.future`, `cancelStop_future`, `restart_future`: by how
  much it moves;
* `reserveLocalStart_guard`, `instancesForStopWithinTarget_le`: what a
  reservation has found under the lock.
-/

namespace HyperFaaS.Autoscaling

namespace SandboxActuator

variable {clear : Bool → Int → Int} {a a' : SandboxActuator} {idx : Nat}
  {xs : List TrackedInstance}

/-- The number of instances that are not marked. -/
def unmarked (l : List TrackedInstance) : Nat := l.countP (fun x => !x.stopping)

@[simp] theorem unmarked_append (l l' : List TrackedInstance) :
    unmarked (l ++ l') = unmarked l + unmarked l' := by
  simp [unmarked, List.countP_append]

@[simp] theorem unmarked_cons (x : TrackedInstance) (l : List TrackedInstance) :
    unmarked (x :: l) = unmarked l + (!x.stopping).toNat := by
  cases h : x.stopping <;> simp [unmarked, h]

theorem unmarked_perm {l l' : List TrackedInstance} (h : l.Perm l') : unmarked l = unmarked l' :=
  h.countP_eq _

theorem unmarked_add_marks (l : List TrackedInstance) : unmarked l + marks l = l.length := by
  induction l with
  | nil => rfl
  | cons x l ih =>
    rw [unmarked_cons, marks_cons, List.length_cons]
    cases x.stopping <;> simp <;> omega

/-- The instances of all workers that are not marked. -/
def unmarkedTotal (a : SandboxActuator) : Nat :=
  ∑ idx ∈ Finset.range a.workers, unmarked (a.tracked idx)

/-- **The scale of reservations** counts the unmarked instances and the pending starts. -/
theorem Balanced.future_eq (h : a.Balanced) :
    a.future = (a.unmarkedTotal : Int) + a.pendingStarts := by
  have hsum : a.totalInstances = (a.unmarkedTotal : Int) + a.pendingStops := by
    rw [h.total, h.stops, unmarkedTotal, Nat.cast_sum, ← Finset.sum_add_distrib]
    refine Finset.sum_congr rfl fun j _ => ?_
    have hj := unmarked_add_marks (a.tracked j)
    omega
  unfold future
  omega

/-! ## Moves -/

theorem Drops.future (h : Drops clearStop a a' idx xs) (hb : a.Balanced) :
    a'.future + unmarked xs = a.future := by
  have hlen := unmarked_add_marks xs
  have hguard := clears_guarded xs (h.marks_le hb)
  rw [h.eq]
  simp only [SandboxActuator.future, edit_totalInstances, edit_pendingStops, edit_pendingStarts,
    hguard]
  omega

theorem Drops.unmarked_sub (h : Drops clear a a' idx xs) :
    unmarked (a.tracked idx) - unmarked (a'.tracked idx) = unmarked xs := by
  rw [unmarked_perm h.perm, unmarked_append]
  omega

theorem Marks.future {items : List StopItem} (h : Marks a a' items) :
    a'.future + items.length = a.future := by
  rw [h.eq]
  simp only [SandboxActuator.future]
  omega

theorem cancelStop_future (hb : a.Balanced) (idx id : Nat) :
    (a.cancelStop idx id).future = a.future +
      ((unmarked ((a.cancelStop idx id).tracked idx) - unmarked (a.tracked idx) : Nat) : Int) := by
  rcases cancelStopWith_spec clearStop a idx id with ⟨he, -⟩ | ⟨pre, x, post, hlt, hl, -, hs, he⟩
  · rw [cancelStop, he]
    simp
  · have hle := hb.marks_le hlt
    rw [hl, marks_append, marks_cons, hs] at hle
    have hone : (true.toNat : Int) ≤ a.pendingStops := by omega
    rw [cancelStop, he, edit_tracked, hl, future, edit_totalInstances,
      edit_pendingStops, edit_pendingStarts, clearStop_eq true hone]
    simp only [unmarked_append, unmarked_cons, hs, Bool.toNat_true, Bool.not_true, Bool.not_false,
      Bool.toNat_false, future]
    omega

theorem cancelStop_targetInstances (a : SandboxActuator) (idx id : Nat) :
    (a.cancelStop idx id).targetInstances = a.targetInstances := by
  rcases cancelStopWith_spec clearStop a idx id with ⟨he, -⟩ | ⟨pre, x, post, -, -, -, -, he⟩
  · rw [cancelStop, he]
  · rw [cancelStop, he]
    rfl

theorem cancelStop_pendingStarts (a : SandboxActuator) (idx id : Nat) :
    (a.cancelStop idx id).pendingStarts = a.pendingStarts := by
  rcases cancelStopWith_spec clearStop a idx id with ⟨he, -⟩ | ⟨pre, x, post, -, -, -, -, he⟩
  · rw [cancelStop, he]
  · rw [cancelStop, he]
    rfl

theorem restart_future (a : SandboxActuator) (idx : Nat) (l : List TrackedInstance)
    (total n : Int) :
    (a.restart idx l total n).future = a.future + (total - a.totalInstances) + n := by
  simp only [future, restart_totalInstances, restart_pendingStarts,
    restart_pendingStops]
  omega

/-! ## What a reservation has found -/

theorem reserveLocalStart_guard {placement enforceTarget : Bool} {workerID : Nat}
    {spec : FunctionSpec} {reason : String}
    (h : a.reserveLocalStart placement workerID spec reason enforceTarget = .ok a') :
    (enforceTarget = true → a.future < a.targetInstances) ∧
      ∀ s, spec.scale = some s → 0 < s.maxInstances → a.future < s.maxInstances := by
  unfold reserveLocalStart at h
  dsimp only at h
  iterate 6
    split at h
    · cases h
  rename_i _ _ _ htarget _ hmax
  constructor
  · intro he
    by_contra hge
    exact htarget ⟨he, by omega⟩
  · intro s hs hpos
    by_contra hge
    refine hmax ?_
    rw [hs]
    simp only [Option.any_some, Bool.and_eq_true, decide_eq_true_eq]
    exact ⟨hpos, by omega⟩

theorem markStopping_length (idx n : Nat) (l : List TrackedInstance) :
    (markStopping idx n l).2.1.length + (markStopping idx n l).2.2 = n := by
  induction l generalizing n with
  | nil => cases n <;> simp [markStopping]
  | cons x l ih =>
    cases n with
    | zero => simp [markStopping]
    | succ n =>
      cases hx : x.stopping with
      | true =>
        have he : markStopping idx (n + 1) (x :: l) =
            (x :: (markStopping idx (n + 1) l).1, (markStopping idx (n + 1) l).2) := by
          simp [markStopping, hx]
        rw [he]
        exact ih (n + 1)
      | false =>
        have he : markStopping idx (n + 1) (x :: l) =
            ({ x with stopping := true } :: (markStopping idx n l).1,
              ⟨idx, x.id, x.address⟩ :: (markStopping idx n l).2.1, (markStopping idx n l).2.2) := by
          simp [markStopping, hx]
        have hn := ih n
        rw [he]
        simp only [List.length_cons]
        omega

theorem markWorkers_length (l : List Nat) (n : Nat) (a : SandboxActuator) :
    (markWorkers l n a).2.length ≤ n := by
  induction l generalizing n a with
  | nil => simp [markWorkers]
  | cons idx l ih =>
    have hone := markStopping_length idx n (a.tracked idx)
    have hrest := ih (a.markWorker idx n).2.2 (a.markWorker idx n).1
    have he : (markWorkers (idx :: l) n a).2 = (a.markWorker idx n).2.1 ++
        (markWorkers l (a.markWorker idx n).2.2 (a.markWorker idx n).1).2 := rfl
    rw [he, List.length_append]
    simp only [markWorker_eq] at hrest ⊢
    omega

theorem markStopping_min (idx n : Nat) (l : List TrackedInstance) :
    (markStopping idx n l).2.1.length = min n (unmarked l) := by
  induction l generalizing n with
  | nil => cases n <;> simp [markStopping, unmarked]
  | cons x l ih =>
    cases n with
    | zero => simp [markStopping]
    | succ n =>
      cases hx : x.stopping with
      | true =>
        have he : (markStopping idx (n + 1) (x :: l)).2 = (markStopping idx (n + 1) l).2 := by
          simp [markStopping, hx]
        rw [he, ih (n + 1), unmarked_cons, hx]
        simp
      | false =>
        have he : (markStopping idx (n + 1) (x :: l)).2.1 =
            ⟨idx, x.id, x.address⟩ :: (markStopping idx n l).2.1 := by simp [markStopping, hx]
        rw [he, List.length_cons, ih n, unmarked_cons, hx]
        simp

theorem markWorkers_min (l : List Nat) (n : Nat) (a : SandboxActuator) (hl : l.Nodup) :
    (markWorkers l n a).2.length = min n ((l.map fun idx => unmarked (a.tracked idx)).sum) := by
  induction l generalizing n a with
  | nil => simp [markWorkers]
  | cons idx l ih =>
    obtain ⟨hidx, hl⟩ := List.nodup_cons.mp hl
    have he : (markWorkers (idx :: l) n a).2 = (a.markWorker idx n).2.1 ++
        (markWorkers l (a.markWorker idx n).2.2 (a.markWorker idx n).1).2 := rfl
    -- the lists of the workers that are left are not touched
    have hrest : (l.map fun j => unmarked ((a.markWorker idx n).1.tracked j)) =
        l.map fun j => unmarked (a.tracked j) := by
      refine List.map_congr_left fun j hj => ?_
      have hne : j ≠ idx := by
        rintro rfl
        exact hidx hj
      rw [markWorker_eq, edit_tracked_other a hne]
    have hmin := markStopping_min idx n (a.tracked idx)
    have hlen := markStopping_length idx n (a.tracked idx)
    rw [he, List.length_append, ih _ _ hl, hrest, List.map_cons, List.sum_cons]
    simp only [markWorker_eq]
    omega

theorem instancesForStop_length (a : SandboxActuator) {count : Int} (hle : count ≤ a.unmarkedTotal) :
    ((a.instancesForStop count).2.length : Int) = max 0 count := by
  unfold instancesForStop
  by_cases hc : count ≤ 0
  · rw [if_pos hc]
    simp only [List.length_nil]
    omega
  · rw [if_neg hc, instancesForStopLocked, markWorkers_min _ _ _ List.nodup_range]
    have hsum : ((List.range a.workers).map fun idx => unmarked (a.tracked idx)).sum =
        a.unmarkedTotal := rfl
    rw [hsum]
    omega

theorem instancesForStopWithinTarget_le (a : SandboxActuator) (count : Int)
    (hne : (a.instancesForStopWithinTarget count).2 ≠ []) :
    ((a.instancesForStopWithinTarget count).2.length : Int) ≤ a.future - a.targetInstances := by
  unfold instancesForStopWithinTarget at hne ⊢
  by_cases hc : count ≤ 0
  · rw [if_pos hc] at hne
    exact absurd rfl hne
  · rw [if_neg hc] at hne ⊢
    dsimp only at hne ⊢
    by_cases he : a.future - a.targetInstances ≤ 0
    · rw [if_pos he] at hne
      exact absurd rfl hne
    · rw [if_neg he]
      have hlen := markWorkers_length (List.range a.workers)
        (if count > a.future - a.targetInstances then a.future - a.targetInstances else count).toNat a
      unfold instancesForStopLocked
      split at hlen
      · rename_i hgt
        rw [if_pos hgt]
        omega
      · rename_i hgt
        rw [if_neg hgt]
        omega

end SandboxActuator

end HyperFaaS.Autoscaling

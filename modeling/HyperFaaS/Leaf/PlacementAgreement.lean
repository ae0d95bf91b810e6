import HyperFaaS.Leaf.PlacementCalls
import HyperFaaS.Leaf.Roster

/-!
The placement ledger's `instances` counters against the actuators' lists. An
instance is appended to its list before its start is committed to the ledger,
and taken off its list before its stop is recorded, so between the two the
counter is behind. The balance `Agreement.counter` says by how much: it holds
as long as no instance leaves its list before its own start is committed.
-/

namespace HyperFaaS.Leaf

open Function Runtime.PC Runtime.World

open Autoscaling

namespace World

variable {w w' : World}

/-- The start is between its append and the `instances.Add(1)` of its commit. -/
def uncommitted (w : World) (j : Nat) : Bool :=
  match (w.job j).pc with
  | .registered => true
  | .completing t => (w.placement.pc t).completion.any Prod.fst
  | _ => false

/-- How many instances of a removal are between their delete and the end of
their `RecordStop`. -/
def unrecorded (w : World) (m : Nat) : Nat :=
  match (w.removal m).pc with
  | .recording => (w.removal m).items.length
  | .waiting t => ((w.removal m).items.length - 1) + (w.placement.pc t).recordOf.isSome.toNat
  | _ => (w.removal m).items.length - 1

/-- The instances that all actuators track on one worker. -/
def trackedOn (w : World) (idx : Nat) : Nat :=
  ∑ f ∈ Finset.range w.functions, ((w.actuator f).tracked idx).length

def uncommittedOn (w : World) (idx : Nat) : Nat :=
  Nat.count (fun j => (w.uncommitted j && decide ((w.job j).worker = idx)) = true) w.njobs

def unrecordedOn (w : World) (idx : Nat) : Nat :=
  ∑ m ∈ Finset.range w.nremovals, if (w.removal m).worker = idx then w.unrecorded m else 0

/-- The instances a step takes off a list: function, worker and id of each. -/
def evicts (w : World) : Action → List (Nat × Nat × Nat)
  | .remove k =>
      [((w.stop k).function, (w.stop k).item.workerIdx, (w.stop k).item.instanceID)]
  | .reconcile f idx presence =>
      ((w.actuator f).reconcileWorkerState idx presence).2.map fun x => (f, idx, x.id)
  | .sandboxRemoved f idx id revision =>
      ((w.actuator f).handleSandboxRemoved idx id revision).2.map fun x => (f, idx, x.id)
  | _ => []

/-- No instance that the step takes off its list has a start that is not yet
committed. -/
def sparesUncommitted (w : World) (a : Action) : Bool :=
  (List.range w.njobs).all fun j => !w.uncommitted j ||
    decide (((w.job j).function, (w.job j).worker, (w.job j).inst.instanceId) ∉ w.evicts a)

structure Agreement (w : World) : Prop where
  workers : w.placement.state.workers = w.workers
  bounded : ∀ t i, (w.placement.pc t).recordOf = some i → i < w.workers
  counter : ∀ idx, idx < w.workers →
    (w.placement.state.worker idx).instances + w.uncommittedOn idx =
      w.trackedOn idx + w.unrecordedOn idx
  present : ∀ j, w.uncommitted j = true →
    ∃ x ∈ (w.actuator (w.job j).function).tracked (w.job j).worker,
      x.id = (w.job j).inst.instanceId

variable {j t f m idx : Nat} {p : Runtime.World}

theorem Roster.lt_of_uncommitted (h : w.Roster) (hj : w.uncommitted j = true) : j < w.njobs := by
  by_contra hge
  simp [uncommitted, (h.unborn j (by omega)).1] at hj

theorem Agreement.uncommitted_le (h : w.Agreement) (hr : w.Roster) (idx : Nat) :
    w.uncommittedOn idx ≤ w.trackedOn idx := by
  have hfound {j : Nat} (hj : (w.uncommitted j && decide ((w.job j).worker = idx)) = true) :
      ∃ x ∈ (w.actuator (w.job j).function).tracked idx, x.id = (w.job j).inst.instanceId := by
    simp only [Bool.and_eq_true, decide_eq_true_eq] at hj
    exact hj.2 ▸ h.present j hj.1
  have hlength : w.trackedOn idx = ((List.range w.functions).flatMap fun f =>
      ((w.actuator f).tracked idx).map (·.id)).length := by
    simp only [List.length_flatMap, List.length_map]
    rfl
  rw [hlength]
  refine Lib.count_le_length (fun j => (w.job j).inst.instanceId) ?_ ?_
  · intro j hlt hj
    obtain ⟨x, hx, hid⟩ := hfound hj
    have hf := List.mem_range.mpr (hr.functions j hlt)
    exact List.mem_flatMap.mpr ⟨_, hf, List.mem_map.mpr ⟨x, hx, hid⟩⟩
  · intro i j _ _ hi _ heq
    obtain ⟨x, hx, hid⟩ := hfound hi
    exact hr.distinct i j heq (hid ▸ (hr.valid _ _ x hx).1)

theorem Agreement.instances_pos (h : w.Agreement) (hr : w.Roster) (hc : w.Calls) {i : Nat}
    (ht : (w.placement.pc t).recordOf = some i) : 0 < (w.placement.state.worker i).instances := by
  have hle := h.uncommitted_le hr i
  have hcounter := h.counter i (h.bounded t i ht)
  obtain ⟨m, hm⟩ := hc.recorder t i ht
  have hworker := (hc.waiting m t hm).2 i ht
  have hlt := hc.removal_lt hm (by simp)
  have hone : 1 ≤ w.unrecordedOn i := by
    have hterm : 1 ≤ if (w.removal m).worker = i then w.unrecorded m else 0 := by
      rw [if_pos hworker.symm]
      simp [unrecorded, hm, ht]
    exact hterm.trans (Finset.single_le_sum
      (f := fun m => if (w.removal m).worker = i then w.unrecorded m else 0)
      (fun _ _ => Nat.zero_le _) (Finset.mem_range.mpr hlt))
  omega

/-! ## Steps that leave the balance alone -/

/-- What a step that leaves the balance alone may do: reorder and mark instances, add a
start that has appended nothing, move starts and removals that stay as far as they were. -/
structure Steady (w w' : World) : Prop where
  workers : w'.workers = w.workers := by rfl
  functions : w'.functions = w.functions := by rfl
  nremovals : w'.nremovals = w.nremovals := by rfl
  ledger : w'.placement.state.workers = w.placement.state.workers := by rfl
  instances : ∀ idx, (w'.placement.state.worker idx).instances =
    (w.placement.state.worker idx).instances := by exact fun _ => rfl
  bounded : ∀ t i, (w'.placement.pc t).recordOf = some i →
    (w.placement.pc t).recordOf = some i ∨ i < w.workers := by exact fun _ _ h => .inl h
  njobs : w'.njobs = w.njobs ∨ w'.njobs = w.njobs + 1 ∧ w'.uncommitted w.njobs = false := by
    exact .inl rfl
  uncommitted : ∀ j, w'.uncommitted j = w.uncommitted j := by exact fun _ => rfl
  job : ∀ j, w.uncommitted j = true → (w'.job j).function = (w.job j).function ∧
    (w'.job j).worker = (w.job j).worker ∧ (w'.job j).inst = (w.job j).inst := by
    exact fun _ _ => ⟨rfl, rfl, rfl⟩
  removal : ∀ m, (w'.removal m).worker = (w.removal m).worker ∧
    ((w.removal m).worker < w.workers → w'.unrecorded m = w.unrecorded m) := by
    exact fun _ => ⟨rfl, fun _ => rfl⟩
  lists : ∀ f idx, (((w'.actuator f).tracked idx).map key).Perm
    (((w.actuator f).tracked idx).map key) := by exact fun _ _ => .refl _

theorem Agreement.steady (h : w.Agreement) (s : Steady w w') : w'.Agreement where
  workers := s.ledger.trans (h.workers.trans s.workers.symm)
  bounded t i hi := by
    rw [s.workers]
    exact (s.bounded t i hi).elim (h.bounded t i) id
  counter idx hidx := by
    rw [s.workers] at hidx
    have htracked : w'.trackedOn idx = w.trackedOn idx := by
      rw [trackedOn, s.functions]
      refine Finset.sum_congr rfl fun g _ => ?_
      rw [← List.length_map key, (s.lists g idx).length_eq, List.length_map]
    have hrecord : w'.unrecordedOn idx = w.unrecordedOn idx := by
      rw [unrecordedOn, s.nremovals]
      refine Finset.sum_congr rfl fun m _ => ?_
      obtain ⟨hworker, hsame⟩ := s.removal m
      rw [hworker]
      split
      · rename_i he
        exact hsame (he ▸ hidx)
      · rfl
    have hpoint : ∀ j, (w'.uncommitted j && decide ((w'.job j).worker = idx)) =
        (w.uncommitted j && decide ((w.job j).worker = idx)) := by
      intro j
      rw [s.uncommitted]
      cases hu : w.uncommitted j with
      | false => rfl
      | true => rw [(s.job j hu).2.1]
    have hcommit : w'.uncommittedOn idx = w.uncommittedOn idx := by
      rcases s.njobs with hn | ⟨hn, hnew⟩
      · rw [uncommittedOn, hn]
        exact Lib.count_congr fun j _ => by rw [hpoint]
      · rw [uncommittedOn, hn]
        exact Lib.count_grow (by simp [hnew]) fun j _ => by rw [hpoint]
    rw [s.instances, htracked, hrecord, hcommit]
    exact h.counter idx hidx
  present j hj := by
    rw [s.uncommitted] at hj
    obtain ⟨hf, hw, hinst⟩ := s.job j hj
    obtain ⟨x, hx, hid⟩ := h.present j hj
    obtain ⟨y, hy, hyk⟩ := List.mem_map.mp ((s.lists _ _).mem_iff.mpr (List.mem_map_of_mem hx))
    rw [hf, hw, hinst]
    exact ⟨y, hy, (congrArg Prod.fst hyk).trans hid⟩

/-- One actuator changes no more than the order and the marks of its instances. -/
theorem Agreement.relist (h : w.Agreement) {a : SandboxActuator}
    (hk : ∀ idx, ((a.tracked idx).map key).Perm (((w.actuator f).tracked idx).map key)) :
    (w.setActuator f a).Agreement := by
  refine h.steady ⟨rfl, rfl, rfl, rfl, fun _ => rfl, fun _ _ => .inl, .inl rfl, fun _ => rfl,
    fun _ _ => ⟨rfl, rfl, rfl⟩, fun _ => ⟨rfl, fun _ => rfl⟩, fun g idx => ?_⟩
  by_cases hg : g = f
  · subst hg
    simpa [setActuator] using hk idx
  · simp [setActuator, hg]

theorem Agreement.setJob (h : w.Agreement) {x : Job}
    (hu : (w.setJob j x).uncommitted j = w.uncommitted j)
    (hx : w.uncommitted j = true → x.function = (w.job j).function ∧
      x.worker = (w.job j).worker ∧ x.inst = (w.job j).inst) : (w.setJob j x).Agreement := by
  have hjob : ∀ i, (w.setJob j x).job i = if i = j then x else w.job i :=
    update_apply _ _ _
  refine h.steady ⟨rfl, rfl, rfl, rfl, fun _ => rfl, fun _ _ => .inl, .inl rfl, fun i => ?_,
    fun i hi => by grind, fun _ => ⟨rfl, fun _ => rfl⟩, fun _ _ => .refl _⟩
  by_cases hij : i = j
  · rw [hij, hu]
  · simp only [uncommitted, hjob, if_neg hij]
    rfl

theorem Agreement.idle (h : w.Agreement) {x : Job} (hb : w.uncommitted j = false)
    (ha : (w.setJob j x).uncommitted j = false) : (w.setJob j x).Agreement := by
  refine h.setJob (ha.trans hb.symm) fun hu => ?_
  rw [hb] at hu
  cases hu

/-- A removal moves on and has as many stops to record as before; a worker that
does not exist has no counter. -/
theorem Agreement.setRemoval (h : w.Agreement) {x : Removal} (hx : x.worker = (w.removal m).worker)
    (hu : (w.removal m).worker < w.workers → (w.setRemoval m x).unrecorded m = w.unrecorded m) :
    (w.setRemoval m x).Agreement := by
  have hset : ∀ n, (w.setRemoval m x).removal n = if n = m then x else w.removal n :=
    update_apply _ _ _
  refine h.steady ⟨rfl, rfl, rfl, rfl, fun _ => rfl, fun _ _ => .inl, .inl rfl, fun _ => rfl,
    fun _ _ => ⟨rfl, rfl, rfl⟩, fun n => ⟨by grind, fun hn => ?_⟩, fun _ _ => .refl _⟩
  by_cases hnm : n = m
  · subst hnm
    exact hu hn
  · simp only [unrecorded, hset, if_neg hnm]
    rfl

theorem Agreement.spawn (h : w.Agreement) (hc : w.Calls) {y : Runtime.PC}
    (hy : ∀ i, y.recordOf = some i → i < w.workers) :
    (w.setPlacement (w.placement.spawn y)).Agreement := by
  refine h.steady ⟨rfl, rfl, rfl, rfl, fun _ => rfl, fun t i hi => ?_, .inl rfl, fun j => ?_,
    fun _ _ => ⟨rfl, rfl, rfl⟩, fun m => ⟨rfl, fun _ => ?_⟩, fun _ _ => .refl _⟩
  · have hi : (update w.placement.pc w.placement.nthreads y t).recordOf = some i := hi
    rw [update_apply] at hi
    split at hi
    · exact .inr (hy i hi)
    · exact .inl hi
  · simp only [uncommitted, setPlacement]
    cases hpc : (w.job j).pc with
    | completing t => simp only [spawn_pc _ _ (hc.inside j t hpc)]
    | _ => rfl
  · simp only [unrecorded, setPlacement]
    cases hpc : (w.removal m).pc with
    | waiting t => simp only [spawn_pc _ _ (hc.waiting m t hpc).1]
    | _ => rfl

theorem Agreement.spawnJob (h : w.Agreement) {x : Job} (hx : x.pc = .scheduling)
    (hidle : (w.job w.njobs).pc = .idle) : (w.spawnJob x).Agreement := by
  have hjob : ∀ i, (w.spawnJob x).job i = if i = w.njobs then x else w.job i :=
    update_apply _ _ _
  have hnone : w.uncommitted w.njobs = false := by simp [uncommitted, hidle]
  have hnew : (w.spawnJob x).uncommitted w.njobs = false := by
    simp [uncommitted, hjob, hx]
  refine h.steady ⟨rfl, rfl, rfl, rfl, fun _ => rfl, fun _ _ => .inl, .inr ⟨rfl, hnew⟩, fun i => ?_,
    fun i hi => by grind, fun _ => ⟨rfl, fun _ => rfl⟩, fun _ _ => .refl _⟩
  by_cases hi : i = w.njobs
  · rw [hi, hnew, hnone]
  · simp only [uncommitted, hjob, if_neg hi]
    rfl

/-! ## Appending and taking off -/

theorem trackedOn_setActuator (hf : f < w.functions) (a : SandboxActuator) (idx : Nat) :
    (w.setActuator f a).trackedOn idx + ((w.actuator f).tracked idx).length =
      w.trackedOn idx + (a.tracked idx).length := by
  have hsum := Lib.sum_update (f := fun g => ((w.actuator g).tracked idx).length)
    (g := fun g => (((w.setActuator f a).actuator g).tracked idx).length) hf (by
      intro g hg
      simp [setActuator, hg])
  simpa [setActuator, trackedOn] using hsum

/-- A start ends: the list has one instance more, and the start is uncommitted. -/
theorem Agreement.register (h : w.Agreement) (hr : w.Roster) (hpc : (w.job j).pc = .added) :
    ((w.setActuator (w.job j).function ((w.actuator (w.job j).function).registerStart
      (w.job j).worker (trackedOf (w.job j).inst))).goJob j .registered).Agreement := by
  have hlt := hr.lt_njobs hpc (by simp)
  have hlists := (w.actuator (w.job j).function).registerStart_tracked (w.job j).worker
    (trackedOf (w.job j).inst)
  generalize hb : (w.actuator (w.job j).function).registerStart (w.job j).worker
    (trackedOf (w.job j).inst) = b at hlists
  have htracked := trackedOn_setActuator (hr.functions j hlt) b
  generalize hw : (w.setActuator (w.job j).function b).goJob j .registered = w'
  have hjob (i : Nat) : w'.job i = if i = j then { w.job j with pc := .registered } else w.job i :=
    hw ▸ update_apply _ _ _ _
  have hactuator (g : Nat) : w'.actuator g = if g = (w.job j).function then b else w.actuator g :=
    hw ▸ update_apply _ _ _ _
  have hbefore : w.uncommitted j = false := by simp [uncommitted, hpc]
  have hnew : w'.uncommitted j = true := by simp [uncommitted, hjob]
  have hold (i : Nat) (hi : i ≠ j) : w'.uncommitted i = w.uncommitted i := by
    simp only [uncommitted, hjob, if_neg hi]
    subst hw
    rfl
  constructor
  case workers => subst hw; exact h.workers
  case bounded => subst hw; exact h.bounded
  case counter =>
    intro idx hidx
    have hcounter := h.counter idx (by subst hw; exact hidx)
    have hcount := Lib.count_update (n := w.njobs)
      (p := fun i => w.uncommitted i && decide ((w.job i).worker = idx))
      (q := fun i => w'.uncommitted i && decide ((w'.job i).worker = idx)) hlt fun i hi => by
        simp only [hold i hi, hjob, if_neg hi]
    have hself : (w'.uncommitted j && decide ((w'.job j).worker = idx)) =
        decide ((w.job j).worker = idx) := by
      rw [hnew, hjob, if_pos rfl, Bool.true_and]
    simp only [hself, hbefore, Bool.false_and, Bool.toNat_false, Nat.add_zero] at hcount
    have ht := htracked idx
    have hone : (if (w.job j).worker = idx then [trackedOf (w.job j).inst] else []).length =
        (decide ((w.job j).worker = idx)).toNat := by
      by_cases hworker : (w.job j).worker = idx <;> simp [hworker]
    rw [hlists idx, List.length_append, hone] at ht
    have hn : w'.njobs = w.njobs := by subst hw; rfl
    rw [uncommittedOn, hn, hcount]
    subst hw
    change (w.placement.state.worker idx).instances + (w.uncommittedOn idx + _) =
      (w.setActuator (w.job j).function b).trackedOn idx + w.unrecordedOn idx
    omega
  case present =>
    intro i hi
    rcases eq_or_ne i j with rfl | hij
    · exact ⟨trackedOf (w.job i).inst, by grind, by grind [trackedOf]⟩
    · obtain ⟨x, hx, hid⟩ := h.present i (hold i hij ▸ hi)
      exact ⟨x, by grind, by grind⟩

/-- Instances leave one list, and a removal takes over what is left to do for
them. None of them is that of an uncommitted start. -/
theorem Agreement.drops (h : w.Agreement) (hr : w.Roster) {a : SandboxActuator}
    {clear : Bool → Int → Int} {xs : List TrackedInstance}
    (hd : SandboxActuator.Drops clear (w.actuator f) a idx xs)
    (hspare : ∀ j, w.uncommitted j = true → (w.job j).function = f → (w.job j).worker = idx →
      ∀ x ∈ xs, x.id ≠ (w.job j).inst.instanceId) :
    ((w.setActuator f a).spawnRemoval f idx (xs.map (·.id))).Agreement := by
  have hkept (i : Nat) : (a.tracked i).length + (if idx = i then xs.length else 0) =
      ((w.actuator f).tracked i).length := by
    rcases eq_or_ne idx i with rfl | hi
    · rw [if_pos rfl, hd.perm.length_eq, List.length_append, Nat.add_comm]
    · rw [if_neg hi, hd.other hi.symm, Nat.add_zero]
  have htracked (i : Nat) : (w.setActuator f a).trackedOn i + (if idx = i then xs.length else 0) =
      w.trackedOn i := by
    have hlength := hkept i
    by_cases hf : f < w.functions
    · have ht := trackedOn_setActuator hf a i
      omega
    · -- a function that was never added has nothing to drop
      rw [hr.outside f (by omega) i, List.length_nil] at hlength
      have hsame : (w.setActuator f a).trackedOn i = w.trackedOn i := by
        refine Finset.sum_congr rfl fun g hg => ?_
        have hne : g ≠ f := by
          have := Finset.mem_range.mp hg
          omega
        simp [setActuator, hne]
      omega
  generalize hw : (w.setActuator f a).spawnRemoval f idx (xs.map (·.id)) = w'
  have hremoval (m : Nat) : w'.removal m =
      if m = w.nremovals then ⟨f, idx, xs.map (·.id), .recording⟩ else w.removal m :=
    hw ▸ update_apply _ _ _ _
  constructor
  case workers => subst hw; exact h.workers
  case bounded => subst hw; exact h.bounded
  case counter =>
    intro i hi
    have hcounter := h.counter i (by subst hw; exact hi)
    have ht := htracked i
    have hrecord : w'.unrecordedOn i = w.unrecordedOn i + if idx = i then xs.length else 0 := by
      have hn : w'.nremovals = w.nremovals + 1 := by subst hw; rfl
      rw [unrecordedOn, hn, Finset.sum_range_succ]
      congr 1
      · refine Finset.sum_congr rfl fun m hm => ?_
        simp only [unrecorded, hremoval, if_neg (Nat.ne_of_lt (Finset.mem_range.mp hm))]
        subst hw
        rfl
      · simp [unrecorded, hremoval]
    rw [hrecord]
    subst hw
    change (w.placement.state.worker i).instances + w.uncommittedOn i =
      (w.setActuator f a).trackedOn i + _
    omega
  case present =>
    intro j hj
    have hj : w.uncommitted j = true := by subst hw; exact hj
    have hjob : w'.job j = w.job j := by subst hw; rfl
    have hactuator (g : Nat) : w'.actuator g = if g = f then a else w.actuator g :=
      hw ▸ update_apply _ _ _ _
    obtain ⟨x, hx, hid⟩ := h.present j hj
    rw [hjob]
    refine ⟨x, ?_, hid⟩
    -- only the list of `f` on `idx` is shorter
    grind [hd.perm.mem_iff (a := x), hd.other (j := (w.job j).worker)]

theorem Agreement.evict (h : w.Agreement) (hr : w.Roster)
    {r : SandboxActuator × List RemovedInstance} {clear : Bool → Int → Int}
    {xs : List TrackedInstance} (hd : SandboxActuator.Drops clear (w.actuator f) r.1 idx xs)
    (hxs : r.2 = xs.map SandboxActuator.removed) (hspare : ∀ j, w.uncommitted j = true →
      ((w.job j).function, (w.job j).worker, (w.job j).inst.instanceId) ∉
        r.2.map fun x => (f, idx, x.id)) : (w.evict f idx r).Agreement := by
  have hids : r.2.map RemovedInstance.id = xs.map (·.id) := by
    rw [hxs, List.map_map]
    rfl
  rw [World.evict, hids]
  refine h.drops hr hd fun j hj hf hw x hx heq => hspare j hj ?_
  rw [hxs, List.map_map, hf, hw, ← heq]
  exact List.mem_map_of_mem hx

/-! ## Steps of the ledger -/

/-- What a job inside a completion counts is what its thread will add. -/
theorem Calls.uncommitted_eq (h : w.Calls) (hj : (w.job j).pc = .completing t) (idx : Nat) :
    (w.uncommitted j && decide ((w.job j).worker = idx)) =
      (w.placement.pc t).commits idx := by
  simp only [uncommitted, hj, commits]
  cases hc : (w.placement.pc t).completion with
  | none => rfl
  | some c =>
    obtain ⟨b, r⟩ := c
    cases b with
    | false => rfl
    | true => simp [(h.own j t true r hj hc).2 rfl]

/-- What a removal inside `RecordStop` counts beyond its other instances is what
its thread will subtract. -/
theorem Calls.unrecorded_eq (h : w.Calls) (hm : (w.removal m).pc = .waiting t) (idx : Nat) :
    (if (w.removal m).worker = idx then w.unrecorded m else 0) =
      (if (w.removal m).worker = idx then (w.removal m).items.length - 1 else 0) +
        ((w.placement.pc t).records idx).toNat := by
  simp only [unrecorded, hm, records]
  cases hr : (w.placement.pc t).recordOf with
  | none => simp
  | some i =>
    have hi := (h.waiting m t hm).2 i hr
    by_cases hidx : (w.removal m).worker = idx
    · simp [hidx, hi]
    · simp [hidx, hi]

/-- The uncommitted starts move with the thread that makes a step. -/
theorem uncommittedOn_goes (h : w.Calls) (hp : (w.setPlacement p).Calls)
    (g : Goes w.placement p t) (idx : Nat) :
    (w.setPlacement p).uncommittedOn idx + ((w.placement.pc t).commits idx).toNat =
      w.uncommittedOn idx + ((p.pc t).commits idx).toNat := by
  have hother : ∀ i, (w.job i).pc ≠ .completing t →
      (w.setPlacement p).uncommitted i = w.uncommitted i := by
    intro i hi
    simp only [uncommitted, setPlacement]
    cases hpc : (w.job i).pc with
    | completing u =>
      have hut : u ≠ t := fun he => hi (he ▸ hpc)
      simp only [g.others u hut]
    | _ => rfl
  by_cases howner : ∃ j, (w.job j).pc = .completing t
  · obtain ⟨j, hj⟩ := howner
    have hc := Lib.count_update
      (p := fun i => w.uncommitted i && decide ((w.job i).worker = idx))
      (q := fun i => (w.setPlacement p).uncommitted i && decide ((w.job i).worker = idx))
      (h.lt_njobs hj (by simp)) (by
        intro i hi
        simp only [hother i (fun he => hi (h.single i j t he hj))])
    have hafter : ((w.setPlacement p).uncommitted j && decide ((w.job j).worker = idx)) =
        (p.pc t).commits idx := hp.uncommitted_eq hj idx
    simp only [h.uncommitted_eq hj idx, hafter] at hc
    exact hc
  · have hnone : ∀ q : Runtime.World, (w.setPlacement q).Calls → (q.pc t).commits idx = false := by
      intro q hq
      cases hc : (q.pc t).completion with
      | none => simp [commits, hc]
      | some c => exact absurd (hq.owner t c hc) howner
    have hcount : (w.setPlacement p).uncommittedOn idx = w.uncommittedOn idx := by
      refine Lib.count_congr fun i _ => ?_
      rw [hother i (fun he => howner ⟨i, he⟩)]
      rfl
    rw [hcount, hnone p hp, hnone w.placement h]

theorem unrecordedOn_goes (h : w.Calls) (hp : (w.setPlacement p).Calls)
    (g : Goes w.placement p t) (idx : Nat) :
    (w.setPlacement p).unrecordedOn idx + ((w.placement.pc t).records idx).toNat =
      w.unrecordedOn idx + ((p.pc t).records idx).toNat := by
  have hother : ∀ m, (w.removal m).pc ≠ .waiting t →
      (w.setPlacement p).unrecorded m = w.unrecorded m := by
    intro m hm
    simp only [unrecorded, setPlacement]
    cases hpc : (w.removal m).pc with
    | waiting u =>
      have hut : u ≠ t := fun he => hm (he ▸ hpc)
      simp only [g.others u hut]
    | _ => rfl
  by_cases howner : ∃ m, (w.removal m).pc = .waiting t
  · obtain ⟨m, hm⟩ := howner
    have hs := Lib.sum_update
      (f := fun n => if (w.removal n).worker = idx then w.unrecorded n else 0)
      (g := fun n => if (w.removal n).worker = idx then (w.setPlacement p).unrecorded n else 0)
      (h.removal_lt hm (by simp)) (by
        intro n hn
        simp only [hother n (fun he => hn (h.singleRemoval n m t he hm))])
    have hafter : (if (w.removal m).worker = idx then (w.setPlacement p).unrecorded m else 0) =
        (if (w.removal m).worker = idx then (w.removal m).items.length - 1 else 0) +
          ((p.pc t).records idx).toNat := hp.unrecorded_eq hm idx
    simp only [h.unrecorded_eq hm idx, hafter] at hs
    have hs' : (w.setPlacement p).unrecordedOn idx = ∑ n ∈ Finset.range w.nremovals,
        if (w.removal n).worker = idx then (w.setPlacement p).unrecorded n else 0 := rfl
    rw [hs', unrecordedOn]
    omega
  · have hnone : ∀ q : Runtime.World, (w.setPlacement q).Calls → (q.pc t).records idx = false := by
      intro q hq
      cases hr : (q.pc t).recordOf with
      | none => simp [records, hr]
      | some i => exact absurd (hq.recorder t i hr) howner
    have hsum : (w.setPlacement p).unrecordedOn idx = w.unrecordedOn idx := by
      refine Finset.sum_congr rfl fun m _ => ?_
      rw [hother m (fun he => howner ⟨m, he⟩)]
      rfl
    rw [hsum, hnone p hp, hnone w.placement h]

/-- One atomic step of one thread of the ledger. A completion goes through and a
`RecordStop` finds its counter above zero, so both sides move alike. -/
theorem Agreement.goes (h : w.Agreement) (hc : w.Calls) (hr : w.Roster)
    (hp : (w.setPlacement p).Calls) (g : Goes w.placement p t)
    (hworkers : p.state.workers = w.placement.state.workers) : (w.setPlacement p).Agreement := by
  constructor
  case workers => exact hworkers.trans h.workers
  case bounded =>
    intro u i hi
    by_cases hu : u = t
    · subst hu
      rcases g.record with hnone | hsame
      · have hi : (p.pc u).recordOf = some i := hi
        rw [hnone] at hi
        cases hi
      · exact h.bounded u i (hsame ▸ hi)
    · exact h.bounded u i (g.others u hu ▸ hi)
  case counter =>
    intro idx hidx
    have hcounter := h.counter idx hidx
    have hcommit := uncommittedOn_goes hc hp g idx
    have hrecord := unrecordedOn_goes hc hp g idx
    have hinst := g.instances (fun b r hx => hc.goes_through hx)
      (fun i hi => h.instances_pos hr hc hi) idx
    show (p.state.worker idx).instances + _ = w.trackedOn idx + _
    omega
  case present =>
    intro j hj
    refine h.present j ?_
    simp only [uncommitted, setPlacement] at hj ⊢
    cases hpc : (w.job j).pc with
    | completing u =>
      simp only [hpc] at hj ⊢
      by_cases hu : u = t
      · subst hu
        rcases g.completion with hnone | hsame
        · simp [hnone] at hj
        · rwa [hsame] at hj
      · rwa [g.others u hu] at hj
    | registered => rfl
    | _ => simp [hpc] at hj

theorem Agreement.ambient (h : w.Agreement) (hc : w.Calls) (hr : w.Roster) {a : Runtime.Action}
    (ha : ambientPlacement a = true) (hs : w.placement.step a = .ok p) :
    (w.setPlacement p).Agreement := by
  have hworkers := (step_frame hs).1.workers
  have hp := hc.ambient ha hs
  cases a with
  | telemetry idx t | resetImages idx =>
    cases hs
    exact h.steady
      { instances := setWorker_field (·.instances) w.placement.state idx (by rfl) }
  | setTrackImages track =>
    cases hs
    exact h.steady {}
  | schedule scheduler image => cases ha
  | complete b r => cases ha
  | recordStop workerID => cases ha
  | pick t pick => exact h.goes hc hr hp (pick_goes hs) hworkers
  | step t => exact h.goes hc hr hp (advance_goes hs) hworkers

/-! ## Every step -/

theorem sparesUncommitted_ne {act : Action} (hok : w.sparesUncommitted act = true) (hr : w.Roster)
    (hj : w.uncommitted j = true) :
    ((w.job j).function, (w.job j).worker, (w.job j).inst.instanceId) ∉ w.evicts act := by
  have h := List.all_eq_true.mp hok j (List.mem_range.mpr (hr.lt_of_uncommitted hj))
  simpa [hj] using h

/-- **One step** keeps the balance, if it takes no instance of an uncommitted
start off its list. -/
theorem Transition.agreement {act : Action} (hs : Transition w act w')
    (hok : w.sparesUncommitted act = true) (hc : w.Calls) (hr : w.Roster) (h : w.Agreement) :
    w'.Agreement := by
  have hspare := fun {j : Nat} (hj : w.uncommitted j = true) => sparesUncommitted_ne hok hr hj
  cases hs with
  | placement ha hp => exact h.ambient hc hr ha hp
  | pool _ _ _ | launch _ | drain _ _ | drainHanded _ _ | drainFailed _ _ | stopReply _
  | finishDrain _ _ => exact h.steady {}
  | setTarget _ => exact h.relist fun _ => .refl _
  | schedule _ _ hp =>
    obtain ⟨y, rfl, -, hrecord⟩ := schedule_spawn hp
    have hspawn := h.spawn (y := y) hc fun i hi => by rw [hrecord] at hi; cases hi
    exact hspawn.spawnJob rfl (hr.unborn w.njobs le_rfl).1
  | scheduleAlone _ hno =>
    rw [hc.has] at hno
    cases hno
  | planNothing hpc _ | planRefused hpc _ _ | createFailed hpc | created hpc | putFailed hpc _ =>
    exact h.idle (by simp [uncommitted, hpc]) (by simp [uncommitted, setJob])
  | planned hpc _ ha =>
    obtain ⟨-, -, rfl⟩ := SandboxActuator.reserveLocalStart_ok ha
    exact (h.relist fun idx => by rw [Shrinks.restart_same]).idle
      (by simp [uncommitted, setActuator, hpc]) (by simp [uncommitted, setJob])
  | @put j s hpc _ =>
    have hset : (w.setStore s).Agreement := h.steady {}
    exact hset.idle (by simp [uncommitted, setStore, hpc]) (by simp [uncommitted, setJob])
  | @add j p hpc _ =>
    have hset : (w.setPool (w.job j).function p).Agreement := h.steady {}
    exact hset.idle (by simp [uncommitted, setPool, hpc]) (by simp [uncommitted, setJob])
  | register hpc => exact h.register hr hpc
  | fail hpc =>
    exact (h.relist fun idx => by rw [SandboxActuator.failStart_eq, Shrinks.restart_same]).idle
      (by simp [uncommitted, setActuator, hpc]) (by simp [uncommitted, setJob])
  | @completeNone j hpc hnone =>
    rcases hpc with hpc | hpc
    · -- a registered start has its token
      obtain ⟨r, hres, -⟩ := hc.worker j (by simp [Job.placed, hpc])
      rw [hnone] at hres
      cases hres
    · exact h.idle (by simp [uncommitted, hpc]) (by simp [uncommitted, setJob])
  | @complete j r p hpc hres hp =>
    have hspawn := complete_spawn hp
    subst hspawn
    refine (h.spawn hc (by intro i hi; cases hi)).setJob ?_ ?_
    · rcases hpc with hpc | hpc
      · simp [uncommitted, setJob, setPlacement, hpc, spawn_self,
          completion]
      · simp [uncommitted, setJob, setPlacement, hpc, spawn_self,
          completion]
    · exact fun _ => ⟨rfl, rfl, rfl⟩
  | @finish j t hpc ht =>
    refine h.setJob ?_ ?_
    · simp [uncommitted, setJob, hpc, ht, completion]
    · exact fun _ => ⟨rfl, rfl, rfl⟩
  | stop _ =>
    refine (h.relist fun idx => ?_).steady {}
    exact .of_eq (Shrinks.map_key ((chosen_marks _ _ _).lists idx))
  | @removeNothing k a _ ha =>
    have hspec := SandboxActuator.removeInstanceWith_spec clearStop
      (w.actuator (w.stop k).function) (w.stop k).item.workerIdx (w.stop k).item.instanceID
    rw [← SandboxActuator.removeInstance, ha] at hspec
    rcases hspec with ⟨hd, -, -⟩ | ⟨x, hd, haddr, -⟩
    · refine (h.relist fun idx => ?_).steady {}
      by_cases hidx : idx = (w.stop k).item.workerIdx
      · subst hidx
        exact (hd.perm.map key).symm
      · exact .of_eq (congrArg (List.map key) (hd.other hidx))
    · -- every tracked instance has an address
      have hx : x ∈ (w.actuator (w.stop k).function).tracked (w.stop k).item.workerIdx :=
        hd.perm.mem_iff.mpr List.mem_cons_self
      exact absurd haddr.symm (hr.valid _ _ x hx).2
  | @remove k a address _ ha hne =>
    have hspec := SandboxActuator.removeInstanceWith_spec clearStop
      (w.actuator (w.stop k).function) (w.stop k).item.workerIdx (w.stop k).item.instanceID
    rw [← SandboxActuator.removeInstance, ha] at hspec
    rcases hspec with ⟨-, hnone, -⟩ | ⟨x, hd, -, hid⟩
    · exact absurd hnone hne
    · have hdrop := h.drops hr hd (by
        intro j hj hf hw y hy heq
        rw [List.mem_singleton.mp hy, hid] at heq
        refine hspare hj ?_
        simp [evicts, hf, hw, heq])
      rw [List.map_singleton, hid] at hdrop
      exact hdrop.steady {}
  | cancelStop _ =>
    exact (h.relist fun idx => .of_eq (Shrinks.cancelStop_key _ _ _ idx)).steady {}
  | @reconcile f idx presence _ =>
    obtain ⟨xs, hd, hxs, -⟩ :=
      SandboxActuator.reconcileWorkerStateWith_spec clearStop (w.actuator f) idx presence
    exact h.evict hr hd hxs fun j hj => hspare hj
  | @sandboxRemoved f idx id revision _ =>
    obtain ⟨xs, hd, hxs, -⟩ :=
      SandboxActuator.handleSandboxRemovedWith_spec clearStop (w.actuator f) idx id revision
    exact h.evict hr hd hxs fun j hj => hspare hj
  | @recordStop m p hpc hitems _ hp =>
    obtain ⟨y, rfl, -, hrecord⟩ := recordStop_spawn hp
    rw [h.workers] at hrecord
    refine (h.spawn hc ?_).setRemoval rfl ?_
    · intro i hi
      rw [hrecord] at hi
      split at hi
      · rename_i hlt
        exact Option.some.inj hi ▸ hlt
      · cases hi
    · intro hlt
      have hlt : (w.removal m).worker < w.workers := hlt
      rw [if_pos hlt] at hrecord
      have hlen := List.length_pos_iff.mpr hitems
      simp [unrecorded, setRemoval, setPlacement, hpc, spawn_self, hrecord]
      omega
  | recordNothing _ _ hno =>
    rw [hc.has] at hno
    cases hno
  | @recorded m t hpc ht =>
    refine h.setRemoval rfl fun _ => ?_
    simp [unrecorded, setRemoval, hpc, ht, recordOf]
  | @storeRemove m id rest found s hpc _ _ =>
    have hset : (w.setStore s).Agreement := h.steady {}
    refine hset.setRemoval rfl fun _ => ?_
    simp [unrecorded, setRemoval, setStore, hpc]
  | @poolRemove m id rest p hpc hitems _ =>
    have hset : (w.setPool (w.removal m).function p).Agreement := h.steady {}
    refine hset.setRemoval rfl fun _ => ?_
    simp [unrecorded, setRemoval, setPool, hpc, hitems]

theorem init_agreement (c : Config) : (init c).Agreement := by
  constructor
  case workers => rfl
  case bounded => exact nofun
  case counter =>
    intro idx _
    have htracked : (init c).trackedOn idx = 0 := Finset.sum_eq_zero fun _ _ => rfl
    rw [htracked]
    rfl
  case present => exact nofun

/-- **Run lemma.** -/
theorem agreement_of_run
    (hw : machine.ReachesWhile (fun s a => s.distinctAnswer a = true ∧ s.sparesUncommitted a = true) w)
    (hp : w.hasPlacement = true) : w.Agreement := by
  have hall : w.Roster ∧ (w.hasPlacement = true → w.Calls ∧ w.Agreement) := by
    refine hw.invariant (I := fun w => w.Roster ∧ (w.hasPlacement = true → w.Calls ∧ w.Agreement))
      ?_ ?_
    · rintro s ⟨c, rfl⟩
      exact ⟨init_roster c, fun hc => ⟨init_calls c hc, init_agreement c⟩⟩
    · rintro s a s' ⟨hr, hs⟩ ⟨hdistinct, hspare⟩ hstep
      have ht := step_transition hstep
      refine ⟨ht.roster hdistinct hr, fun hp => ?_⟩
      obtain ⟨hc, ha⟩ := hs (ht.hasPlacement ▸ hp)
      exact ⟨ht.calls hc, ht.agreement hspare hc hr ha⟩
  exact (hall.2 hp).2

/-- No start is between its append and its commit. -/
def settledStarts (w : World) : Bool := (List.range w.njobs).all fun j => !w.uncommitted j

/-- No removal is between its delete and its `RecordStop`. -/
def settledStops (w : World) : Bool :=
  (List.range w.nremovals).all fun m => w.unrecorded m == 0

/-- **Placement ledger agreement.** In every run in which the workers answer with
distinct ids and with addresses, and in which no instance is taken off its list
while its own start is uncommitted: when all starts and stops are settled, each
worker's counter is the number of instances all actuators track on it, and at no
time does `RecordStop` find the counter it subtracts from at zero. -/
theorem placement_agreement
    (hw : machine.ReachesWhile
      (fun s a => s.distinctAnswer a = true ∧ s.sparesUncommitted a = true) w)
    (hp : w.hasPlacement = true) :
    (w.settledStarts = true → w.settledStops = true → ∀ idx < w.workers,
      (w.placement.state.worker idx).instances = w.trackedOn idx) ∧
    ∀ t idx, (w.placement.pc t).recordOf = some idx →
      0 < (w.placement.state.worker idx).instances := by
  have hagree := agreement_of_run hw hp
  refine ⟨fun hstarts hstops idx hidx => ?_, fun t idx ht => ?_⟩
  · have hcounter := hagree.counter idx hidx
    have hzero : w.uncommittedOn idx = 0 := by
      by_contra hne
      obtain ⟨j, hj, hu⟩ := Nat.count_ne_iff_exists.mp hne
      have hj := List.all_eq_true.mp hstarts j (List.mem_range.mpr hj)
      simp only [Bool.and_eq_true, Bool.not_eq_true'] at hu hj
      rw [hj] at hu
      cases hu.1
    have hzero' : w.unrecordedOn idx = 0 := by
      refine Finset.sum_eq_zero fun m hm => ?_
      have hm := List.all_eq_true.mp hstops m (List.mem_range.mpr (Finset.mem_range.mp hm))
      rw [beq_iff_eq.mp hm, ite_self]
    omega
  · exact hagree.instances_pos (roster_of_run hw fun _ _ hok => hok.1)
      (calls_of_reachable hw.reachable hp) ht

/-- One worker, no limits, two functions. -/
def sharedLeaf : World :=
  init ⟨1, 2, ⟨false, 0, 0, 0⟩, true, 0, 0, 0, fun _ => (1, 10), 0⟩

/-- Thread `t` of the ledger makes `n` steps. -/
def ledgerSteps (t n : Nat) : List Action := List.replicate n (.placement (.step t))

/-- The start of function 1 as job 0 up to its append: its `Schedule` call is
thread 0. -/
def appendStart : List Action :=
  [.schedule 1 ⟨"http", none⟩ "demand" false .balanced "image"] ++ ledgerSteps 0 2 ++
    [.placement (.pick 0 (.start 0))] ++ ledgerSteps 0 8 ++
    [.plan 0 none 7, .created 0 ⟨7, 0, 1, "a", "", 0, 0, 1⟩, .put 0, .add 0, .register 0]

/-- One start, committed before anything else happens. -/
theorem placement_agreement_one :
    ∃ w : World, (w.placement.state.worker 0).instances = w.trackedOn 0 ∧ w.trackedOn 0 = 1 := by
  obtain ⟨w, hw, hp, hstarts, hstops, hworkers, htracked⟩ := machine.exists_while_of_run
    (P := fun s a => s.distinctAnswer a = true ∧ s.sparesUncommitted a = true)
    (Q := fun w => w.hasPlacement = true ∧ w.settledStarts = true ∧ w.settledStops = true ∧
      w.workers = 1 ∧ w.trackedOn 0 = 1) sharedLeaf
    (appendStart ++ [.complete 0] ++ ledgerSteps 1 8 ++ [.finish 0]) ⟨_, rfl⟩ (by decide +kernel)
  have hagree := (placement_agreement hw hp).1 hstarts hstops 0 (by omega)
  exact ⟨w, hagree, htracked⟩

/-- The instance is taken off its list before its start is committed: the
`RecordStop` for it finds the counter at zero and the commit then adds one that
nobody takes away. -/
theorem uncommitted_eviction :
    ∃ w : World, machine.ReachesWhile (fun s a => s.distinctAnswer a = true) w ∧
      w.hasPlacement = true ∧ w.settledStarts = true ∧ w.settledStops = true ∧
      (w.placement.state.worker 0).instances = 1 ∧ w.trackedOn 0 = 0 := by
  exact machine.exists_while_of_run sharedLeaf
    (appendStart ++ [.sandboxRemoved 1 0 7 2, .recordStop 0] ++ ledgerSteps 1 1 ++
      [.recorded 0, .storeRemove 0 (some 1), .poolRemove 0, .complete 0] ++ ledgerSteps 2 8 ++
      [.finish 0]) ⟨_, rfl⟩ (by decide +kernel)

end World

end HyperFaaS.Leaf

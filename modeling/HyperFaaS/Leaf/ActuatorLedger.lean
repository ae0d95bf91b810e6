import HyperFaaS.Autoscaling.ActuatorLedger
import HyperFaaS.Leaf.Transitions
import Mathlib.Algebra.BigOperators.Ring.Finset

/-!
The ledger of every actuator of a leaf, over all interleavings: its counters are
the sums over its lists, and `pendingStarts` counts the jobs that hold a local
reservation.
-/

namespace HyperFaaS.Leaf

open Autoscaling Job SandboxActuator

/-- Between its local reservation and its end as an instance or a failure. -/
def Job.reserved (x : Job) : Bool :=
  match x.pc with
  | .planned | .created | .stored | .added | .failing => true
  | _ => false

/-- The job holds a local reservation of function `f` on worker `idx`. -/
def Job.holds (x : Job) (f idx : Nat) : Bool :=
  x.reserved && decide (x.function = f) && decide (x.worker = idx)

namespace World

variable {w w' : World}

/-- The planned jobs of function `f` on worker `idx` that are neither registered
nor failed. -/
def startingOn (w : World) (f idx : Nat) : Nat :=
  Nat.count (fun j => (w.job j).holds f idx = true) w.njobs

structure Ledger (w : World) : Prop where
  balanced : ∀ f, (w.actuator f).Balanced
  workers : ∀ f, (w.actuator f).workers = w.workers
  fresh : ∀ j, w.njobs ≤ j → (w.job j).pc = .idle
  bound : ∀ j, (w.job j).reserved = true → (w.job j).worker < w.workers
  starts : ∀ f idx, (w.actuator f).startsOn idx = w.startingOn f idx

variable {j f : Nat} {a : SandboxActuator}

theorem Ledger.lt_njobs (h : w.Ledger) {x : JobPC} (hj : (w.job j).pc = x) (hx : x ≠ .idle) :
    j < w.njobs := by
  by_contra hge
  exact hx (hj ▸ h.fresh j (by omega))

theorem Ledger.congr (h : w.Ledger) (hw : w'.workers = w.workers)
    (ha : w'.actuator = w.actuator) (hn : w'.njobs = w.njobs) (hj : w'.job = w.job) :
    w'.Ledger where
  balanced := by rw [ha]; exact h.balanced
  workers := by rw [ha, hw]; exact h.workers
  fresh := by rw [hn, hj]; exact h.fresh
  bound := by rw [hj, hw]; exact h.bound
  starts := by
    unfold startingOn
    rw [ha, hn, hj]
    exact h.starts

theorem Ledger.setActuator (h : w.Ledger) (hb : a.Balanced)
    (hw : a.workers = (w.actuator f).workers)
    (hs : ∀ idx, a.startsOn idx = (w.actuator f).startsOn idx) : (w.setActuator f a).Ledger := by
  have hcases : ∀ g, (w.setActuator f a).actuator g = w.actuator g ∨
      g = f ∧ (w.setActuator f a).actuator g = a := by
    intro g
    by_cases hg : g = f
    · subst hg
      exact .inr ⟨rfl, by simp [setActuator]⟩
    · exact .inl (by simp [World.setActuator, hg])
  constructor
  case balanced =>
    intro g
    rcases hcases g with he | ⟨-, he⟩
    · rw [he]
      exact h.balanced g
    · rw [he]
      exact hb
  case workers =>
    intro g
    rcases hcases g with he | ⟨-, he⟩
    · rw [he]
      exact h.workers g
    · rw [he, hw]
      exact h.workers f
  case fresh => exact h.fresh
  case bound => exact h.bound
  case starts =>
    intro g idx
    rcases hcases g with he | ⟨rfl, he⟩
    · rw [he]
      exact h.starts g idx
    · rw [he, hs]
      exact h.starts g idx

theorem Ledger.spawnJob (h : w.Ledger) {x : Job} (hx : x.reserved = false) :
    (w.spawnJob x).Ledger where
  balanced := h.balanced
  workers := h.workers
  fresh := by
    intro j hj
    have hne : j ≠ w.njobs := by
      have : w.njobs + 1 ≤ j := hj
      omega
    have hlt : w.njobs ≤ j := by
      have : w.njobs + 1 ≤ j := hj
      omega
    simpa [World.spawnJob, setJob, hne] using h.fresh j hlt
  bound := by
    intro j hj
    by_cases hne : j = w.njobs
    · subst hne
      simp [World.spawnJob, setJob, hx] at hj
    · simp only [World.spawnJob, setJob, Function.update_of_ne hne] at hj ⊢
      exact h.bound j hj
  starts := by
    intro f idx
    refine (h.starts f idx).trans (congrArg Nat.cast ?_)
    refine (Lib.count_grow ?_ fun j hj => ?_).symm
    · simp [World.spawnJob, setJob, Job.holds, hx]
    · simp [World.spawnJob, setJob, show j ≠ w.njobs by omega]

/-- A job moves, and the actuator of its function moves with it. -/
theorem Ledger.moveJob (h : w.Ledger) {x : Job} (hj : j < w.njobs) (hb : a.Balanced)
    (hw : a.workers = (w.actuator x.function).workers) (hf : (w.job j).function = x.function)
    (hx : x.reserved = true → x.worker < w.workers)
    (hs : ∀ idx, a.startsOn idx + ((w.job j).holds x.function idx).toNat =
      (w.actuator x.function).startsOn idx + (x.holds x.function idx).toNat) :
    ((w.setActuator x.function a).setJob j x).Ledger := by
  have hother : ∀ i, i ≠ j → ((w.setActuator x.function a).setJob j x).job i = w.job i :=
    fun i hi => by simp [setJob, World.setActuator, hi]
  have hself : ((w.setActuator x.function a).setJob j x).job j = x := by
    simp [setJob]
  have hcount : ∀ f idx, ((w.setActuator x.function a).setJob j x).startingOn f idx +
      ((w.job j).holds f idx).toNat = w.startingOn f idx + (x.holds f idx).toNat := by
    intro f idx
    have hc := Lib.count_update (p := fun i => (w.job i).holds f idx)
      (q := fun i => (((w.setActuator x.function a).setJob j x).job i).holds f idx) hj
      (fun i hi => by simp only [hother i hi])
    simp only [hself] at hc
    exact hc
  constructor
  case balanced =>
    intro g
    by_cases hg : g = x.function
    · subst hg
      simpa [setJob, World.setActuator] using hb
    · simpa [setJob, World.setActuator, hg] using h.balanced g
  case workers =>
    intro g
    by_cases hg : g = x.function
    · subst hg
      simpa [setJob, World.setActuator] using hw.trans (h.workers x.function)
    · simpa [setJob, World.setActuator, hg] using h.workers g
  case fresh =>
    intro i hi
    have hge : w.njobs ≤ i := hi
    rw [hother i (by omega)]
    exact h.fresh i hge
  case bound =>
    intro i hi
    by_cases hij : i = j
    · subst hij
      rw [hself] at hi ⊢
      exact hx hi
    · rw [hother i hij] at hi ⊢
      exact h.bound i hi
  case starts =>
    intro g idx
    have hc := hcount g idx
    have hold := h.starts g idx
    by_cases hg : g = x.function
    · subst hg
      have hsn := hs idx
      have he : ((w.setActuator x.function a).setJob j x).actuator x.function = a := by
        simp [setJob, World.setActuator]
      rw [he]
      omega
    · -- the job is of another function, before and after
      have hno : (w.job j).holds g idx = false := by
        simp [Job.holds, hf, Ne.symm hg]
      have hno' : x.holds g idx = false := by
        simp [Job.holds, Ne.symm hg]
      have he : ((w.setActuator x.function a).setJob j x).actuator g = w.actuator g := by
        simp [setJob, World.setActuator, hg]
      rw [hno, hno'] at hc
      rw [he]
      omega

theorem setActuator_self (w : World) (f : Nat) : w.setActuator f (w.actuator f) = w := by
  simp [setActuator, Function.update_eq_self]

theorem Ledger.setJob (h : w.Ledger) {x : Job} (hj : j < w.njobs)
    (hf : x.function = (w.job j).function) (hworker : x.worker = (w.job j).worker)
    (hr : x.reserved = (w.job j).reserved) : (w.setJob j x).Ledger := by
  have hm := h.moveJob (j := j) (x := x) (a := w.actuator x.function) hj (h.balanced _) rfl hf.symm
    (fun hx => by
      rw [hworker]
      exact h.bound j (hr ▸ hx))
    (fun idx => by simp only [holds, hr, hf, hworker])
  rwa [setActuator_self] at hm

theorem Ledger.goJob (h : w.Ledger) {x : JobPC} (pc : JobPC) (hpc : (w.job j).pc = x)
    (hx : x ≠ .idle)
    (hr : ({ w.job j with pc := pc } : Job).reserved = ({ w.job j with pc := x } : Job).reserved) :
    (w.goJob j pc).Ledger := by
  refine h.setJob (h.lt_njobs hpc hx) rfl rfl (hr.trans ?_)
  rw [← hpc]

theorem Ledger.drops (h : w.Ledger) {idx : Nat} {xs : List TrackedInstance}
    (hd : Drops clearStop (w.actuator f) a idx xs) : (w.setActuator f a).Ledger :=
  h.setActuator (hd.balanced (h.balanced f)) hd.workers hd.startsOn

theorem removeInstance_drops (a : SandboxActuator) (idx id : Nat) :
    ∃ xs, Drops clearStop a (a.removeInstance idx id).1 idx xs := by
  rcases removeInstanceWith_spec clearStop a idx id with ⟨hd, -⟩ | ⟨x, hd, -⟩
  · exact ⟨[], hd⟩
  · exact ⟨[x], hd⟩

theorem chosen_marks (a : SandboxActuator) (count : Int) (within : Bool) :
    Marks a (chosen a count within).1 (chosen a count within).2 := by
  cases within with
  | true => exact instancesForStopWithinTarget_marks a count
  | false => exact instancesForStop_marks a count

theorem chosen_balanced (h : a.Balanced) (count : Int) (within : Bool) :
    (chosen a count within).1.Balanced := by
  cases within with
  | true => exact instancesForStopWithinTarget_balanced h count
  | false => exact instancesForStop_balanced h count

theorem Ledger.planned (h : w.Ledger) {workerID id : Nat} {r : Option Runtime.PlacementReservation}
    (hpc : (w.job j).pc = .scheduling)
    (ha : (w.actuator (w.job j).function).reserveLocalStart w.hasPlacement workerID (w.job j).spec
      (w.job j).reason (w.job j).enforceTarget = .ok a) :
    ((w.setActuator (w.job j).function a).setJob j
      { w.job j with
        reservation := r, worker := workerID - 1, instanceID := id, pc := .planned }).Ledger := by
  obtain ⟨hpos, hle, rfl⟩ := reserveLocalStart_ok ha
  rw [h.workers] at hle
  refine h.moveJob (j := j) (x := { w.job j with
    reservation := r, worker := workerID - 1, instanceID := id, pc := .planned })
    (h.lt_njobs hpc (by simp)) ?_ rfl rfl ?_ ?_
  · refine (h.balanced _).restart 1 ?_ (by simp) rfl
    rw [h.workers]
    omega
  · intro _
    show workerID - 1 < w.workers
    omega
  · intro idx
    by_cases hidx : idx = workerID - 1
    · subst hidx
      simp [holds, reserved, hpc]
    · rw [startsOn, restart_other _ hidx]
      simp [holds, reserved, hpc, Ne.symm hidx, startsOn]

/-- A job gives its local reservation back, as an instance or a failure. -/
theorem Ledger.settled (h : w.Ledger) {l : List TrackedInstance} {total : Int} {pc : JobPC}
    (hr : (w.job j).reserved = true) (hpc : ({ w.job j with pc := pc } : Job).reserved = false)
    (htotal : total = (w.actuator (w.job j).function).totalInstances + ((l.length : Int) -
      ((w.actuator (w.job j).function).tracked (w.job j).worker).length))
    (hmarks : marks l = marks
      ((w.actuator (w.job j).function).tracked (w.job j).worker)) :
    ((w.setActuator (w.job j).function ((w.actuator (w.job j).function).restart (w.job j).worker l
      total (-1))).goJob j pc).Ledger := by
  have hb := h.bound j hr
  have hlt : j < w.njobs := by
    by_contra hge
    simp [reserved, h.fresh j (by omega)] at hr
  refine h.moveJob (j := j) (x := { w.job j with pc := pc }) hlt ?_ rfl rfl ?_ ?_
  · refine (h.balanced _).restart (-1) ?_ htotal hmarks
    rw [h.workers]
    exact hb
  · intro hx
    rw [hpc] at hx
    cases hx
  · intro idx
    by_cases hidx : idx = (w.job j).worker
    · subst hidx
      simp [holds, hr, hpc]
    · rw [startsOn, restart_other _ hidx]
      simp [holds, hpc, Ne.symm hidx, startsOn]

/-- **One step** of the leaf keeps the ledger of every actuator. -/
theorem Transition.ledger {act : Action} (hs : Transition w act w') (h : w.Ledger) :
    w'.Ledger := by
  cases hs with
  | placement _ _ | pool _ _ _ | launch _ | drain _ _ | drainHanded _ _ | drainFailed _ _
  | stopReply _ | finishDrain _ _ | recordStop _ _ _ _ | recordNothing _ _ _ | recorded _ _
  | storeRemove _ _ _ | poolRemove _ _ _ => exact h.congr rfl rfl rfl rfl
  | setTarget hf =>
    exact h.setActuator (setTarget_balanced (h.balanced _) _ _) rfl fun _ => rfl
  | @schedule f spec reason enforce scheduler image p _ _ _ =>
    have hp : (w.setPlacement p).Ledger := h.congr rfl rfl rfl rfl
    exact hp.spawnJob (by rfl)
  | scheduleAlone _ _ => exact h.spawnJob (by rfl)
  | planNothing hpc _ | planRefused hpc _ _ | createFailed hpc | created hpc | putFailed hpc _ =>
    exact h.setJob (h.lt_njobs hpc (by simp)) rfl rfl (by simp [reserved, hpc])
  | planned hpc _ ha => exact h.planned hpc ha
  | @put j s hpc _ =>
    exact (h.goJob .stored hpc (by simp) rfl).congr rfl rfl rfl rfl
  | add hpc _ => exact (h.goJob .added hpc (by simp) rfl).congr rfl rfl rfl rfl
  | register hpc =>
    rw [registerStart_eq]
    refine h.settled (by simp [reserved, hpc]) rfl ?_ ?_
    · rw [List.length_append, List.length_singleton]
      omega
    · simp [trackedOf]
  | fail hpc =>
    rw [failStart_eq]
    refine h.settled (by simp [reserved, hpc]) rfl ?_ rfl
    omega
  | completeNone hpc _ =>
    rcases hpc with hpc | hpc
    · exact h.goJob .done hpc (by simp) rfl
    · exact h.goJob .done hpc (by simp) rfl
  | complete hpc _ _ =>
    rcases hpc with hpc | hpc
    · exact (h.goJob (.completing _) hpc (by simp) rfl).congr rfl rfl rfl rfl
    · exact (h.goJob (.completing _) hpc (by simp) rfl).congr rfl rfl rfl rfl
  | finish hpc _ => exact h.goJob .done hpc (by simp) rfl
  | stop hf =>
    exact (h.setActuator (chosen_balanced (h.balanced _) _ _) (chosen_marks _ _ _).workers
      (chosen_marks _ _ _).starts).congr rfl rfl rfl rfl
  | removeNothing _ ha | remove _ ha _ =>
    obtain ⟨xs, hd⟩ := removeInstance_drops _ _ _
    rw [ha] at hd
    exact (h.drops hd).congr rfl rfl rfl rfl
  | @cancelStop k _ =>
    have ha := h.balanced (w.stop k).function
    refine (h.setActuator (cancelStop_balanced ha _ _) ?_ ?_).congr rfl rfl rfl rfl
    · exact cancelStop_workers _ _ _
    · exact cancelStop_startsOn _ _ _
  | reconcile hf =>
    obtain ⟨xs, hd, -⟩ := reconcileWorkerStateWith_spec clearStop (w.actuator _) _ _
    exact (h.drops hd).congr rfl rfl rfl rfl
  | sandboxRemoved hf =>
    obtain ⟨xs, hd, -⟩ := handleSandboxRemovedWith_spec clearStop (w.actuator _) _ _ _
    exact (h.drops hd).congr rfl rfl rfl rfl

theorem init_ledger (c : Config) : (init c).Ledger := by
  constructor
  · exact fun f => newSandboxActuator_balanced c.workers c.dataplane
  · exact fun f => rfl
  · exact fun j _ => rfl
  · intro j hj
    cases hj
  · intro f idx
    show (0 : Int) = (Nat.count _ 0 : Nat)
    rw [Nat.count_zero, Nat.cast_zero]

theorem ledger_of_reachable (hw : machine.Reachable w) : w.Ledger := by
  refine hw.invariant (I := Ledger) ?_ ?_
  · rintro s ⟨c, rfl⟩
    exact init_ledger c
  · intro s a t hs hstep
    exact (step_transition hstep).ledger hs

/-- The planned jobs of function `f`, on any worker. -/
def starting (w : World) (f : Nat) : Nat :=
  Nat.count (fun j => ((w.job j).reserved && decide ((w.job j).function = f)) = true) w.njobs

theorem Ledger.sum_startingOn (h : w.Ledger) (f : Nat) :
    ∑ idx ∈ Finset.range w.workers, w.startingOn f idx = w.starting f := by
  have hsum := Lib.sum_count_some
    (fun j => if ((w.job j).reserved && decide ((w.job j).function = f)) = true
      then some (w.job j).worker else none) w.njobs w.workers (by
    intro j _ i hi
    split at hi
    · rename_i hr
      rw [Bool.and_eq_true] at hr
      cases hi
      exact h.bound j hr.1
    · cases hi)
  have hon : ∀ idx, w.startingOn f idx = Nat.count (fun j => decide ((if ((w.job j).reserved &&
      decide ((w.job j).function = f)) = true then some (w.job j).worker else none) = some idx) =
        true) w.njobs := by
    intro idx
    refine Lib.count_congr fun j _ => ?_
    by_cases hr : ((w.job j).reserved && decide ((w.job j).function = f)) = true
    · simp [holds, hr]
    · simp [holds, hr]
  simp only [hon]
  rw [hsum]
  refine Lib.count_congr fun j _ => ?_
  by_cases hr : ((w.job j).reserved && decide ((w.job j).function = f)) = true
  · simp [hr]
  · simp [hr]

/-- **The actuator ledger.** In every state that interleavings of starts, stops,
snapshots and events reach, for every function: the counters are the sums over
the lists, the pending starts are the planned jobs, no counter is negative, and
each section that clears a mark finds the counter positive, so that it does the
same without its guard. -/
theorem actuator_ledger (hw : machine.Reachable w) (f : Nat) :
    (w.actuator f).totalInstances =
      ∑ idx ∈ Finset.range w.workers, (((w.actuator f).tracked idx).length : Int) ∧
    (w.actuator f).pendingStarts =
      ∑ idx ∈ Finset.range w.workers, (w.actuator f).startsOn idx ∧
    (∀ idx, (w.actuator f).startsOn idx = w.startingOn f idx) ∧
    (w.actuator f).pendingStarts = w.starting f ∧
    (w.actuator f).pendingStops =
      ∑ idx ∈ Finset.range w.workers,
        (((w.actuator f).tracked idx).countP (·.stopping) : Int) ∧
    (0 ≤ (w.actuator f).totalInstances ∧ 0 ≤ (w.actuator f).pendingStarts ∧
      0 ≤ (w.actuator f).pendingStops ∧ ∀ idx, 0 ≤ (w.actuator f).startsOn idx) ∧
    (∀ idx < w.workers, ∀ x ∈ (w.actuator f).tracked idx, x.stopping = true →
      0 < (w.actuator f).pendingStops) ∧
    (∀ idx id, (w.actuator f).cancelStop idx id =
      (w.actuator f).cancelStopWith clearStopUnguarded idx id) ∧
    (∀ idx id, (w.actuator f).removeInstance idx id =
      (w.actuator f).removeInstanceWith clearStopUnguarded idx id) ∧
    (∀ idx presence, (w.actuator f).reconcileWorkerState idx presence =
      (w.actuator f).reconcileWorkerStateWith clearStopUnguarded idx presence) ∧
    ∀ idx id revision, (w.actuator f).handleSandboxRemoved idx id revision =
      (w.actuator f).handleSandboxRemovedWith clearStopUnguarded idx id revision := by
  have h := ledger_of_reachable hw
  have hb := h.balanced f
  have hworkers := h.workers f
  have hstarting : (w.actuator f).pendingStarts = w.starting f := by
    rw [hb.starts, hworkers, ← h.sum_startingOn f, Nat.cast_sum]
    exact Finset.sum_congr rfl fun idx _ => h.starts f idx
  refine ⟨hworkers ▸ hb.total, hworkers ▸ hb.starts, h.starts f, hstarting, hworkers ▸ hb.stops,
    ⟨hb.total_nonneg, ?_, hb.stops_nonneg, ?_⟩, ?_, hb.cancelStop_unguarded,
    hb.removeInstance_unguarded, hb.reconcileWorkerState_unguarded,
    hb.handleSandboxRemoved_unguarded⟩
  · rw [hstarting]
    exact Int.natCast_nonneg _
  · intro idx
    rw [h.starts f idx]
    exact Int.natCast_nonneg _
  · intro idx hidx x hx hs
    have hle := hb.marks_le (hworkers ▸ hidx)
    have hone := toNat_le_marks hx
    rw [hs] at hone
    have : (1 : Int) ≤ marks ((w.actuator f).tracked idx) := by exact_mod_cast hone
    omega

/-- A start of function `f` as job `j` on worker `workerID`, without a placement
ledger, until it is registered. -/
def startAlone (f j workerID : Nat) (inst : InstanceState) : List Action :=
  [.schedule f ⟨"http", none⟩ "demand" false .snapshot "", .plan j (some ⟨workerID, ""⟩) inst.instanceId,
    .created j inst, .put j, .add j, .register j, .complete j]

/-- Two instances on two workers, one of them chosen to stop, and a third start
on its way. -/
theorem actuator_ledger_three :
    ∃ w : World, (w.actuator 1).totalInstances = 2 ∧ (w.actuator 1).pendingStops = 1 ∧
      (w.actuator 1).pendingStarts = w.starting 1 ∧ w.starting 1 = 1 := by
  obtain ⟨w, hw, htotal, hstops, hstarts⟩ := machine.exists_of_run
    (Q := fun w => (w.actuator 1).totalInstances = 2 ∧ (w.actuator 1).pendingStops = 1 ∧
      (w.actuator 1).pendingStarts = 1)
    (init ⟨2, 2, ⟨false, 0, 0, 0⟩, false, 0, 0, 0, fun _ => (1, 10), 0⟩)
    (startAlone 1 0 1 ⟨7, 0, 1, "a", "", 0, 0, 1⟩ ++ startAlone 1 1 2 ⟨8, 0, 2, "b", "", 0, 0, 1⟩ ++
      [.stop 1 1 false] ++ (startAlone 1 2 1 ⟨9, 0, 1, "c", "", 0, 0, 2⟩).take 3)
    ⟨_, rfl⟩ (by decide +kernel)
  obtain ⟨-, -, -, hstarting, -⟩ := actuator_ledger hw 1
  exact ⟨w, htotal, hstops, hstarting, by omega⟩

end World

end HyperFaaS.Leaf

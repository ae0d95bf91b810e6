import HyperFaaS.Leaf.World

/-!
Every step of a leaf, taken apart: `Transition` has one case for each way through
each action, with what had to hold before and the state after. Proofs about the
leaf split on these cases and never unfold `step`.
-/

namespace HyperFaaS.Leaf

open Function

open Autoscaling

/-- Past `planStart`. -/
def JobPC.launched : JobPC → Bool
  | .idle | .scheduling => false
  | _ => true

namespace World

/-- The stop items chosen by a batch, with the actuator after it. -/
def chosen (a : SandboxActuator) (count : Int) (withinTarget : Bool) :
    SandboxActuator × List StopItem :=
  if withinTarget then a.instancesForStopWithinTarget count else a.instancesForStop count

/-- What an instance is to the pool. -/
def target (inst : InstanceState) : Dataplane.Sandbox :=
  ⟨inst.instanceId, inst.workerId, inst.address, inst.protocol⟩

/-- What an instance is to the actuator when its start is over. -/
def trackedOf (inst : InstanceState) : TrackedInstance :=
  ⟨inst.instanceId, inst.address, false, inst.workerStateRevision⟩

inductive Transition (w : World) : Action → World → Prop
  | placement {a : Runtime.Action} {p : Runtime.World} : ambientPlacement a = true →
      w.placement.step a = .ok p → Transition w (.placement a) (w.setPlacement p)
  | pool {f : Nat} {a : Dataplane.Action} {p : Dataplane.World} : f < w.functions →
      ambient a = true → (w.pool f).step a = .ok p → Transition w (.pool f a) (w.setPool f p)
  | setTarget {f : Nat} {desired : Int} {reason : String} : f < w.functions →
      Transition w (.setTarget f desired reason)
        (w.setActuator f ((w.actuator f).setTarget desired reason))
  | schedule {f : Nat} {spec : FunctionSpec} {reason : String} {enforce : Bool}
      {scheduler : Runtime.Scheduler} {image : String} {p : Runtime.World} : f < w.functions →
      w.hasPlacement = true → w.placement.step (.schedule scheduler image) = .ok p →
      Transition w (.schedule f spec reason enforce scheduler image)
        ((w.setPlacement p).spawnJob (newJob f spec reason enforce w.placement.nthreads))
  | scheduleAlone {f : Nat} {spec : FunctionSpec} {reason : String} {enforce : Bool}
      {scheduler : Runtime.Scheduler} {image : String} : f < w.functions →
      w.hasPlacement = false →
      Transition w (.schedule f spec reason enforce scheduler image)
        (w.spawnJob (newJob f spec reason enforce w.placement.nthreads))
  | planNothing {j : Nat} {picked : Option Runtime.PlacementChoice} {id : Nat} :
      (w.job j).pc = .scheduling → w.decision (w.job j) picked = some none →
      Transition w (.plan j picked id) (w.goJob j .done)
  | planRefused {j : Nat} {picked : Option Runtime.PlacementChoice} {id workerID : Nat}
      {r : Option Runtime.PlacementReservation} {e : StartErr} :
      (w.job j).pc = .scheduling → w.decision (w.job j) picked = some (some (workerID, r)) →
      (w.actuator (w.job j).function).reserveLocalStart w.hasPlacement workerID (w.job j).spec
        (w.job j).reason (w.job j).enforceTarget = .error e →
      Transition w (.plan j picked id)
        (w.setJob j { w.job j with reservation := r, pc := .cancelling })
  | planned {j : Nat} {picked : Option Runtime.PlacementChoice} {id workerID : Nat}
      {r : Option Runtime.PlacementReservation} {a : SandboxActuator} :
      (w.job j).pc = .scheduling → w.decision (w.job j) picked = some (some (workerID, r)) →
      (w.actuator (w.job j).function).reserveLocalStart w.hasPlacement workerID (w.job j).spec
        (w.job j).reason (w.job j).enforceTarget = .ok a →
      Transition w (.plan j picked id)
        ((w.setActuator (w.job j).function a).setJob j
          { w.job j with
            reservation := r, worker := workerID - 1, instanceID := id, pc := .planned })
  | createFailed {j : Nat} : (w.job j).pc = .planned →
      Transition w (.createFailed j) (w.goJob j .failing)
  | created {j : Nat} {inst : InstanceState} : (w.job j).pc = .planned →
      Transition w (.created j inst)
        (w.setJob j { w.job j with
          inst := fillInstance (w.job j).function (w.job j).spec inst, pc := .created })
  | putFailed {j : Nat} : (w.job j).pc = .created → w.store.putInstance (w.job j).inst = none →
      Transition w (.put j) (w.goJob j .failing)
  | put {j : Nat} {s : Store} : (w.job j).pc = .created →
      w.store.putInstance (w.job j).inst = some s →
      Transition w (.put j) ((w.setStore s).goJob j .stored)
  | add {j : Nat} {p : Dataplane.World} : (w.job j).pc = .stored →
      (w.pool (w.job j).function).step (.add (target (w.job j).inst)) = .ok p →
      Transition w (.add j) ((w.setPool (w.job j).function p).goJob j .added)
  | register {j : Nat} : (w.job j).pc = .added →
      Transition w (.register j)
        ((w.setActuator (w.job j).function
          ((w.actuator (w.job j).function).registerStart (w.job j).worker
            (trackedOf (w.job j).inst))).goJob j .registered)
  | fail {j : Nat} : (w.job j).pc = .failing →
      Transition w (.fail j)
        ((w.setActuator (w.job j).function
          ((w.actuator (w.job j).function).failStart (w.job j).worker)).goJob j .cancelling)
  | completeNone {j : Nat} : (w.job j).pc = .registered ∨ (w.job j).pc = .cancelling →
      (w.job j).reservation = none → Transition w (.complete j) (w.goJob j .done)
  | complete {j : Nat} {r : Runtime.PlacementReservation} {p : Runtime.World} :
      (w.job j).pc = .registered ∨ (w.job j).pc = .cancelling →
      (w.job j).reservation = some r →
      w.placement.step (.complete (decide ((w.job j).pc = .registered)) r) = .ok p →
      Transition w (.complete j)
        ((w.setPlacement p).goJob j (.completing w.placement.nthreads))
  | finish {j t : Nat} : (w.job j).pc = .completing t → w.placement.pc t = .completed →
      Transition w (.finish j) (w.goJob j .done)
  | stop {f : Nat} {count : Int} {within : Bool} : f < w.functions →
      Transition w (.stop f count within)
        ((w.setActuator f (chosen (w.actuator f) count within).1).spawnBatch f
          (chosen (w.actuator f) count within).2)
  | launch {b : Nat} {item : StopItem} {rest : List StopItem} :
      (w.batch b).items = item :: rest → Transition w (.launch b) (w.spawnStop b item rest)
  | drain {k : Nat} {p : Dataplane.World} : (w.stop k).pc = .starting →
      (w.pool (w.stop k).function).step (.drain (w.stop k).item.instanceID) = .ok p →
      Transition w (.drain k) ((w.setPool (w.stop k).function p).goStop k
        (.draining (w.pool (w.stop k).function).ndrains))
  | drainHanded {k d id r : Nat} : (w.stop k).pc = .draining d →
      (w.pool (w.stop k).function).drain d = .handed id r →
      Transition w (.drained k) (w.goStop k (.calling d))
  | drainFailed {k d : Nat} {e : Dataplane.SandboxPool.DrainErr} : (w.stop k).pc = .draining d →
      (w.pool (w.stop k).function).drain d = .failed e →
      Transition w (.drained k) (w.goStop k .cancelling)
  | stopReply {k d : Nat} {reply : StopReply} : (w.stop k).pc = .calling d →
      Transition w (.stopReply k reply) (w.goStop k (.finishing d (decide (reply ≠ .failed))))
  | finishDrain {k d : Nat} {stopped : Bool} {p : Dataplane.World} :
      (w.stop k).pc = .finishing d stopped →
      (w.pool (w.stop k).function).step (.drainFinish d stopped) = .ok p →
      Transition w (.finishDrain k) ((w.setPool (w.stop k).function p).goStop k
        (if stopped then .removing else .cancelling))
  | removeNothing {k : Nat} {a : SandboxActuator} : (w.stop k).pc = .removing →
      (w.actuator (w.stop k).function).removeInstance (w.stop k).item.workerIdx
        (w.stop k).item.instanceID = (a, "") →
      Transition w (.remove k) ((w.setActuator (w.stop k).function a).goStop k .done)
  | remove {k : Nat} {a : SandboxActuator} {address : String} : (w.stop k).pc = .removing →
      (w.actuator (w.stop k).function).removeInstance (w.stop k).item.workerIdx
        (w.stop k).item.instanceID = (a, address) → address ≠ "" →
      Transition w (.remove k)
        (((w.setActuator (w.stop k).function a).goStop k .done).spawnRemoval
          (w.stop k).function (w.stop k).item.workerIdx [(w.stop k).item.instanceID])
  | cancelStop {k : Nat} : (w.stop k).pc = .cancelling →
      Transition w (.cancelStop k)
        ((w.setActuator (w.stop k).function ((w.actuator (w.stop k).function).cancelStop
          (w.stop k).item.workerIdx (w.stop k).item.instanceID)).goStop k .done)
  | reconcile {f idx : Nat} {presence : WorkerPresence} : f < w.functions →
      Transition w (.reconcile f idx presence)
        (w.evict f idx ((w.actuator f).reconcileWorkerState idx presence))
  | sandboxRemoved {f idx id revision : Nat} : f < w.functions →
      Transition w (.sandboxRemoved f idx id revision)
        (w.evict f idx ((w.actuator f).handleSandboxRemoved idx id revision))
  | recordStop {m : Nat} {p : Runtime.World} : (w.removal m).pc = .recording →
      (w.removal m).items ≠ [] → w.hasPlacement = true →
      w.placement.step (.recordStop ((w.removal m).worker + 1)) = .ok p →
      Transition w (.recordStop m)
        ((w.setPlacement p).goRemoval m (.waiting w.placement.nthreads))
  | recordNothing {m : Nat} : (w.removal m).pc = .recording → (w.removal m).items ≠ [] →
      w.hasPlacement = false → Transition w (.recordStop m) (w.goRemoval m .storing)
  | recorded {m t : Nat} : (w.removal m).pc = .waiting t → w.placement.pc t = .recorded →
      Transition w (.recorded m) (w.goRemoval m .storing)
  | storeRemove {m id : Nat} {rest : List Nat} {found : Option Nat} {s : Store} :
      (w.removal m).pc = .storing → (w.removal m).items = id :: rest →
      w.store.removeInstance w.functions id found = some s →
      Transition w (.storeRemove m found) ((w.setStore s).goRemoval m .pooling)
  | poolRemove {m id : Nat} {rest : List Nat} {p : Dataplane.World} :
      (w.removal m).pc = .pooling → (w.removal m).items = id :: rest →
      (w.pool (w.removal m).function).step (.remove id) = .ok p →
      Transition w (.poolRemove m) ((w.setPool (w.removal m).function p).setRemoval m
        { w.removal m with items := rest, pc := .recording })

variable {w w' : World}
variable {f j k m : Nat} {act : Action}

theorem poolStep_ok {a : Dataplane.Action} (h : w.poolStep f a = .ok w') :
    ∃ p, (w.pool f).step a = .ok p ∧ w' = w.setPool f p := by
  unfold poolStep at h
  split at h
  · rename_i p hp
    exact ⟨p, hp, (Except.ok.inj h).symm⟩
  · cases h
  · cases h

theorem placementStep_ok {a : Runtime.Action} (h : w.placementStep a = .ok w') :
    ∃ p, w.placement.step a = .ok p ∧ w' = w.setPlacement p := by
  unfold placementStep at h
  split at h
  · rename_i p hp
    exact ⟨p, hp, (Except.ok.inj h).symm⟩
  · cases h

/-- A call, then a change of the caller's own record. -/
theorem call_ok {x : Except Fault World} {g : World → World}
    (h : (do let u ← x; Except.ok (g u)) = .ok w') : ∃ u, x = .ok u ∧ w' = g u := by
  cases x with
  | error e => cases h
  | ok u => exact ⟨u, rfl, (Except.ok.inj h).symm⟩

theorem schedule_transition {spec : FunctionSpec} {reason : String} {enforce : Bool}
    {scheduler : Runtime.Scheduler} {image : String}
    (h : w.schedule f spec reason enforce scheduler image = .ok w') :
    Transition w (.schedule f spec reason enforce scheduler image) w' := by
  unfold schedule at h
  by_cases hf : f < w.functions
  · rw [if_pos hf] at h
    cases hp : w.hasPlacement with
    | true =>
      rw [hp, if_pos rfl] at h
      obtain ⟨u, hu, rfl⟩ := call_ok h
      obtain ⟨p, hstep, rfl⟩ := placementStep_ok hu
      exact .schedule hf hp hstep
    | false =>
      rw [hp, if_neg Bool.false_ne_true] at h
      cases h
      exact .scheduleAlone hf hp
  · rw [if_neg hf] at h
    cases h

theorem plan_transition {picked : Option Runtime.PlacementChoice} {id : Nat}
    (h : w.plan j picked id = .ok w') : Transition w (.plan j picked id) w' := by
  unfold plan at h
  dsimp only at h
  split at h
  · rename_i hpc
    split at h
    · cases h
    · rename_i hd
      cases h
      exact .planNothing hpc hd
    · rename_i hd
      split at h
      · rename_i he
        cases h
        exact .planRefused hpc hd he
      · rename_i ha
        cases h
        exact .planned hpc hd ha
  · cases h

theorem put_transition (h : w.put j = .ok w') : Transition w (.put j) w' := by
  unfold put at h
  split at h
  · rename_i hpc
    split at h
    · rename_i hs
      cases h
      exact .putFailed hpc hs
    · rename_i hs
      cases h
      exact .put hpc hs
  · cases h

theorem complete_transition (h : w.complete j = .ok w') : Transition w (.complete j) w' := by
  unfold complete at h
  dsimp only at h
  split at h
  · rename_i hpc
    split at h
    · rename_i hr
      cases h
      exact .completeNone hpc hr
    · rename_i r hr
      obtain ⟨u, hu, rfl⟩ := call_ok h
      obtain ⟨p, hp, rfl⟩ := placementStep_ok hu
      exact .complete hpc hr hp
  · cases h

theorem drained_transition (h : w.drained k = .ok w') : Transition w (.drained k) w' := by
  unfold drained at h
  split at h
  · rename_i d hpc
    split at h
    · rename_i hd
      cases h
      exact .drainHanded hpc hd
    · rename_i hd
      cases h
      exact .drainFailed hpc hd
    · cases h
  · cases h

theorem finishDrain_transition (h : w.finishDrain k = .ok w') :
    Transition w (.finishDrain k) w' := by
  unfold finishDrain at h
  split at h
  · rename_i hpc
    obtain ⟨u, hu, rfl⟩ := call_ok h
    obtain ⟨p, hp, rfl⟩ := poolStep_ok hu
    exact .finishDrain hpc hp
  · cases h

theorem remove_transition (h : w.remove k = .ok w') : Transition w (.remove k) w' := by
  unfold remove at h
  dsimp only at h
  split at h
  · rename_i hpc
    split at h
    · rename_i hempty
      cases h
      exact .removeNothing hpc (Prod.ext rfl hempty)
    · rename_i hne
      cases h
      exact .remove hpc rfl hne
  · cases h

theorem recordStop_transition (h : w.recordStop m = .ok w') : Transition w (.recordStop m) w' := by
  unfold recordStop at h
  dsimp only at h
  split at h
  · rename_i hpc
    split at h
    · rename_i hp
      obtain ⟨u, hu, rfl⟩ := call_ok h
      obtain ⟨p, hstep, rfl⟩ := placementStep_ok hu
      exact .recordStop hpc.1 hpc.2 hp hstep
    · rename_i hp
      cases h
      exact .recordNothing hpc.1 hpc.2 (by simpa using hp)
  · cases h

theorem storeRemove_transition {found : Option Nat} (h : w.storeRemove m found = .ok w') :
    Transition w (.storeRemove m found) w' := by
  unfold storeRemove at h
  split at h
  · rename_i hpc hitems
    split at h
    · rename_i hs
      cases h
      exact .storeRemove hpc hitems hs
    · cases h
  · cases h

theorem poolRemove_transition (h : w.poolRemove m = .ok w') : Transition w (.poolRemove m) w' := by
  unfold poolRemove at h
  split at h
  · rename_i hpc hitems
    obtain ⟨u, hu, rfl⟩ := call_ok h
    obtain ⟨p, hp, rfl⟩ := poolStep_ok hu
    exact .poolRemove hpc hitems hp
  · cases h

/-- **Every step is a transition.** -/
theorem step_transition {a : Action} (h : w.step a = .ok w') : Transition w a w' := by
  cases a with
  | placement a =>
    simp only [step] at h
    split at h
    · rename_i ha
      obtain ⟨p, hp, rfl⟩ := placementStep_ok h
      exact .placement ha hp
    · cases h
  | pool f a =>
    simp only [step] at h
    split at h
    · rename_i ha
      obtain ⟨p, hp, rfl⟩ := poolStep_ok h
      exact .pool ha.1 ha.2 hp
    · cases h
  | setTarget f desired reason =>
    simp only [step] at h
    split at h
    · rename_i hf
      cases h
      exact .setTarget hf
    · cases h
  | schedule f spec reason enforce scheduler image => exact schedule_transition h
  | plan j picked id => exact plan_transition h
  | createFailed j =>
    simp only [step, World.createFailed] at h
    split at h
    · rename_i hpc
      cases h
      exact .createFailed hpc
    · cases h
  | created j inst =>
    simp only [step, World.created] at h
    split at h
    · rename_i hpc
      cases h
      exact .created hpc
    · cases h
  | put j => exact put_transition h
  | add j =>
    simp only [step, World.add] at h
    split at h
    · rename_i hpc
      obtain ⟨u, hu, rfl⟩ := call_ok h
      obtain ⟨p, hp, rfl⟩ := poolStep_ok hu
      exact .add hpc hp
    · cases h
  | register j =>
    simp only [step, World.register] at h
    split at h
    · rename_i hpc
      cases h
      exact .register hpc
    · cases h
  | fail j =>
    simp only [step, World.fail] at h
    split at h
    · rename_i hpc
      cases h
      exact .fail hpc
    · cases h
  | complete j => exact complete_transition h
  | finish j =>
    simp only [step, World.finish] at h
    split at h
    · rename_i hpc
      split at h
      · rename_i ht
        cases h
        exact .finish hpc ht
      · cases h
    · cases h
  | stop f count within =>
    simp only [step, World.stopInstances] at h
    split at h
    · rename_i hf
      cases h
      exact .stop hf
    · cases h
  | launch b =>
    simp only [step, World.launch] at h
    split at h
    · cases h
    · rename_i hb
      cases h
      exact .launch hb
  | drain k =>
    simp only [step, World.drain] at h
    split at h
    · rename_i hpc
      obtain ⟨u, hu, rfl⟩ := call_ok h
      obtain ⟨p, hp, rfl⟩ := poolStep_ok hu
      exact .drain hpc hp
    · cases h
  | drained k => exact drained_transition h
  | stopReply k reply =>
    simp only [step, World.stopReply] at h
    split at h
    · rename_i hpc
      cases h
      exact .stopReply hpc
    · cases h
  | finishDrain k => exact finishDrain_transition h
  | remove k => exact remove_transition h
  | cancelStop k =>
    simp only [step, World.cancelStop] at h
    split at h
    · rename_i hpc
      cases h
      exact .cancelStop hpc
    · cases h
  | reconcile f idx presence =>
    simp only [step, World.reconcile] at h
    split at h
    · rename_i hf
      cases h
      exact .reconcile hf
    · cases h
  | sandboxRemoved f idx id revision =>
    simp only [step, World.sandboxRemoved] at h
    split at h
    · rename_i hf
      cases h
      exact .sandboxRemoved hf
    · cases h
  | recordStop m => exact recordStop_transition h
  | recorded m =>
    simp only [step, World.recorded] at h
    split at h
    · rename_i hpc
      split at h
      · rename_i ht
        cases h
        exact .recorded hpc ht
      · cases h
    · cases h
  | storeRemove m found => exact storeRemove_transition h
  | poolRemove m => exact poolRemove_transition h

/-! ## The place of a start -/

/-- Where a step takes the start `i`. -/
inductive PCStep (w : World) (i : Nat) : Action → JobPC → Prop
  | same {act : Action} : PCStep w i act (w.job i).pc
  | scheduled {f : Nat} {spec : FunctionSpec} {reason : String} {enforce : Bool}
      {scheduler : Runtime.Scheduler} {image : String} : i = w.njobs →
      PCStep w i (.schedule f spec reason enforce scheduler image) .scheduling
  | dropped {picked : Option Runtime.PlacementChoice} {id : Nat} : (w.job i).pc = .scheduling →
      PCStep w i (.plan i picked id) .done
  | refused {picked : Option Runtime.PlacementChoice} {id : Nat} : (w.job i).pc = .scheduling →
      PCStep w i (.plan i picked id) .cancelling
  | planned {picked : Option Runtime.PlacementChoice} {id : Nat} : (w.job i).pc = .scheduling →
      PCStep w i (.plan i picked id) .planned
  | createFailed : (w.job i).pc = .planned → PCStep w i (.createFailed i) .failing
  | created {inst : InstanceState} : (w.job i).pc = .planned →
      PCStep w i (.created i inst) .created
  | putFailed : (w.job i).pc = .created → w.store.putInstance (w.job i).inst = none →
      PCStep w i (.put i) .failing
  | put : (w.job i).pc = .created → PCStep w i (.put i) .stored
  | added : (w.job i).pc = .stored → PCStep w i (.add i) .added
  | registered : (w.job i).pc = .added → PCStep w i (.register i) .registered
  | failed : (w.job i).pc = .failing → PCStep w i (.fail i) .cancelling
  | completed : (w.job i).pc = .registered ∨ (w.job i).pc = .cancelling →
      PCStep w i (.complete i) .done
  | completing {t : Nat} : (w.job i).pc = .registered ∨ (w.job i).pc = .cancelling →
      PCStep w i (.complete i) (.completing t)
  | finished {t : Nat} : (w.job i).pc = .completing t → PCStep w i (.finish i) .done

theorem PCStep.update {x : Job} (h : PCStep w j act x.pc) (i : Nat) :
    PCStep w i act (update w.job j x i).pc := by
  by_cases hij : i = j
  · subst hij
    rw [update_self]
    exact h
  · rw [update_of_ne hij]
    exact .same

theorem Transition.pcStep (hs : Transition w act w') (i : Nat) : PCStep w i act (w'.job i).pc := by
  cases hs with
  | placement _ _ | pool _ _ _ | setTarget _ | stop _ | launch _ | drain _ _ | drainHanded _ _
  | drainFailed _ _ | stopReply _ | finishDrain _ _ | removeNothing _ _ | remove _ _ _
  | cancelStop _ | reconcile _ | sandboxRemoved _ | recordStop _ _ _ _ | recordNothing _ _ _
  | recorded _ _ | storeRemove _ _ _ | poolRemove _ _ _ => exact .same
  | schedule _ _ _ | scheduleAlone _ _ => exact PCStep.update (.scheduled rfl) i
  | planNothing hpc _ => exact PCStep.update (.dropped hpc) i
  | planRefused hpc _ _ => exact PCStep.update (.refused hpc) i
  | planned hpc _ _ => exact PCStep.update (.planned hpc) i
  | createFailed hpc => exact PCStep.update (.createFailed hpc) i
  | created hpc => exact PCStep.update (.created hpc) i
  | putFailed hpc hput => exact PCStep.update (.putFailed hpc hput) i
  | put hpc _ => exact PCStep.update (.put hpc) i
  | add hpc _ => exact PCStep.update (.added hpc) i
  | register hpc => exact PCStep.update (.registered hpc) i
  | fail hpc => exact PCStep.update (.failed hpc) i
  | completeNone hpc _ => exact PCStep.update (.completed hpc) i
  | complete hpc _ _ => exact PCStep.update (.completing hpc) i
  | finish hpc _ => exact PCStep.update (.finished hpc) i

/-- The start goes on: what identifies it stays, and it goes forward. -/
structure SameStart (x y : Job) : Prop where
  function : y.function = x.function
  worker : y.worker = x.worker
  instanceID : y.instanceID = x.instanceID
  inst : y.inst = x.inst
  born : x.pc = .idle → y.pc = .idle
  launched : x.pc.launched = true → y.pc.launched = true
  early : y.pc = .scheduling ∨ y.pc = .planned ∨ y.pc = .created → x.pc = y.pc

theorem SameStart.refl (x : Job) : SameStart x x :=
  ⟨rfl, rfl, rfl, rfl, id, id, fun _ => rfl⟩

/-- What a step does to the start `i`. -/
inductive JobStep (w : World) (act : Action) (i : Nat) (y : Job) : Prop
  | same : SameStart (w.job i) y → JobStep w act i y
  | spawned {f : Nat} {spec : FunctionSpec} {reason : String} {enforce : Bool}
      {scheduler : Runtime.Scheduler} {image : String} :
      act = .schedule f spec reason enforce scheduler image → i = w.njobs → y.function = f →
      y.pc = .scheduling → y.instanceID = 0 → y.inst.instanceId = 0 → JobStep w act i y
  | planned {picked : Option Runtime.PlacementChoice} {id : Nat} : act = .plan i picked id →
      (w.job i).pc = .scheduling → y.function = (w.job i).function → y.instanceID = id →
      y.inst = (w.job i).inst → y.pc = .planned → JobStep w act i y
  | created {inst : InstanceState} : act = .created i inst → (w.job i).pc = .planned →
      y = { w.job i with
        inst := fillInstance (w.job i).function (w.job i).spec inst, pc := .created } →
      JobStep w act i y

theorem JobStep.update {x : Job} (h : JobStep w act j x) (i : Nat) :
    JobStep w act i (update w.job j x i) := by
  by_cases hij : i = j
  · subst hij
    rw [update_self]
    exact h
  · rw [update_of_ne hij]
    exact .same (.refl _)

theorem JobStep.go {pc : JobPC} (hj : (w.job j).pc ≠ .idle) (hl : pc.launched = true)
    (hp : pc ≠ .planned ∧ pc ≠ .created) : JobStep w act j { w.job j with pc := pc } := by
  refine .same ⟨rfl, rfl, rfl, rfl, fun hidle => absurd hidle hj, fun _ => hl, ?_⟩
  rintro (hpc | hpc | hpc)
  · have hpc : pc = .scheduling := hpc
    rw [hpc] at hl
    cases hl
  · exact absurd hpc hp.1
  · exact absurd hpc hp.2

theorem Transition.jobStep (hs : Transition w act w') (i : Nat) : JobStep w act i (w'.job i) := by
  cases hs with
  | placement _ _ | pool _ _ _ | setTarget _ | stop _ | launch _ | drain _ _ | drainHanded _ _
  | drainFailed _ _ | stopReply _ | finishDrain _ _ | removeNothing _ _ | remove _ _ _
  | cancelStop _ | reconcile _ | sandboxRemoved _ | recordStop _ _ _ _ | recordNothing _ _ _
  | recorded _ _ | storeRemove _ _ _ | poolRemove _ _ _ => exact .same (.refl _)
  | schedule _ _ _ | scheduleAlone _ _ =>
    refine JobStep.update ?_ i
    exact .spawned rfl rfl rfl rfl rfl rfl
  | @planned j picked id _ _ _ hpc _ _ =>
    refine JobStep.update ?_ i
    exact .planned rfl hpc rfl rfl rfl rfl
  | @created j inst hpc =>
    refine JobStep.update ?_ i
    exact .created rfl hpc rfl
  | @planRefused j _ _ _ _ _ hpc _ _ =>
    refine JobStep.update ?_ i
    refine .same ⟨rfl, rfl, rfl, rfl, fun hidle => ?_, fun _ => rfl, ?_⟩
    · rw [hpc] at hidle
      cases hidle
    · rintro (h | h | h) <;> cases h
  | planNothing hpc _ | createFailed hpc | putFailed hpc _ | put hpc _ | add hpc _ | register hpc
  | fail hpc | finish hpc _ => exact JobStep.update (JobStep.go (by simp [hpc]) rfl (by simp)) i
  | completeNone hpc _ | complete hpc _ _ =>
    refine JobStep.update (JobStep.go ?_ rfl (by simp)) i
    rcases hpc with hpc | hpc <;> simp [hpc]

theorem Transition.scheduled {spec : FunctionSpec} {reason : String} {enforce : Bool}
    {scheduler : Runtime.Scheduler} {image : String}
    (hs : Transition w (.schedule f spec reason enforce scheduler image) w') :
    w'.njobs = w.njobs + 1 ∧ (w'.job w.njobs).function = f := by
  have hnew : ∀ x : Job, x.function = f → (update w.job w.njobs x w.njobs).function = f := by
    intro x hx
    rw [update_self, hx]
  cases hs with
  | schedule _ _ _ | scheduleAlone _ _ => exact ⟨rfl, hnew _ rfl⟩

theorem Transition.njobs_cases (hs : Transition w act w') :
    w'.njobs = w.njobs ∨ (∃ f spec reason enforce scheduler image,
      act = .schedule f spec reason enforce scheduler image) ∧ w'.njobs = w.njobs + 1 := by
  cases hs with
  | schedule _ _ _ | scheduleAlone _ _ => exact .inr ⟨⟨_, _, _, _, _, _, rfl⟩, rfl⟩
  | _ => exact .inl rfl

theorem Transition.njobs (hs : Transition w act w') : w.njobs ≤ w'.njobs := by
  rcases hs.njobs_cases with h | ⟨-, h⟩ <;> omega

theorem Transition.function (hs : Transition w act w') {i : Nat} (hi : i < w.njobs) :
    (w'.job i).function = (w.job i).function := by
  cases hs.jobStep i with
  | same hsame => exact hsame.function
  | spawned _ hnew _ _ _ _ => omega
  | planned _ _ hf _ _ _ => exact hf
  | created _ _ hy => rw [hy]

end World

end HyperFaaS.Leaf

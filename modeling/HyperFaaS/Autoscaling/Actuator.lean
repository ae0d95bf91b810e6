import Mathlib.Logic.Function.Basic
import Mathlib.Data.List.Perm.Basic
import Mathlib.Data.List.Perm.Subperm
import Mathlib.Tactic.Ring

/-!
The actuator of one function (`pkg/leaf/autoscaling/actuator.go`): its record,
and each section that runs with its mutex held, as a function on that record.

The counters are integers, as in the source, so that a wrong decrement would
show. `workerInstances` is a table with `workers` entries. A section that clears
a stopping mark does so through `clear`; the source's own guard is `clearStop`.
The strict-admission batch and the scale pump are not here: they only choose
when these sections run, and with which arguments.
-/

namespace HyperFaaS.Autoscaling

structure TrackedInstance where
  id : Nat
  address : String
  stopping : Bool
  workerStateRevision : Nat
  deriving DecidableEq, Repr

structure RemovedInstance where
  id : Nat
  address : String
  createRevision : Nat
  stopping : Bool
  deriving DecidableEq, Repr

structure WorkerPresence where
  revision : Nat
  instanceIDs : List Nat
  deriving DecidableEq, Repr

structure WorkerInstanceState where
  instances : List TrackedInstance
  pendingStarts : Int
  deriving DecidableEq, Repr

structure StopItem where
  workerIdx : Nat
  instanceID : Nat
  address : String
  deriving DecidableEq, Repr

/-- The settings the sections read. -/
structure DataplaneConfig where
  dirigentStrictAdmission : Bool
  maxStartsPerReconcile : Nat
  startTokensPerWorker : Nat
  maxInstancesPerWorker : Nat
  deriving DecidableEq, Repr

structure ScaleSpec where
  maxConcurrency : Nat
  maxInstances : Nat
  deriving DecidableEq, Repr

structure FunctionSpec where
  protocol : String
  scale : Option ScaleSpec
  deriving DecidableEq, Repr

/-- The errors of `reserveLocalStart`. -/
inductive StartErr
  | workerNotFound (workerID : Nat)
  | startSlotsExhausted
  | workerAtCapacity
  | startNotNeeded
  | functionAtMaxInstances
  deriving DecidableEq, Repr

structure SandboxActuator where
  workers : Nat
  cfg : DataplaneConfig
  workerInstances : Nat → WorkerInstanceState
  totalInstances : Int
  pendingStarts : Int
  pendingStops : Int
  targetInstances : Int
  targetReason : String
  targetRevision : Nat

def defaultStartBurstPerWorker : Int := 8
def maxConcurrentStarts : Int := 2 ^ 63 - 1

/-- `leaf.InstancesPerWorkerAtCap` -/
def instancesPerWorkerAtCap (count : Int) (max : Nat) : Bool :=
  max != 0 && decide (count ≥ max)

/-- The guarded decrement `if inst.stopping && a.pendingStops > 0 { a.pendingStops-- }`. -/
def clearStop (stopping : Bool) (pendingStops : Int) : Int :=
  if stopping && decide (pendingStops > 0) then pendingStops - 1 else pendingStops

/-- The same decrement without its guard. -/
def clearStopUnguarded (stopping : Bool) (pendingStops : Int) : Int :=
  if stopping then pendingStops - 1 else pendingStops

namespace SandboxActuator

def newSandboxActuator (workers : Nat) (cfg : DataplaneConfig) : SandboxActuator where
  workers := workers
  cfg := cfg
  workerInstances := fun _ => ⟨[], 0⟩
  totalInstances := 0
  pendingStarts := 0
  pendingStops := 0
  targetInstances := 0
  targetReason := ""
  targetRevision := 0

def setWorker (a : SandboxActuator) (idx : Nat) (ws : WorkerInstanceState) : SandboxActuator :=
  { a with workerInstances := Function.update a.workerInstances idx ws }

/-- `totalInstances + pendingStarts - pendingStops` -/
def future (a : SandboxActuator) : Int := a.totalInstances + a.pendingStarts - a.pendingStops

def startLimitPerWorker (a : SandboxActuator) : Int :=
  if a.cfg.dirigentStrictAdmission then maxConcurrentStarts
  else if a.cfg.startTokensPerWorker > 0 then a.cfg.startTokensPerWorker
  else defaultStartBurstPerWorker

def maxStartsPerReconcile (a : SandboxActuator) : Int :=
  if a.cfg.dirigentStrictAdmission then maxConcurrentStarts
  else if a.cfg.maxStartsPerReconcile > 0 then a.cfg.maxStartsPerReconcile
  else
    let perWorker : Int := if a.cfg.startTokensPerWorker = 0 then defaultStartBurstPerWorker
      else a.cfg.startTokensPerWorker
    a.workers * perWorker

/-- The target update of `ApplyScale`; `StopAll` is its case `0`, `""`. -/
def setTarget (a : SandboxActuator) (desired : Int) (reason : String) : SandboxActuator :=
  { a with
    targetRevision := if a.targetInstances ≠ desired then a.targetRevision + 1 else a.targetRevision
    targetInstances := desired
    targetReason := reason }

/-- `placement` says whether the actuator has a placement coordinator. Worker ids
count from one. -/
def reserveLocalStart (a : SandboxActuator) (placement : Bool) (workerID : Nat)
    (spec : FunctionSpec) (reason : String) (enforceTarget : Bool) :
    Except StartErr SandboxActuator :=
  if workerID = 0 ∨ workerID > a.workers then .error (.workerNotFound workerID)
  else
    let idx := workerID - 1
    let ws := a.workerInstances idx
    if placement = false ∧
        (ws.pendingStarts ≥ a.startLimitPerWorker ∨ a.pendingStarts ≥ a.maxStartsPerReconcile) then
      .error .startSlotsExhausted
    else if placement = false ∧
        instancesPerWorkerAtCap (ws.instances.length + ws.pendingStarts)
          a.cfg.maxInstancesPerWorker = true then
      .error .workerAtCapacity
    else if enforceTarget = true ∧ a.future ≥ a.targetInstances then .error .startNotNeeded
    else if reason = "cold-start" ∧ a.future ≥ 1 then .error .startNotNeeded
    else if spec.scale.any (fun s => decide (s.maxInstances > 0) &&
        decide (a.future ≥ s.maxInstances)) = true then
      .error .functionAtMaxInstances
    else
      .ok { a.setWorker idx { ws with pendingStarts := ws.pendingStarts + 1 } with
        pendingStarts := a.pendingStarts + 1 }

/-- The end of `runStart` when the start failed. -/
def failStart (a : SandboxActuator) (idx : Nat) : SandboxActuator :=
  let ws := a.workerInstances idx
  { a.setWorker idx { ws with pendingStarts := ws.pendingStarts - 1 } with
    pendingStarts := a.pendingStarts - 1 }

/-- The end of `runStart` when the sandbox runs. -/
def registerStart (a : SandboxActuator) (idx : Nat) (inst : TrackedInstance) : SandboxActuator :=
  let ws := a.workerInstances idx
  { a.setWorker idx ⟨ws.instances ++ [inst], ws.pendingStarts - 1⟩ with
    pendingStarts := a.pendingStarts - 1
    totalInstances := a.totalInstances + 1 }

/-! ## Choosing instances to stop -/

/-- The inner loop of `instancesForStopLocked`: mark up to `n` instances of one
worker. The last part of the result is what is left of `n`. -/
def markStopping (idx : Nat) : Nat → List TrackedInstance →
    List TrackedInstance × List StopItem × Nat
  | 0, l => (l, [], 0)
  | n + 1, [] => ([], [], n + 1)
  | n + 1, inst :: rest =>
      if inst.stopping then
        let (l, out, m) := markStopping idx (n + 1) rest
        (inst :: l, out, m)
      else
        let (l, out, m) := markStopping idx n rest
        ({ inst with stopping := true } :: l, ⟨idx, inst.id, inst.address⟩ :: out, m)

/-- One turn of the outer loop. -/
def markWorker (a : SandboxActuator) (idx n : Nat) : SandboxActuator × List StopItem × Nat :=
  let ws := a.workerInstances idx
  let (l, out, m) := markStopping idx n ws.instances
  ({ a.setWorker idx { ws with instances := l } with
      pendingStops := a.pendingStops + out.length }, out, m)

/-- The outer loop, over the worker indices that are left. -/
def markWorkers : List Nat → Nat → SandboxActuator → SandboxActuator × List StopItem
  | [], _, a => (a, [])
  | idx :: rest, n, a =>
      let (a, out, m) := a.markWorker idx n
      let (a, out') := markWorkers rest m a
      (a, out ++ out')

def instancesForStopLocked (a : SandboxActuator) (count : Int) : SandboxActuator × List StopItem :=
  markWorkers (List.range a.workers) count.toNat a

def instancesForStop (a : SandboxActuator) (count : Int) : SandboxActuator × List StopItem :=
  if count ≤ 0 then (a, []) else a.instancesForStopLocked count

def instancesForStopWithinTarget (a : SandboxActuator) (count : Int) :
    SandboxActuator × List StopItem :=
  if count ≤ 0 then (a, [])
  else
    let excess := a.future - a.targetInstances
    if excess ≤ 0 then (a, [])
    else a.instancesForStopLocked (if count > excess then excess else count)

/-! ## Clearing a mark, removing an instance -/

/-- Clear the mark of the first instance with this id, if it has one. -/
def unmark (id : Nat) : List TrackedInstance → Option (List TrackedInstance)
  | [] => none
  | inst :: rest =>
      if inst.id = id then
        if inst.stopping then some ({ inst with stopping := false } :: rest) else none
      else (unmark id rest).map (inst :: ·)

/-- `ws.instances[i] = ws.instances[last]; ws.instances = ws.instances[:last]` -/
def swapRemove (l : List TrackedInstance) (i : Nat) : List TrackedInstance :=
  match l.getLast? with
  | none => l
  | some last => (l.set i last).dropLast

/-- Whether a snapshot lets an instance stay. -/
def keeps (presence : WorkerPresence) (inst : TrackedInstance) : Bool :=
  decide (inst.id ∈ presence.instanceIDs) ||
    (inst.workerStateRevision == 0 || presence.revision == 0) ||
    decide (presence.revision < inst.workerStateRevision)

def removed (inst : TrackedInstance) : RemovedInstance :=
  ⟨inst.id, inst.address, inst.workerStateRevision, inst.stopping⟩

/-- An event older than the instance does not remove it. -/
def staleEvent (workerRevision : Nat) (inst : TrackedInstance) : Bool :=
  inst.workerStateRevision != 0 && workerRevision != 0 &&
    decide (workerRevision < inst.workerStateRevision)

section Clear

variable (clear : Bool → Int → Int)

/-- The loop of `ReconcileWorkerState`: the instances that stay, those that go,
and `pendingStops` after it. -/
def sift (presence : WorkerPresence) : List TrackedInstance → Int →
    List TrackedInstance × List RemovedInstance × Int
  | [], n => ([], [], n)
  | inst :: rest, n =>
      if keeps presence inst then
        let (kept, gone, n) := sift presence rest n
        (inst :: kept, gone, n)
      else
        let (kept, gone, n) := sift presence rest (clear inst.stopping n)
        (kept, removed inst :: gone, n)

def cancelStopWith (a : SandboxActuator) (workerIdx instanceID : Nat) : SandboxActuator :=
  if workerIdx ≥ a.workers then a
  else
    let ws := a.workerInstances workerIdx
    match unmark instanceID ws.instances with
    | none => a
    | some l =>
        { a.setWorker workerIdx { ws with instances := l } with
          pendingStops := clear true a.pendingStops }

/-- The section of `removeInstance`; it returns the address it found. -/
def removeInstanceWith (a : SandboxActuator) (workerIdx instanceID : Nat) :
    SandboxActuator × String :=
  if workerIdx ≥ a.workers then (a, "")
  else
    let ws := a.workerInstances workerIdx
    match ws.instances.findIdx? (fun inst => inst.id == instanceID) with
    | none => (a, "")
    | some i =>
        match ws.instances[i]? with
        | none => (a, "")
        | some inst =>
            ({ a.setWorker workerIdx { ws with instances := swapRemove ws.instances i } with
                pendingStops := clear inst.stopping a.pendingStops
                totalInstances := a.totalInstances - 1 }, inst.address)

/-- The section of `ReconcileWorkerState`. -/
def reconcileWorkerStateWith (a : SandboxActuator) (workerIdx : Nat) (presence : WorkerPresence) :
    SandboxActuator × List RemovedInstance :=
  if workerIdx ≥ a.workers then (a, [])
  else
    let ws := a.workerInstances workerIdx
    let (kept, gone, n) := sift clear presence ws.instances a.pendingStops
    ({ a.setWorker workerIdx { ws with instances := kept } with
        pendingStops := n
        totalInstances := a.totalInstances - gone.length }, gone)

/-- The section of `HandleSandboxRemoved`. -/
def handleSandboxRemovedWith (a : SandboxActuator) (workerIdx instanceID workerRevision : Nat) :
    SandboxActuator × List RemovedInstance :=
  if workerIdx ≥ a.workers then (a, [])
  else
    let ws := a.workerInstances workerIdx
    match ws.instances.find? (fun inst => inst.id == instanceID) with
    | none => (a, [])
    | some inst =>
        if staleEvent workerRevision inst then (a, [])
        else
          ({ a.setWorker workerIdx
                { ws with instances := ws.instances.eraseP (fun inst => inst.id == instanceID) } with
              totalInstances := a.totalInstances - 1
              pendingStops := clear inst.stopping a.pendingStops }, [removed inst])

end Clear

def cancelStop := cancelStopWith clearStop
def removeInstance := removeInstanceWith clearStop
def reconcileWorkerState := reconcileWorkerStateWith clearStop
def handleSandboxRemoved := handleSandboxRemovedWith clearStop

end SandboxActuator

end HyperFaaS.Autoscaling

import HyperFaaS.Autoscaling.Actuator
import HyperFaaS.Dataplane.PoolMachine
import HyperFaaS.Runtime.Placement

/-!
A leaf: the actuators of its functions (`pkg/leaf/autoscaling/actuator.go`), the
sandbox pool of each, the instance store and the placement ledger they share,
and every operation in progress on them.

Starts, stops and removals are threads with a place in their code. An action
runs one thread up to its next critical section, call or channel operation. The
pools and the placement ledger are the machines of their own modules; a thread
that is inside one of their calls waits until that call is over, and the actions
`pool` and `placement` move those calls. So a run is an interleaving of all
these operations, each broken at every point where it can be interrupted.

What a worker answers, which snapshots and events arrive, and which worker a
scheduler picks are arguments of the actions.
-/

namespace HyperFaaS.Leaf

open Function

open Autoscaling

inductive Fault
  | disabled
  | pool (e : Dataplane.Fault)
  deriving DecidableEq, Repr

/-- The fields of `core.InstanceState` that a start reads or sets. -/
structure InstanceState where
  instanceId : Nat
  functionId : Nat
  workerId : Nat
  address : String
  protocol : String
  maxConcurrency : Nat
  availableConcurrency : Nat
  workerStateRevision : Nat
  deriving DecidableEq, Repr

/-! ## The store (`pkg/leaf/dataplane/store.go`) -/

/-- `functionID -> instanceID -> state` -/
structure Store where
  byFunction : Nat → Nat → Option InstanceState

namespace Store

def newStore : Store := ⟨fun _ _ => none⟩

/-- No result is the error "dataplane store: invalid instance". -/
def putInstance (s : Store) (inst : InstanceState) : Option Store :=
  if inst.functionId = 0 ∨ inst.instanceId = 0 then none
  else
    some ⟨update s.byFunction inst.functionId
      (update (s.byFunction inst.functionId) inst.instanceId (some inst))⟩

/-- The entry of one function is deleted. -/
def delete (s : Store) (functionID instanceID : Nat) : Store :=
  ⟨update s.byFunction functionID
    (update (s.byFunction functionID) instanceID none)⟩

/-- `RemoveInstance` deletes the first entry a loop over the functions meets;
`found` is the function of that entry, none when no function has one. -/
def removeInstance (s : Store) (functions instanceID : Nat) (found : Option Nat) : Option Store :=
  match found with
  | none =>
      if ∀ f < functions, (s.byFunction f instanceID).isNone = true then some s else none
  | some f =>
      if f < functions ∧ (s.byFunction f instanceID).isSome = true then
        some (s.delete f instanceID)
      else none

end Store

/-! ## Operations in progress -/

/-- Where a start (`planStart`, then `runStart`) stands. -/
inductive JobPC
  | idle
  /-- in `Schedule`, or before `PickWorker` -/
  | scheduling
  /-- reserved locally, before the answer of `CreateSandbox` -/
  | planned
  /-- before `PutInstance` -/
  | created
  /-- before `pool.Add` -/
  | stored
  /-- before the section that appends the instance -/
  | added
  /-- before `CommitReservation` -/
  | registered
  /-- before the section that gives the local reservation back -/
  | failing
  /-- before `CancelReservation` -/
  | cancelling
  /-- inside `CommitReservation` or `CancelReservation`, as that thread -/
  | completing (t : Nat)
  | done
  deriving DecidableEq, Repr

structure Job where
  function : Nat
  spec : FunctionSpec
  reason : String
  enforceTarget : Bool
  /-- the thread of its `Schedule` call -/
  call : Nat
  reservation : Option Runtime.PlacementReservation
  worker : Nat
  /-- the id it asks the worker to use -/
  instanceID : Nat
  inst : InstanceState
  pc : JobPC
  deriving DecidableEq, Repr

/-- Where the goroutine of `stopInstances` for one item stands; `d` is its `Drain`
call on the pool. -/
inductive StopPC
  | idle
  | starting
  | draining (d : Nat)
  /-- in the `StopSandbox` call -/
  | calling (d : Nat)
  /-- before `finishDrain(stopped)` -/
  | finishing (d : Nat) (stopped : Bool)
  /-- before the section of `removeInstance` -/
  | removing
  /-- before `cancelStop` -/
  | cancelling
  | done
  deriving DecidableEq, Repr

structure Stop where
  function : Nat
  item : StopItem
  pc : StopPC
  deriving DecidableEq, Repr

/-- The loop of `stopInstances`: the items it has not yet started. -/
structure Batch where
  function : Nat
  items : List StopItem
  deriving DecidableEq, Repr

inductive RemovalPC
  | recording
  /-- inside `RecordStop`, as that thread -/
  | waiting (t : Nat)
  | storing
  | pooling
  deriving DecidableEq, Repr

/-- The loop of `evictTracked`, or the end of `removeInstance`: the instances
that are left, and the place in the turn of the first. -/
structure Removal where
  function : Nat
  worker : Nat
  items : List Nat
  pc : RemovalPC
  deriving DecidableEq, Repr

/-- The answers of `StopSandbox`. -/
inductive StopReply
  | ok
  | notFound
  | failed
  deriving DecidableEq, Repr

structure World where
  workers : Nat
  functions : Nat
  hasPlacement : Bool
  placement : Runtime.World
  actuator : Nat → SandboxActuator
  pool : Nat → Dataplane.World
  store : Store
  njobs : Nat
  job : Nat → Job
  nbatches : Nat
  batch : Nat → Batch
  nstops : Nat
  stop : Nat → Stop
  nremovals : Nat
  removal : Nat → Removal

inductive Action
  | placement (a : Runtime.Action)
  | pool (f : Nat) (a : Dataplane.Action)
  | setTarget (f : Nat) (desired : Int) (reason : String)
  | schedule (f : Nat) (spec : FunctionSpec) (reason : String) (enforceTarget : Bool)
      (scheduler : Runtime.Scheduler) (image : String)
  | plan (j : Nat) (picked : Option Runtime.PlacementChoice) (instanceID : Nat)
  | createFailed (j : Nat)
  | created (j : Nat) (inst : InstanceState)
  | put (j : Nat)
  | add (j : Nat)
  | register (j : Nat)
  | fail (j : Nat)
  | complete (j : Nat)
  | finish (j : Nat)
  | stop (f : Nat) (count : Int) (withinTarget : Bool)
  | launch (b : Nat)
  | drain (k : Nat)
  | drained (k : Nat)
  | stopReply (k : Nat) (reply : StopReply)
  | finishDrain (k : Nat)
  | remove (k : Nat)
  | cancelStop (k : Nat)
  | reconcile (f workerIdx : Nat) (presence : WorkerPresence)
  | sandboxRemoved (f workerIdx instanceID workerRevision : Nat)
  | recordStop (m : Nat)
  | recorded (m : Nat)
  | storeRemove (m : Nat) (found : Option Nat)
  | poolRemove (m : Nat)

/-- The pool actions that are not calls of the leaf's own operations: requests,
the clock, contexts, configuration, and the calls already made going on. -/
def ambient : Dataplane.Action → Bool
  | .add _ | .sync _ _ _ | .remove _ | .close | .drain _ | .drainFinish _ _ => false
  | _ => true

/-- The same for the placement ledger. -/
def ambientPlacement : Runtime.Action → Bool
  | .schedule _ _ | .complete _ _ | .recordStop _ => false
  | _ => true

namespace World

def setActuator (w : World) (f : Nat) (a : SandboxActuator) : World :=
  { w with actuator := update w.actuator f a }

def setPool (w : World) (f : Nat) (p : Dataplane.World) : World :=
  { w with pool := update w.pool f p }

def setPlacement (w : World) (p : Runtime.World) : World := { w with placement := p }

def setJob (w : World) (j : Nat) (x : Job) : World :=
  { w with job := update w.job j x }

/-- A job moves on. -/
def goJob (w : World) (j : Nat) (pc : JobPC) : World := w.setJob j { w.job j with pc := pc }

def spawnJob (w : World) (x : Job) : World := { w.setJob w.njobs x with njobs := w.njobs + 1 }

def setStop (w : World) (k : Nat) (x : Stop) : World :=
  { w with stop := update w.stop k x }

def goStop (w : World) (k : Nat) (pc : StopPC) : World := w.setStop k { w.stop k with pc := pc }

def setRemoval (w : World) (m : Nat) (x : Removal) : World :=
  { w with removal := update w.removal m x }

def goRemoval (w : World) (m : Nat) (pc : RemovalPC) : World :=
  w.setRemoval m { w.removal m with pc := pc }

def spawnRemoval (w : World) (f worker : Nat) (items : List Nat) : World :=
  { w.setRemoval w.nremovals ⟨f, worker, items, .recording⟩ with nremovals := w.nremovals + 1 }

def spawnBatch (w : World) (f : Nat) (items : List StopItem) : World :=
  { w with
    batch := update w.batch w.nbatches ⟨f, items⟩
    nbatches := w.nbatches + 1 }

/-- The loop of `stopInstances` starts the goroutine of its next item. -/
def spawnStop (w : World) (b : Nat) (item : StopItem) (rest : List StopItem) : World :=
  { w.setStop w.nstops ⟨(w.batch b).function, item, .starting⟩ with
    nstops := w.nstops + 1
    batch := update w.batch b { w.batch b with items := rest } }

def setStore (w : World) (s : Store) : World := { w with store := s }

/-- A call of the pool of function `f`. -/
def poolStep (w : World) (f : Nat) (a : Dataplane.Action) : Except Fault World :=
  match (w.pool f).step a with
  | .ok p => .ok (w.setPool f p)
  | .error .disabled => .error .disabled
  | .error e => .error (.pool e)

def placementStep (w : World) (a : Runtime.Action) : Except Fault World :=
  match w.placement.step a with
  | .ok p => .ok (w.setPlacement p)
  | .error _ => .error .disabled

/-! ## Starts -/

/-- A start before its worker is known; `call` is its placement thread. -/
def newJob (f : Nat) (spec : FunctionSpec) (reason : String) (enforceTarget : Bool) (call : Nat) :
    Job :=
  ⟨f, spec, reason, enforceTarget, call, none, 0, 0, ⟨0, 0, 0, "", "", 0, 0, 0⟩, .scheduling⟩

def schedule (w : World) (f : Nat) (spec : FunctionSpec) (reason : String) (enforceTarget : Bool)
    (scheduler : Runtime.Scheduler) (image : String) : Except Fault World :=
  if f < w.functions then
    let job := newJob f spec reason enforceTarget w.placement.nthreads
    if w.hasPlacement then do
      let w' ← w.placementStep (.schedule scheduler image)
      .ok (w'.spawnJob job)
    else .ok (w.spawnJob job)
  else .error .disabled

/-- What a scheduling job gets: a worker and a reservation, or nothing. The
outer result is none while `Schedule` is running. Without a ledger the worker is
the scheduler's own pick. -/
def decision (w : World) (job : Job) (picked : Option Runtime.PlacementChoice) :
    Option (Option (Nat × Option Runtime.PlacementReservation)) :=
  if w.hasPlacement then
    match w.placement.pc job.call with
    | .returned o =>
        if o.err.isSome ∨ o.choice.workerID = 0 then some none
        else some (some (o.choice.workerID, o.reservation))
    | _ => none
  else
    match picked with
    | none => some none
    | some choice => if choice.workerID = 0 then some none else some (some (choice.workerID, none))

/-- The end of `planStart`; the instance id is random. -/
def plan (w : World) (j : Nat) (picked : Option Runtime.PlacementChoice) (instanceID : Nat) :
    Except Fault World :=
  let job := w.job j
  if job.pc = .scheduling then
    match w.decision job picked with
    | none => .error .disabled
    | some none => .ok (w.goJob j .done)
    | some (some (workerID, reservation)) =>
        match (w.actuator job.function).reserveLocalStart w.hasPlacement workerID job.spec
            job.reason job.enforceTarget with
        | .error _ => .ok (w.setJob j { job with reservation := reservation, pc := .cancelling })
        | .ok a =>
            .ok ((w.setActuator job.function a).setJob j
              { job with
                reservation := reservation
                worker := workerID - 1
                instanceID := instanceID
                pc := .planned })
  else .error .disabled

/-- What `runStart` makes of the worker's answer. -/
def fillInstance (functionID : Nat) (spec : FunctionSpec) (inst : InstanceState) : InstanceState :=
  let limit := match spec.scale with
    | some scale => scale.maxConcurrency
    | none => 1
  let limit := if limit = 0 then Dataplane.defaultSandboxConcurrency.toNat else limit
  { inst with
    functionId := functionID
    protocol := spec.protocol
    maxConcurrency := limit
    availableConcurrency := limit }

/-- `PrepareImage` or `CreateSandbox` fails. -/
def createFailed (w : World) (j : Nat) : Except Fault World :=
  if (w.job j).pc = .planned then .ok (w.goJob j .failing) else .error .disabled

def created (w : World) (j : Nat) (inst : InstanceState) : Except Fault World :=
  let job := w.job j
  if job.pc = .planned then
    .ok (w.setJob j { job with inst := fillInstance job.function job.spec inst, pc := .created })
  else .error .disabled

def put (w : World) (j : Nat) : Except Fault World :=
  if (w.job j).pc = .created then
    match w.store.putInstance (w.job j).inst with
    | none => .ok (w.goJob j .failing)
    | some s => .ok ((w.setStore s).goJob j .stored)
  else .error .disabled

def add (w : World) (j : Nat) : Except Fault World :=
  let job := w.job j
  if job.pc = .stored then do
    let w' ← w.poolStep job.function
      (.add ⟨job.inst.instanceId, job.inst.workerId, job.inst.address, job.inst.protocol⟩)
    .ok (w'.goJob j .added)
  else .error .disabled

def register (w : World) (j : Nat) : Except Fault World :=
  let job := w.job j
  if job.pc = .added then
    .ok ((w.setActuator job.function ((w.actuator job.function).registerStart job.worker
      ⟨job.inst.instanceId, job.inst.address, false, job.inst.workerStateRevision⟩)).goJob j
        .registered)
  else .error .disabled

def fail (w : World) (j : Nat) : Except Fault World :=
  let job := w.job j
  if job.pc = .failing then
    .ok ((w.setActuator job.function ((w.actuator job.function).failStart job.worker)).goJob j
      .cancelling)
  else .error .disabled

/-- Enter `CommitReservation` or `CancelReservation`, if there is a reservation. -/
def complete (w : World) (j : Nat) : Except Fault World :=
  let job := w.job j
  if job.pc = .registered ∨ job.pc = .cancelling then
    match job.reservation with
    | none => .ok (w.goJob j .done)
    | some r => do
        let w' ← w.placementStep (.complete (decide (job.pc = .registered)) r)
        .ok (w'.goJob j (.completing w.placement.nthreads))
  else .error .disabled

def finish (w : World) (j : Nat) : Except Fault World :=
  match (w.job j).pc with
  | .completing t =>
      if w.placement.pc t = .completed then .ok (w.goJob j .done) else .error .disabled
  | _ => .error .disabled

/-! ## Stops -/

def stopInstances (w : World) (f : Nat) (count : Int) (withinTarget : Bool) :
    Except Fault World :=
  if f < w.functions then
    let (a, items) := if withinTarget then (w.actuator f).instancesForStopWithinTarget count
      else (w.actuator f).instancesForStop count
    .ok ((w.setActuator f a).spawnBatch f items)
  else .error .disabled

def launch (w : World) (b : Nat) : Except Fault World :=
  match (w.batch b).items with
  | [] => .error .disabled
  | item :: rest => .ok (w.spawnStop b item rest)

def drain (w : World) (k : Nat) : Except Fault World :=
  let s := w.stop k
  if s.pc = .starting then do
    let w' ← w.poolStep s.function (.drain s.item.instanceID)
    .ok (w'.goStop k (.draining (w.pool s.function).ndrains))
  else .error .disabled

/-- `Drain` returns. -/
def drained (w : World) (k : Nat) : Except Fault World :=
  match (w.stop k).pc with
  | .draining d =>
      match (w.pool (w.stop k).function).drain d with
      | .handed _ _ => .ok (w.goStop k (.calling d))
      | .failed _ => .ok (w.goStop k .cancelling)
      | _ => .error .disabled
  | _ => .error .disabled

def stopReply (w : World) (k : Nat) (reply : StopReply) : Except Fault World :=
  match (w.stop k).pc with
  | .calling d => .ok (w.goStop k (.finishing d (decide (reply ≠ .failed))))
  | _ => .error .disabled

def finishDrain (w : World) (k : Nat) : Except Fault World :=
  match (w.stop k).pc with
  | .finishing d stopped => do
      let w' ← w.poolStep (w.stop k).function (.drainFinish d stopped)
      .ok (w'.goStop k (if stopped then .removing else .cancelling))
  | _ => .error .disabled

/-- The section of `removeInstance`; it goes on as a removal when an address was
found. -/
def remove (w : World) (k : Nat) : Except Fault World :=
  let s := w.stop k
  if s.pc = .removing then
    let (a, address) := (w.actuator s.function).removeInstance s.item.workerIdx s.item.instanceID
    let w := (w.setActuator s.function a).goStop k .done
    if address = "" then .ok w
    else .ok (w.spawnRemoval s.function s.item.workerIdx [s.item.instanceID])
  else .error .disabled

def cancelStop (w : World) (k : Nat) : Except Fault World :=
  let s := w.stop k
  if s.pc = .cancelling then
    .ok ((w.setActuator s.function
      ((w.actuator s.function).cancelStop s.item.workerIdx s.item.instanceID)).goStop k .done)
  else .error .disabled

/-! ## Snapshots, events and removals -/

/-- Evict the instances a section has removed. -/
def evict (w : World) (f workerIdx : Nat) (r : SandboxActuator × List RemovedInstance) : World :=
  (w.setActuator f r.1).spawnRemoval f workerIdx (r.2.map RemovedInstance.id)

def reconcile (w : World) (f workerIdx : Nat) (presence : WorkerPresence) : Except Fault World :=
  if f < w.functions then
    .ok (w.evict f workerIdx ((w.actuator f).reconcileWorkerState workerIdx presence))
  else .error .disabled

def sandboxRemoved (w : World) (f workerIdx instanceID workerRevision : Nat) :
    Except Fault World :=
  if f < w.functions then
    .ok (w.evict f workerIdx
      ((w.actuator f).handleSandboxRemoved workerIdx instanceID workerRevision))
  else .error .disabled

/-- `RecordStop` takes the worker's id. -/
def recordStop (w : World) (m : Nat) : Except Fault World :=
  let r := w.removal m
  if r.pc = .recording ∧ r.items ≠ [] then
    if w.hasPlacement then do
      let w' ← w.placementStep (.recordStop (r.worker + 1))
      .ok (w'.goRemoval m (.waiting w.placement.nthreads))
    else .ok (w.goRemoval m .storing)
  else .error .disabled

def recorded (w : World) (m : Nat) : Except Fault World :=
  match (w.removal m).pc with
  | .waiting t =>
      if w.placement.pc t = .recorded then .ok (w.goRemoval m .storing) else .error .disabled
  | _ => .error .disabled

def storeRemove (w : World) (m : Nat) (found : Option Nat) : Except Fault World :=
  match (w.removal m).pc, (w.removal m).items with
  | .storing, id :: _ =>
      match w.store.removeInstance w.functions id found with
      | some s => .ok ((w.setStore s).goRemoval m .pooling)
      | none => .error .disabled
  | _, _ => .error .disabled

def poolRemove (w : World) (m : Nat) : Except Fault World :=
  match (w.removal m).pc, (w.removal m).items with
  | .pooling, id :: rest => do
      let w' ← w.poolStep (w.removal m).function (.remove id)
      .ok (w'.setRemoval m { w.removal m with items := rest, pc := .recording })
  | _, _ => .error .disabled

def step (w : World) : Action → Except Fault World
  | .placement a => if ambientPlacement a then w.placementStep a else .error .disabled
  | .pool f a => if f < w.functions ∧ ambient a = true then w.poolStep f a else .error .disabled
  | .setTarget f desired reason =>
      if f < w.functions then .ok (w.setActuator f ((w.actuator f).setTarget desired reason))
      else .error .disabled
  | .schedule f spec reason enforceTarget scheduler image =>
      w.schedule f spec reason enforceTarget scheduler image
  | .plan j picked instanceID => w.plan j picked instanceID
  | .createFailed j => w.createFailed j
  | .created j inst => w.created j inst
  | .put j => w.put j
  | .add j => w.add j
  | .register j => w.register j
  | .fail j => w.fail j
  | .complete j => w.complete j
  | .finish j => w.finish j
  | .stop f count withinTarget => w.stopInstances f count withinTarget
  | .launch b => w.launch b
  | .drain k => w.drain k
  | .drained k => w.drained k
  | .stopReply k reply => w.stopReply k reply
  | .finishDrain k => w.finishDrain k
  | .remove k => w.remove k
  | .cancelStop k => w.cancelStop k
  | .reconcile f workerIdx presence => w.reconcile f workerIdx presence
  | .sandboxRemoved f workerIdx id revision => w.sandboxRemoved f workerIdx id revision
  | .recordStop m => w.recordStop m
  | .recorded m => w.recorded m
  | .storeRemove m found => w.storeRemove m found
  | .poolRemove m => w.poolRemove m

/-- How the leaf is configured. -/
structure Config where
  workers : Nat
  functions : Nat
  dataplane : DataplaneConfig
  hasPlacement : Bool
  startTokensPerWorker : UInt32
  startTokensTotal : UInt64
  maxInstancesPerWorker : UInt32
  /-- limit and queue depth of each function's pool -/
  pool : Nat → Int × Int
  clock : Nat

def init (c : Config) : World where
  workers := c.workers
  functions := c.functions
  hasPlacement := c.hasPlacement
  placement := .init (.newPlacementState c.workers c.startTokensPerWorker c.startTokensTotal
    c.maxInstancesPerWorker)
  actuator := fun _ => .newSandboxActuator c.workers c.dataplane
  pool := fun f => .init (c.pool f).1 (c.pool f).2 c.clock
  store := .newStore
  njobs := 0
  job := fun _ => { newJob 0 ⟨"", none⟩ "" false 0 with pc := .idle }
  nbatches := 0
  batch := fun _ => ⟨0, []⟩
  nstops := 0
  stop := fun _ => ⟨0, ⟨0, 0, ""⟩, .idle⟩
  nremovals := 0
  removal := fun _ => ⟨0, 0, [], .recording⟩

end World

def machine : Lib.Machine World Action Fault where
  start := fun w => ∃ c, w = World.init c
  step := World.step

end HyperFaaS.Leaf

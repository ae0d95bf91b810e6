import HyperFaaS.Leaf.Transitions
import HyperFaaS.Worker.Sandbox

/-!
A leaf and its workers. The leaf takes the steps of its own module, but what
reaches it from the workers comes from here: the answers of `CreateSandbox` and
`StopSandbox`, snapshots and removal events.

A call that the leaf has sent runs on the worker whether or not the leaf still
waits for it, and the leaf may see it fail at any time. Snapshots and events stay
where they were put, so that they may be delivered late, in any order, again, or
never. A worker that restarts has lost its map, its revision and its calls.
-/

namespace HyperFaaS.Cluster

open Autoscaling
open Leaf (InstanceState StopReply Fault)
open Worker (Sandbox SandboxRemoval)

/-- Where a `CreateSandbox` call stands on the worker. -/
inductive CreatePC
  | idle
  /-- on its way, or in `runtime.Start` -/
  | sent
  /-- entered, in the select -/
  | waiting
  /-- entered and ready, in `pingTCP` -/
  | pinging
  | answered (ok : Bool)
  /-- the worker process is gone -/
  | lost
  deriving DecidableEq, Repr

/-- `state` is set once the sandbox has been entered in the map. -/
structure CreateCall where
  pc : CreatePC
  state : Option InstanceState
  deriving DecidableEq, Repr

/-- What becomes of a call when its worker restarts. -/
def CreateCall.lose (x : CreateCall) : CreateCall :=
  match x.pc with
  | .waiting | .pinging => { x with pc := .lost }
  | _ => x

inductive StopCall
  | idle
  /-- on its way, or in `runtime.Stop` -/
  | sent
  | answered (reply : StopReply)
  deriving DecidableEq, Repr

/-- A `WorkerState` as `setWorkerState` reads it. -/
structure Snapshot where
  worker : Nat
  presence : WorkerPresence
  deriving DecidableEq, Repr

structure Event where
  worker : Nat
  removal : SandboxRemoval
  deriving DecidableEq, Repr

/-- `create` is indexed by the starts of the leaf, `stop` by its stops. -/
structure World where
  leaf : Leaf.World
  worker : Nat → Sandbox
  create : Nat → CreateCall
  stop : Nat → StopCall
  snapshots : List Snapshot
  events : List Event

inductive Action
  | leaf (a : Leaf.Action)
  | send (j : Nat)
  | refuse (j : Nat)
  | start (j : Nat) (address : String) (ready : Bool)
  | ready (j : Nat)
  | ping (j : Nat) (reached : Bool)
  | timeout (j : Nat)
  | cancel (j : Nat)
  | created (j : Nat)
  | createFailed (j : Nat)
  | sendStop (k : Nat)
  | stopped (k : Nat)
  | stopRefused (k : Nat) (notFound : Bool)
  | stopAnswered (k : Nat)
  | stopFailed (k : Nat)
  | exit (idx id : Nat)
  | snapshot (idx : Nat)
  | relist (n f : Nat)
  | event (n : Nat)
  | restart (idx : Nat)

/-- The leaf actions that bring nothing from a worker. -/
def own : Leaf.Action → Bool
  | .created _ _ | .createFailed _ | .stopReply _ _ | .reconcile _ _ _
  | .sandboxRemoved _ _ _ _ => false
  | _ => true

namespace World

def setWorker (s : World) (idx : Nat) (x : Sandbox) : World :=
  { s with worker := Function.update s.worker idx x }

def setCreate (s : World) (j : Nat) (x : CreateCall) : World :=
  { s with create := Function.update s.create j x }

def goCreate (s : World) (j : Nat) (pc : CreatePC) : World :=
  s.setCreate j { s.create j with pc := pc }

def setStop (s : World) (k : Nat) (x : StopCall) : World :=
  { s with stop := Function.update s.stop k x }

def leafStep (s : World) (a : Leaf.Action) : Except Fault World :=
  match s.leaf.step a with
  | .ok w => .ok { s with leaf := w }
  | .error e => .error e

/-! ## `CreateSandbox` -/

def send (s : World) (j : Nat) : Except Fault World :=
  if (s.leaf.job j).pc = .planned ∧ (s.create j).pc = .idle then
    .ok (s.setCreate j ⟨.sent, none⟩)
  else .error .disabled

/-- `runtime.Start` fails, or the request has no instance id. -/
def refuse (s : World) (j : Nat) : Except Fault World :=
  if (s.create j).pc = .sent then .ok (s.goCreate j (.answered false)) else .error .disabled

/-- What `runtime.Start` makes of a request. -/
def runtimeStart (job : Leaf.Job) (address : String) : InstanceState where
  instanceId := job.instanceID
  functionId := job.function
  workerId := job.worker + 1
  address := address
  protocol := job.spec.protocol
  maxConcurrency := 0
  availableConcurrency := 0
  workerStateRevision := 0

/-- `runtime.Start` returns and the sandbox is entered. -/
def start (s : World) (j : Nat) (address : String) (ready : Bool) : Except Fault World :=
  let job := s.leaf.job j
  if (s.create j).pc = .sent ∧ job.instanceID ≠ 0 then
    let (x, state) := (s.worker job.worker).enter job.instanceID (runtimeStart job address)
    .ok ((s.setWorker job.worker x).setCreate j
      ⟨if ready then .pinging else .waiting, some state⟩)
  else .error .disabled

def ready (s : World) (j : Nat) : Except Fault World :=
  if (s.create j).pc = .waiting then .ok (s.goCreate j .pinging) else .error .disabled

/-- The sandbox of a start is given up. -/
def giveUp (s : World) (j : Nat) : World :=
  let job := s.leaf.job j
  (s.setWorker job.worker ((s.worker job.worker).removeInstance job.instanceID)).goCreate j
    (.answered false)

/-- No address without a port can be reached. -/
def ping (s : World) (j : Nat) (reached : Bool) : Except Fault World :=
  if (s.create j).pc = .pinging then
    if reached then
      if (s.create j).state.all (fun state => state.address != "") then
        .ok (s.goCreate j (.answered true))
      else .error .disabled
    else .ok (s.giveUp j)
  else .error .disabled

/-- The sandbox did not become ready in time. -/
def timeout (s : World) (j : Nat) : Except Fault World :=
  if (s.create j).pc = .waiting then .ok (s.giveUp j) else .error .disabled

/-- The context of the call is done: the sandbox stays in the map. -/
def cancel (s : World) (j : Nat) : Except Fault World :=
  if (s.create j).pc = .waiting then .ok (s.goCreate j (.answered false)) else .error .disabled

/-- The answer reaches the leaf. -/
def created (s : World) (j : Nat) : Except Fault World :=
  match s.create j with
  | ⟨.answered true, some state⟩ => s.leafStep (.created j state)
  | _ => .error .disabled

/-! ## `StopSandbox` -/

def sendStop (s : World) (k : Nat) : Except Fault World :=
  match (s.leaf.stop k).pc, s.stop k with
  | .calling _, .idle => .ok (s.setStop k .sent)
  | _, _ => .error .disabled

/-- `runtime.Stop` succeeds and the instance is removed. -/
def stopped (s : World) (k : Nat) : Except Fault World :=
  let item := (s.leaf.stop k).item
  if s.stop k = .sent then
    .ok ((s.setWorker item.workerIdx ((s.worker item.workerIdx).removeInstance item.instanceID)).setStop
      k (.answered .ok))
  else .error .disabled

/-- `runtime.Stop` fails: the map is not touched. -/
def stopRefused (s : World) (k : Nat) (notFound : Bool) : Except Fault World :=
  if s.stop k = .sent then
    .ok (s.setStop k (.answered (if notFound then .notFound else .failed)))
  else .error .disabled

def stopAnswered (s : World) (k : Nat) : Except Fault World :=
  match s.stop k with
  | .answered reply => s.leafStep (.stopReply k reply)
  | _ => .error .disabled

/-! ## Snapshots and events -/

/-- A sandbox exits by itself; `watchLifecycle` removes it. -/
def exit (s : World) (idx id : Nat) : Except Fault World :=
  let (x, e) := (s.worker idx).removeInstanceAndNotify id
  .ok { s.setWorker idx x with events := s.events ++ (e.map (Event.mk idx)).toList }

/-- `currentState` on the worker, and `NewWorkerPresence` on the leaf. -/
def capture (idx : Nat) (x : Sandbox) : Snapshot :=
  let (instances, revision) := x.sandboxStateSnapshot
  ⟨idx, revision, instances.map (·.instanceId)⟩

def snapshot (s : World) (idx : Nat) : World :=
  { s with snapshots := s.snapshots ++ [capture idx (s.worker idx)] }

/-- `setWorkerState` has got to the actuator of `f`. -/
def relist (s : World) (n f : Nat) : Except Fault World :=
  match s.snapshots[n]? with
  | some x => s.leafStep (.reconcile f x.worker x.presence)
  | none => .error .disabled

/-- `handleSandboxRemoved` -/
def event (s : World) (n : Nat) : Except Fault World :=
  match s.events[n]? with
  | some e =>
      s.leafStep (.sandboxRemoved e.removal.functionID e.worker e.removal.instanceID
        e.removal.revision)
  | none => .error .disabled

def restart (s : World) (idx : Nat) : World :=
  { s.setWorker idx .newSandbox with
    create := fun j =>
      if (s.leaf.job j).worker = idx then (s.create j).lose else s.create j }

def step (s : World) : Action → Except Fault World
  | .leaf a => if own a then s.leafStep a else .error .disabled
  | .send j => s.send j
  | .refuse j => s.refuse j
  | .start j address ready => s.start j address ready
  | .ready j => s.ready j
  | .ping j reached => s.ping j reached
  | .timeout j => s.timeout j
  | .cancel j => s.cancel j
  | .created j => s.created j
  | .createFailed j => s.leafStep (.createFailed j)
  | .sendStop k => s.sendStop k
  | .stopped k => s.stopped k
  | .stopRefused k notFound => s.stopRefused k notFound
  | .stopAnswered k => s.stopAnswered k
  | .stopFailed k => s.leafStep (.stopReply k .failed)
  | .exit idx id => s.exit idx id
  | .snapshot idx => .ok (s.snapshot idx)
  | .relist n f => s.relist n f
  | .event n => s.event n
  | .restart idx => .ok (s.restart idx)

def init (c : Leaf.World.Config) : World where
  leaf := .init c
  worker := fun _ => .newSandbox
  create := fun _ => ⟨.idle, none⟩
  stop := fun _ => .idle
  snapshots := []
  events := []

end World

def machine : Lib.Machine World Action Fault where
  start := fun s => ∃ c, s = World.init c
  step := World.step

end HyperFaaS.Cluster

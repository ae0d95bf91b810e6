import HyperFaaS.Lib.Ledger
import HyperFaaS.Lib.Machine

/-!
Network namespaces of the containerd runtime with a pool
(`pkg/worker/runtime/containerd/containerd.go`). A start takes a namespace from the pool or
makes one, creates a container and a task in it, and enters both into the table of containers.
`Stop` and the lifecycle watch take the entry out; who takes it tears it down, in the call or
in the background: the namespace goes back to the pool if task and container are deleted, else
it is destroyed. A full pool destroys what is given back.

Every operation may fail. A task is there until it is deleted. Namespaces, tasks and
acquisitions are numbered in their order; a namespace is made under a name, that of its start
or one of the pool. `acquired`, `given` and `inUse` are not in the code: they record the
acquisitions, how often each was given back, and how many are open.

The lookup that `Stop` and the watch begin with is part of their beginning. Ports are in
`Worker.HostPorts`; images, rules and container records are not modelled.
-/

namespace HyperFaaS.Worker.Netns

open Function

inductive Fault
  | disabled
  deriving DecidableEq, Repr

/-- A namespace and the number of its acquisition. -/
structure Lease where
  netns : Nat
  account : Nat
  deriving DecidableEq, Repr

/-- `ContainerMetadata`, with its acquisition for the identity of the record. -/
structure Meta where
  netns : Nat
  account : Nat
  task : Nat
  deriving DecidableEq, Repr

/-- The places of `Start`, of `Stop` and the lifecycle watch with the teardown, of the
population and of a refill. -/
inductive PC
  | idle
  | waitForAsyncTeardown (id : Nat)
  | borrowHostPort (id : Nat)
  | takeNetns (id : Nat)
  | createNetns (id : Nat)
  | newContainer (id : Nat) (l : Lease)
  | newTask (id : Nat) (l : Lease)
  | startTask (id : Nat) (l : Lease) (task : Nat)
  | register (id : Nat) (l : Lease) (task : Nat)
  | returnNetns (l : Lease)
  | returnFailed (l : Lease) (task : Nat)
  | deleteFailed (task : Nat)
  | stop (m : Meta)
  | wait (id : Nat) (m : Meta)
  | reclaim (id : Nat) (m : Meta)
  | deleteTask (m : Meta) (async : Bool)
  | deleteContainer (m : Meta) (async deleted : Bool)
  | finish (m : Meta) (async deleted removed : Bool)
  | endAsyncTeardown
  | populate (k : Nat)
  | populated (k n : Nat)
  | replenish
  | refill
  | refilled (n : Nat)
  | done
  deriving DecidableEq, Repr

def PC.afterTeardown (async : Bool) : PC := if async then .endAsyncTeardown else .done

/-- `running` has the namespace of each task that is there. -/
structure World where
  poolSize : Nat
  asyncTeardown : Bool
  pool : List Nat
  made : Nat
  name : Nat → Nat
  destroyed : List Nat
  poolIDCounter : Nat
  replenishing : Bool
  containers : Nat → Option Meta
  activeTeardowns : Nat
  ntasks : Nat
  running : Nat → Option Nat
  acquired : List Nat
  given : Nat → Nat
  inUse : Int
  ncalls : Nat
  pc : Nat → PC

inductive Outcome
  | ok
  | error
  | cancelled
  deriving DecidableEq, Repr

inductive Action
  | start (id : Nat)
  | stop (id : Nat)
  | watchLifecycle (id : Nat)
  | replenish
  | step (i : Nat) (o : Outcome)
  deriving DecidableEq, Repr

def poolIDBase : Nat := 800000

namespace World

def go (w : World) (i : Nat) (x : PC) : World := { w with pc := update w.pc i x }

def enter (w : World) (x : PC) : World := { w.go w.ncalls x with ncalls := w.ncalls + 1 }

def room (w : World) : Bool := decide (w.pool.length < w.poolSize)

def createCNINamespace (w : World) (id : Nat) : World :=
  { w with made := w.made + 1, name := update w.name w.made id }

def destroyCNINamespace (w : World) (n : Nat) : World := { w with destroyed := w.destroyed ++ [n] }

def push (w : World) (n : Nat) : World := { w with pool := w.pool ++ [n] }

def lease (w : World) (n : Nat) : World :=
  { w with acquired := w.acquired ++ [n], inUse := w.inUse + 1 }

def giveBack (w : World) (k : Nat) : World :=
  { w with given := update w.given k (w.given k + 1), inUse := w.inUse - 1 }

/-- `returnNetnsToPool`, and where the call goes then. -/
def returnNetnsToPool (w : World) (i n k : Nat) (x : PC) : World :=
  if w.room then ((w.giveBack k).push n).go i x
  else ((w.giveBack k).destroyCNINamespace n).go i x

def createTask (w : World) (n : Nat) : World :=
  { w with running := update w.running w.ntasks (some n), ntasks := w.ntasks + 1 }

def removeTask (w : World) (task : Nat) : World :=
  { w with running := update w.running task none }

def setContainer (w : World) (id : Nat) (m : Option Meta) : World :=
  { w with containers := update w.containers id m }

def beginAsyncTeardown (w : World) : World := { w with activeTeardowns := w.activeTeardowns + 1 }

def unlock (w : World) (i : Nat) : World := { w with replenishing := false }.go i .done

/-! ## Steps -/

/-- The pool is read, and a namespace is made if it is empty. -/
def takeNetns (w : World) (i id : Nat) : World :=
  match w.pool with
  | n :: rest =>
      ({ w with pool := rest }.lease n).go i (.newContainer id ⟨n, w.acquired.length⟩)
  | [] => w.go i (.createNetns id)

/-- The watch takes the entry of the id out, and tears it down if it is its own. -/
def reclaim (w : World) (i id : Nat) (m : Meta) : World :=
  match w.containers id with
  | none => w.go i .done
  | some m' =>
      if m' = m then ((w.setContainer id none).beginAsyncTeardown).go i (.deleteTask m true)
      else (w.setContainer id none).go i .done

/-- The end of `teardownSandbox`. -/
def finish (w : World) (i : Nat) (m : Meta) (async clean : Bool) : World :=
  if clean then w.returnNetnsToPool i m.netns m.account (.afterTeardown async)
  else ((w.giveBack m.account).destroyCNINamespace m.netns).go i (.afterTeardown async)

def advance (w : World) (i : Nat) (o : Outcome) : Except Fault World :=
  match w.pc i with
  | .waitForAsyncTeardown id =>
      match o with
      | .ok =>
          if w.asyncTeardown && decide (0 < w.activeTeardowns) then .error .disabled
          else .ok (w.go i (.borrowHostPort id))
      | _ => .ok (w.go i .done)
  | .borrowHostPort id =>
      match o with
      | .ok => .ok (w.go i (.takeNetns id))
      | .error => .ok (w.go i .done)
      | .cancelled => .error .disabled
  | .takeNetns id => .ok (w.takeNetns i id)
  | .createNetns id =>
      match o with
      | .ok =>
          .ok (((w.createCNINamespace id).lease w.made).go i
            (.newContainer id ⟨w.made, w.acquired.length⟩))
      | .error => .ok (w.go i .done)
      | .cancelled => .error .disabled
  | .newContainer id l =>
      match o with
      | .ok => .ok (w.go i (.newTask id l))
      | .error => .ok (w.go i (.returnNetns l))
      | .cancelled => .error .disabled
  | .newTask id l =>
      match o with
      | .ok => .ok ((w.createTask l.netns).go i (.startTask id l w.ntasks))
      | .error => .ok (w.go i (.returnNetns l))
      | .cancelled => .error .disabled
  | .startTask id l task =>
      match o with
      | .ok => .ok (w.go i (.register id l task))
      | .error => .ok (w.go i (.returnFailed l task))
      | .cancelled => .error .disabled
  | .register id l task =>
      .ok ((w.setContainer id (some ⟨l.netns, l.account, task⟩)).go i .done)
  | .returnNetns l => .ok (w.returnNetnsToPool i l.netns l.account .done)
  | .returnFailed l task => .ok (w.returnNetnsToPool i l.netns l.account (.deleteFailed task))
  | .deleteFailed task =>
      match o with
      | .ok => .ok ((w.removeTask task).go i .done)
      | .error => .ok (w.go i .done)
      | .cancelled => .error .disabled
  | .stop m =>
      if w.asyncTeardown then .ok (w.beginAsyncTeardown.go i (.deleteTask m true))
      else .ok (w.go i (.deleteTask m false))
  | .wait id m =>
      match o with
      | .ok => .ok (w.go i (.reclaim id m))
      | _ => .ok (w.go i .done)
  | .reclaim id m => .ok (w.reclaim i id m)
  | .deleteTask m async =>
      match o with
      | .ok => .ok ((w.removeTask m.task).go i (.deleteContainer m async true))
      | .error => .ok (w.go i (.deleteContainer m async false))
      | .cancelled => .error .disabled
  | .deleteContainer m async deleted =>
      match o with
      | .ok => .ok (w.go i (.finish m async deleted true))
      | .error => .ok (w.go i (.finish m async deleted false))
      | .cancelled => .error .disabled
  | .finish m async deleted removed => .ok (w.finish i m async (deleted && removed))
  | .endAsyncTeardown => .ok ({ w with activeTeardowns := w.activeTeardowns - 1 }.go i .done)
  | .populate k =>
      if k < w.poolSize then
        match o with
        | .ok => .ok ((w.createCNINamespace (poolIDBase + k)).go i (.populated k w.made))
        | .error => .ok (w.go i (.populate (k + 1)))
        | .cancelled => .error .disabled
      else .ok (w.go i .done)
  | .populated k n =>
      -- the send waits for a place
      if w.room then .ok ((w.push n).go i (.populate (k + 1))) else .error .disabled
  | .replenish =>
      if w.replenishing then .ok (w.go i .done)
      else .ok ({ w with replenishing := true }.go i .refill)
  | .refill =>
      if w.room then
        let id := w.poolIDCounter + 1
        let counted := { w with poolIDCounter := id }
        match o with
        | .ok => .ok ((counted.createCNINamespace (poolIDBase + id)).go i (.refilled w.made))
        | .error => .ok (counted.unlock i)
        | .cancelled => .error .disabled
      else .ok (w.unlock i)
  | .refilled n =>
      if w.room then .ok ((w.push n).go i .refill)
      else .ok ((w.destroyCNINamespace n).unlock i)
  | .idle | .done => .error .disabled

def step (w : World) : Action → Except Fault World
  | .start id => .ok (w.enter (.waitForAsyncTeardown id))
  | .stop id =>
      match w.containers id with
      | some m => .ok ((w.setContainer id none).enter (.stop m))
      | none => .ok (w.enter .done)
  | .watchLifecycle id =>
      match w.containers id with
      | some m => .ok (w.enter (.wait id m))
      | none => .ok (w.enter .done)
  | .replenish => .ok (w.enter .replenish)
  | .step i o => w.advance i o

/-- Call 0 is `populateCNIPool`. -/
def init (poolSize : Nat) (asyncTeardown : Bool) : World where
  poolSize := poolSize
  asyncTeardown := asyncTeardown
  pool := []
  made := 0
  name := fun _ => 0
  destroyed := []
  poolIDCounter := poolSize - 1
  replenishing := false
  containers := fun _ => none
  activeTeardowns := 0
  ntasks := 0
  running := fun _ => none
  acquired := []
  given := fun _ => 0
  inUse := 0
  ncalls := 1
  pc := update (fun _ => .idle) 0 (.populate 0)

end World

def machine : Lib.Machine World Action Fault where
  start := fun w => ∃ poolSize asyncTeardown, 0 < poolSize ∧ w = World.init poolSize asyncTeardown
  step := World.step

/-! ## Who has a namespace -/

inductive Place
  | call (i : Nat)
  | entry (id : Nat)
  deriving DecidableEq, Repr

def Meta.hand (m : Meta) (deleted : Bool) : Lib.Hand :=
  ⟨m.netns, some m.account, if deleted then none else some m.task⟩

def PC.hand : PC → Option Lib.Hand
  | .populated _ n | .refilled n => some ⟨n, none, none⟩
  | .newContainer _ l | .newTask _ l | .returnNetns l => some ⟨l.netns, some l.account, none⟩
  | .startTask _ l task | .register _ l task | .returnFailed l task =>
      some ⟨l.netns, some l.account, some task⟩
  | .stop m | .deleteTask m _ => some (m.hand false)
  | .deleteContainer m _ deleted | .finish m _ deleted _ => some (m.hand deleted)
  | _ => none

namespace World

def hand (w : World) : Place → Option Lib.Hand
  | .call i => (w.pc i).hand
  | .entry id => (w.containers id).map fun m => m.hand false

def ledger (w : World) : Lib.Ledger Place where
  pool := w.pool
  made := w.made
  gone := w.destroyed
  hand := w.hand
  started := w.ntasks
  running := w.running
  taken := w.acquired
  given := w.given
  inUse := w.inUse

/-- No namespace that is there has the name. -/
def nameFree (w : World) (id : Nat) : Bool := Lib.nameFree w.made w.name w.destroyed id

/-- A task that is created starts. A start enters an id that the table does not have, and a
watch finds its own entry or none. A name is free when a namespace is made under it. -/
def orderly (w : World) : Action → Bool
  | .step i o =>
      match w.pc i with
      | .startTask _ _ _ => decide (o ≠ .error)
      | .register id _ _ => (w.containers id).isNone
      | .reclaim id m => (w.containers id).all fun m' => decide (m' = m)
      | .createNetns id => w.nameFree id
      | .populate k => w.nameFree (poolIDBase + k)
      | .refill => w.nameFree (poolIDBase + (w.poolIDCounter + 1))
      | _ => true
  | _ => true

end World

end HyperFaaS.Worker.Netns

import HyperFaaS.Lib.Ledger
import HyperFaaS.Lib.Machine

/-!
Network namespaces of the runc runtime with network isolation
(`pkg/worker/runtime/runc/runtime.go`), together with the sandbox map of the worker
(`pkg/worker/sandbox.go`). A start takes a namespace from the pool or makes one, enters it into
`active` under its id, and runs a container of that id in it; the worker then enters the id into
its map and watches the process. `Stop` kills the container, tries to delete it, takes the entry
of `active` and gives the namespace back: to the pool if its name is one of the pool and there is
room, else it is deleted. The worker removes the id from its map after a stop, and when the watch
sees the end of the process.

Every operation may fail. A container is there until runc deletes it, also when its process has
ended. Namespaces, containers and acquisitions are numbered in their order. `acquired`, `given`
and `inUse` are not in the code: they record the acquisitions, how often each was given back, and
how many are open.

Proxies, bundles and the readiness of a sandbox are not modelled; a call of `CreateSandbox` that
has recorded its sandbox ends, or stops it first.
-/

namespace HyperFaaS.Worker.Runc

open Function

inductive Fault
  | disabled
  deriving DecidableEq, Repr

/-- A namespace and the number of its acquisition. -/
structure Lease where
  netns : Nat
  account : Nat
  deriving DecidableEq, Repr

/-- The places of `CreateSandbox` with `Start`, of `StopSandbox` with `Stop`, of the lifecycle
watch and of the population. -/
inductive PC
  | idle
  | prepare (id : Nat)
  | acquire (id : Nat)
  | createNamespace (id : Nat)
  | startPortProxy (id : Nat) (l : Lease)
  | activate (id : Nat) (l : Lease)
  | configure (id : Nat) (l : Lease)
  | run (id : Nat) (l : Lease)
  | cleanupStartFailure (id : Nat) (l : Lease)
  | record (id : Nat)
  | created (id : Nat)
  | kill (id : Nat)
  | delete (id tries : Nat)
  | take (id : Nat)
  | giveBack (l : Lease) (removes : Option Nat)
  | removeInstance (id : Nat)
  | watchLifecycle (id : Nat)
  | removeInstanceAndNotify (id : Nat)
  | populate (k : Nat)
  | populated (k n : Nat)
  | done
  deriving DecidableEq, Repr

def PC.afterGiveBack : Option Nat → PC
  | some id => .removeInstance id
  | none => .done

/-- `containers` are those of runc, by their ids, and `running` has the namespace of each. -/
structure World where
  usePool : Bool
  poolSize : Nat
  pool : List Nat
  made : Nat
  name : Nat → Nat
  deleted : List Nat
  active : Nat → Option Lease
  instances : Nat → Bool
  ncontainers : Nat
  containers : Nat → Option Nat
  running : Nat → Option Nat
  acquired : List Nat
  given : Nat → Nat
  inUse : Int
  ncalls : Nat
  pc : Nat → PC

/-- How an operation ends: `half` is an error of `createNamespace` when the namespace is
there. -/
inductive Outcome
  | ok
  | error
  | half
  deriving DecidableEq, Repr

inductive Action
  | createSandbox (id : Nat)
  | stopSandbox (id : Nat)
  | step (i : Nat) (o : Outcome)
  deriving DecidableEq, Repr

/-- Names from here on are those of the pool. -/
def poolIDBase : Nat := 500000

/-- How often `Stop` tries to delete a container. -/
def deleteTries : Nat := 50

namespace World

def go (w : World) (i : Nat) (x : PC) : World := { w with pc := update w.pc i x }

def enter (w : World) (x : PC) : World := { w.go w.ncalls x with ncalls := w.ncalls + 1 }

def room (w : World) : Bool := w.usePool && decide (w.pool.length < w.poolSize)

def makeNamespace (w : World) (id : Nat) : World :=
  { w with made := w.made + 1, name := update w.name w.made id }

def deleteNamespace (w : World) (n : Nat) : World := { w with deleted := w.deleted ++ [n] }

def push (w : World) (n : Nat) : World := { w with pool := w.pool ++ [n] }

def lease (w : World) (n : Nat) : World :=
  { w with acquired := w.acquired ++ [n], inUse := w.inUse + 1 }

def close (w : World) (k : Nat) : World :=
  { w with given := update w.given k (w.given k + 1), inUse := w.inUse - 1 }

def setActive (w : World) (id : Nat) (l : Option Lease) : World :=
  { w with active := update w.active id l }

def setInstance (w : World) (id : Nat) (b : Bool) : World :=
  { w with instances := update w.instances id b }

/-- `runc run` has succeeded. -/
def addContainer (w : World) (id n : Nat) : World :=
  { w with
    containers := update w.containers id (some w.ncontainers)
    running := update w.running w.ncontainers (some n)
    ncontainers := w.ncontainers + 1 }

/-- `runc delete` has succeeded. -/
def removeContainer (w : World) (id v : Nat) : World :=
  { w with
    containers := update w.containers id none
    running := update w.running v none }

/-! ## Steps -/

/-- A namespace of the pool, or one is made. -/
def acquire (w : World) (i id : Nat) : World :=
  match w.usePool, w.pool with
  | true, n :: rest =>
      ({ w with pool := rest }.lease n).go i (.startPortProxy id ⟨n, w.acquired.length⟩)
  | _, _ => w.go i (.createNamespace id)

def createNamespace (w : World) (i id : Nat) : Outcome → World
  | .ok => ((w.makeNamespace id).lease w.made).go i (.startPortProxy id ⟨w.made, w.acquired.length⟩)
  | .error => w.go i .done
  | .half => (w.makeNamespace id).go i .done

/-- The pool takes what has one of its names. -/
def giveBack (w : World) (i : Nat) (l : Lease) (x : PC) : World :=
  if decide (poolIDBase ≤ w.name l.netns) && w.room then
    ((w.close l.account).push l.netns).go i x
  else ((w.close l.account).deleteNamespace l.netns).go i x

/-- `Stop` takes the entry. -/
def take (w : World) (i id : Nat) : World :=
  match w.active id with
  | some l => (w.setActive id none).go i (.giveBack l (some id))
  | none => w.go i (.removeInstance id)

def delete (w : World) (i id tries : Nat) : Outcome → Except Fault World
  | .ok =>
      match w.containers id with
      | some v => .ok ((w.removeContainer id v).go i (.take id))
      | none => .error .disabled
  | .error =>
      .ok (w.go i (if tries + 1 < deleteTries then .delete id (tries + 1) else .take id))
  | .half => .error .disabled

def advance (w : World) (i : Nat) (o : Outcome) : Except Fault World :=
  match w.pc i with
  | .prepare id => .ok (w.go i (if o = .ok then .acquire id else .done))
  | .acquire id => .ok (w.acquire i id)
  | .createNamespace id => .ok (w.createNamespace i id o)
  | .startPortProxy id l => .ok (w.go i (if o = .ok then .activate id l else .giveBack l none))
  | .activate id l => .ok ((w.setActive id (some l)).go i (.configure id l))
  | .configure id l =>
      .ok (w.go i (if o = .ok then .run id l else .cleanupStartFailure id l))
  | .run id l =>
      if o = .ok then
        -- runc refuses the id of a container that is there
        if (w.containers id).isNone then .ok ((w.addContainer id l.netns).go i (.record id))
        else .error .disabled
      else .ok (w.go i (.cleanupStartFailure id l))
  | .cleanupStartFailure id l => .ok ((w.setActive id none).go i (.giveBack l none))
  | .record id => .ok (((w.setInstance id true).go i (.created id)).enter (.watchLifecycle id))
  | .created id => .ok (w.go i (if o = .ok then .done else .kill id))
  | .kill id => .ok (w.go i (.delete id 0))
  | .delete id tries => w.delete i id tries o
  | .take id => .ok (w.take i id)
  | .giveBack l removes => .ok (w.giveBack i l (.afterGiveBack removes))
  | .removeInstance id => .ok ((w.setInstance id false).go i .done)
  | .watchLifecycle id => .ok (w.go i (if o = .ok then .removeInstanceAndNotify id else .done))
  | .removeInstanceAndNotify id => .ok ((w.setInstance id false).go i .done)
  | .populate k =>
      if k < w.poolSize then
        match o with
        | .ok => .ok ((w.makeNamespace (poolIDBase + k)).go i (.populated k w.made))
        | .error => .ok (w.go i (.populate (k + 1)))
        | .half => .ok ((w.makeNamespace (poolIDBase + k)).go i (.populate (k + 1)))
      else .ok (w.go i .done)
  | .populated k n =>
      -- the send waits for a place
      if w.room then .ok ((w.push n).go i (.populate (k + 1))) else .error .disabled
  | .idle | .done => .error .disabled

def step (w : World) : Action → Except Fault World
  | .createSandbox id => .ok (w.enter (.prepare id))
  | .stopSandbox id => .ok (w.enter (.kill id))
  | .step i o => w.advance i o

/-- Call 0 is `populatePool`. -/
def init (usePool : Bool) (poolSize : Nat) : World where
  usePool := usePool
  poolSize := poolSize
  pool := []
  made := 0
  name := fun _ => 0
  deleted := []
  active := fun _ => none
  instances := fun _ => false
  ncontainers := 0
  containers := fun _ => none
  running := fun _ => none
  acquired := []
  given := fun _ => 0
  inUse := 0
  ncalls := 1
  pc := update (fun _ => .idle) 0 (if usePool then .populate 0 else .done)

end World

def machine : Lib.Machine World Action Fault where
  start := fun w => ∃ usePool poolSize, (usePool = true → 0 < poolSize) ∧
    w = World.init usePool poolSize
  step := World.step

/-! ## Who has a namespace -/

inductive Place
  | call (i : Nat)
  | entry (id : Nat)
  deriving DecidableEq, Repr

def PC.hand : PC → Option Lib.Hand
  | .populated _ n => some ⟨n, none, none⟩
  | .startPortProxy _ l | .activate _ l | .giveBack l _ => some ⟨l.netns, some l.account, none⟩
  | _ => none

namespace World

/-- An entry of `active` has the container of its id. -/
def hand (w : World) : Place → Option Lib.Hand
  | .call i => (w.pc i).hand
  | .entry id => (w.active id).map fun l => ⟨l.netns, some l.account, w.containers id⟩

def ledger (w : World) : Lib.Ledger Place where
  pool := w.pool
  made := w.made
  gone := w.deleted
  hand := w.hand
  started := w.ncontainers
  running := w.running
  taken := w.acquired
  given := w.given
  inUse := w.inUse

def nameFree (w : World) (id : Nat) : Bool := Lib.nameFree w.made w.name w.deleted id

end World

/-! ## Calls of an id -/

/-- How far a call is with an id: before and after its entry into `active`, before its record, up;
before the end of its container, before and after it takes the entry; a watch, and one that has
seen the end. -/
inductive Phase
  | other
  | early (id : Nat)
  | late (id : Nat) (l : Lease)
  | recording (id : Nat)
  | up (id : Nat)
  | stopping (id : Nat)
  | taking (id : Nat)
  | removing (id : Nat)
  | watching (id : Nat)
  | forgetting (id : Nat)
  deriving DecidableEq, Repr

def Phase.afterTake : Option Nat → Phase
  | some id => .removing id
  | none => .other

def PC.phase : PC → Phase
  | .prepare id | .acquire id | .createNamespace id | .startPortProxy id _ | .activate id _ =>
      .early id
  | .configure id l | .run id l | .cleanupStartFailure id l => .late id l
  | .record id => .recording id
  | .created id => .up id
  | .kill id | .delete id _ => .stopping id
  | .take id => .taking id
  | .giveBack _ removes => .afterTake removes
  | .removeInstance id => .removing id
  | .watchLifecycle id => .watching id
  | .removeInstanceAndNotify id => .forgetting id
  | _ => .other

@[grind] def Phase.id : Phase → Option Nat
  | .other => none
  | .early id | .late id _ | .recording id | .up id | .stopping id | .taking id | .removing id
  | .watching id | .forgetting id => some id

@[grind] def Phase.starts : Phase → Option Nat
  | .early id | .late id _ | .recording id => some id
  | _ => none

/-- A call that leaves the entry to no other. -/
@[grind] def Phase.keeps : Phase → Option Nat
  | .late id _ | .recording id | .stopping id | .taking id => some id
  | _ => none

/-- A stop that has not taken the entry yet. -/
@[grind] def Phase.stops : Phase → Option Nat
  | .stopping id | .taking id => some id
  | _ => none

/-- Nothing is in progress but watches. -/
def World.quiescent (w : World) : Prop :=
  ∀ j, w.pc j = .idle ∨ w.pc j = .done ∨ ∃ id, w.pc j = .watchLifecycle id

namespace World

/-- A sandbox is created when nothing of its id is left, and stopped when it has been recorded or
is gone. A watch sees the end of a process whose sandbox is being stopped or is gone. `Stop`
gives up only when there is no container. A namespace is made under a free name, and one that is
made is returned. -/
def orderly (w : World) : Action → Bool
  | .createSandbox id =>
      (w.active id).isNone && (w.containers id).isNone && !w.instances id &&
        (List.range w.ncalls).all fun j => (w.pc j).phase.id != some id
  | .stopSandbox id => (List.range w.ncalls).all fun j => (w.pc j).phase.starts != some id
  | .step i o =>
      match w.pc i with
      | .createNamespace id => decide (o ≠ .half) && w.nameFree id
      | .populate k => decide (o ≠ .half) && w.nameFree (poolIDBase + k)
      | .delete id tries =>
          decide (o = .ok) || decide (tries + 1 < deleteTries) || (w.containers id).isNone
      | .watchLifecycle id =>
          decide (o ≠ .ok) || (w.active id).isNone ||
            (List.range w.ncalls).any fun j => (w.pc j).phase.stops == some id
      | _ => true

end World

end HyperFaaS.Worker.Runc

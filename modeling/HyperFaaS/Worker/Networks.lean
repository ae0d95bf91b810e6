import HyperFaaS.Lib.Ledger
import HyperFaaS.Lib.Machine

/-!
Networks of the Firecracker runtime (runtime.go, networking.go and vm.go of
`pkg/worker/runtime/firecracker`). A start acquires a network, boots or restores a machine in
it, and either registers an instance or gives the network back: it releases it, and then it may
come into the pool, or discards it. `Stop` and the lifecycle watch tear an instance down once,
in the call or in the background; a start whose restored machine does not stop leaves its
network to a reaper.

A machine is a process that ends when it wants; a wait for its end may time out first. Every
other operation may fail. Networks, processes and acquisitions are numbered in their order; an
instance is known by the number of its acquisition. `acquired` and `given` are not in the code:
they record the networks acquired, and how often each acquisition has been given back.

The lookup that a call begins with is part of its beginning. The names of networks, the guest
and the files are not modelled; snapshots are in `Worker.Snapshots`.
-/

namespace HyperFaaS.Worker.Networks

open Function

inductive Fault
  | disabled
  deriving DecidableEq, Repr

structure Config where
  usePool : Bool
  poolSize : Nat
  asyncTeardown : Bool
  useSnapshots : Bool
  deriving DecidableEq, Repr

/-- A network and the number of its acquisition. -/
structure Lease where
  network : Nat
  account : Nat
  deriving DecidableEq, Repr

/-- What a call does when it has given a network back. -/
inductive After
  | start (id : Nat)
  | reaper (id : Nat)
  | async
  | sync (k : Nat)
  deriving DecidableEq, Repr

/-- The places of `Start`, of the reaper, of `Stop` and the lifecycle watch with the teardown,
and of a refill. -/
inductive PC
  | idle
  | waitForAsyncTeardown (id : Nat)
  | acquire (id : Nat)
  | validate (id n : Nat)
  | buildNetwork (id : Nat)
  | prepareBootImage (id : Nat) (l : Lease)
  | startMachine (id : Nat) (l : Lease) (snapshot : Bool)
  | drain (id : Nat) (l : Lease) (snapshot : Bool) (vmm : Nat)
  | setMetadata (id : Nat) (l : Lease) (vmm : Nat)
  | cleanupFailedMachine (id : Nat) (l : Lease) (snapshot : Bool) (vmm : Option Nat)
  | startPortProxy (id : Nat) (l : Lease) (vmm : Nat) (restored : Bool)
  | waitForTCP (id : Nat) (l : Lease) (vmm : Nat) (restored : Bool)
  | register (id : Nat) (l : Lease) (vmm : Nat)
  | stopVMMAndWait (id : Nat) (l : Lease) (vmm : Nat)
  | unmark (id : Nat)
  | reap (id : Nat) (l : Lease) (vmm : Nat)
  | unreap (id : Nat)
  | wait (id k : Nat)
  | delete (id k : Nat)
  | runTeardown (k : Nat)
  | shutdownInstance (k : Nat) (async forced : Bool)
  | releaseInstance (k : Nat) (async : Bool)
  | endAsyncTeardown
  | onceDone (k : Nat)
  | release (l : Lease) (after : After)
  | returning (n : Nat) (after : After)
  | discard (l : Lease) (vmm : Nat) (after : After)
  | replenishPool
  | refill
  | refilled (n : Nat)
  | done
  deriving DecidableEq, Repr

def After.pc : After → PC
  | .start id => .unmark id
  | .reaper id => .unreap id
  | .async => .endAsyncTeardown
  | .sync k => .onceDone k

def After.teardown (k : Nat) (async : Bool) : After := if async then .async else .sync k

inductive Once
  | unused
  | running
  | done
  deriving DecidableEq, Repr

/-- `exited` is the variable of `shutdownInstance`, which runs once for an instance;
`discardNetwork` is its negation. `released` is the state of `releaseOnce`. -/
structure Instance where
  instanceID : Nat
  network : Nat
  vmm : Nat
  teardownOnce : Once
  exited : Bool
  released : Bool
  deriving DecidableEq, Repr

/-- `insts` are the instances that were made, `instances` is the table by id. -/
structure World where
  cfg : Config
  pool : List Nat
  built : Nat
  destroyed : List Nat
  inUse : Int
  replenishing : Bool
  starting : Nat → Bool
  reaping : Nat → Bool
  instances : Nat → Option Nat
  insts : Nat → Option Instance
  activeTeardowns : Nat
  nvmms : Nat
  running : Nat → Option Nat
  acquired : List Nat
  given : Nat → Nat
  ncalls : Nat
  pc : Nat → PC

/-- How an operation ends: `found` is a snapshot, `spawned` a start of a machine that fails
when its process is there. -/
inductive Outcome
  | ok
  | error
  | timeout
  | found
  | spawned
  deriving DecidableEq, Repr

inductive Action
  | start (id : Nat)
  | stop (id : Nat)
  | watchLifecycle (id : Nat)
  | replenish
  | step (i : Nat) (o : Outcome)
  | exit (vmm : Nat)
  deriving DecidableEq, Repr

def Config.hasPool (cfg : Config) : Bool := cfg.usePool && decide (0 < cfg.poolSize)

def Config.refillThreshold (cfg : Config) : Nat := max 1 (cfg.poolSize / 4)

namespace World

def go (w : World) (i : Nat) (x : PC) : World := { w with pc := update w.pc i x }

def enter (w : World) (x : PC) : World := { w.go w.ncalls x with ncalls := w.ncalls + 1 }

def exited (w : World) (vmm : Nat) : Bool := (w.running vmm).isNone

def mark (w : World) (id : Nat) (b : Bool) : World :=
  { w with starting := update w.starting id b }

def markReaping (w : World) (id : Nat) (b : Bool) : World :=
  { w with reaping := update w.reaping id b }

def setInstance (w : World) (k : Nat) (inst : Instance) : World :=
  { w with insts := update w.insts k (some inst) }

/-! ## Networks -/

def build (w : World) : World := { w with built := w.built + 1 }

def destroyNetwork (w : World) (n : Nat) : World := { w with destroyed := w.destroyed ++ [n] }

def push (w : World) (n : Nat) : World := { w with pool := w.pool ++ [n] }

def room (w : World) : Bool := w.cfg.hasPool && decide (w.pool.length < w.cfg.poolSize)

/-- The end of `acquire`. -/
def lease (w : World) (n : Nat) : World :=
  { w with acquired := w.acquired ++ [n], inUse := w.inUse + 1 }

/-- The beginning of `release` and `discard`. -/
def giveBack (w : World) (k : Nat) : World :=
  { w with given := update w.given k (w.given k + 1), inUse := w.inUse - 1 }

def spawn (w : World) (n : Nat) : World :=
  { w with running := update w.running w.nvmms (some n), nvmms := w.nvmms + 1 }

def unlock (w : World) (i : Nat) : World := { w with replenishing := false }.go i .done

/-! ## Start -/

/-- The checks of `Start`. -/
def start (w : World) (id : Nat) : World :=
  if (w.instances id).isSome || w.starting id || w.reaping id then w.enter .done
  else (w.mark id true).enter (.waitForAsyncTeardown id)

/-- The pool is read if there is one. -/
def take (w : World) (i id : Nat) : World :=
  match w.cfg.hasPool, w.pool with
  | true, n :: rest => { w with pool := rest }.go i (.validate id n)
  | _, _ => w.go i (.buildNetwork id)

/-- `startMachine` of vm.go; a machine that failed is not returned. -/
def startMachine (w : World) (i id : Nat) (l : Lease) (snapshot : Bool) :
    Outcome → Except Fault World
  | .ok => .ok ((w.spawn l.network).go i
      (if snapshot then .setMetadata id l w.nvmms else .startPortProxy id l w.nvmms false))
  | .error => .ok (w.go i (.cleanupFailedMachine id l snapshot none))
  | .spawned => .ok ((w.spawn l.network).go i (.drain id l snapshot w.nvmms))
  | _ => .error .disabled

/-- `cleanupFailedMachine`, and what `Start` does with its answer. An error is that of the
socket. -/
def cleanupFailedMachine (w : World) (i id : Nat) (l : Lease) (snapshot : Bool)
    (vmm : Option Nat) : Outcome → Except Fault World
  | .ok =>
      if vmm.all w.exited then
        .ok (w.go i (if snapshot then .startMachine id l false else .release l (.start id)))
      else .error .disabled
  | .error =>
      if vmm.all w.exited then .ok (w.go i (.release l (.start id))) else .error .disabled
  | .timeout =>
      match vmm with
      | none => .error .disabled
      | some v =>
          if snapshot then
            .ok ((((w.mark id false).markReaping id true).go i (.unmark id)).enter (.reap id l v))
          else .ok (w.go i (.discard l v (.start id)))
  | _ => .error .disabled

def register (w : World) (i id : Nat) (l : Lease) (vmm : Nat) : World :=
  { (w.mark id false).setInstance l.account ⟨id, l.network, vmm, .unused, false, false⟩ with
    instances := update w.instances id (some l.account) }.go i (.unmark id)

/-! ## Teardown -/

/-- Those who come later wait for the first. -/
def runTeardown (w : World) (i k : Nat) (inst : Instance) : Except Fault World :=
  match inst.teardownOnce with
  | .unused =>
      if w.cfg.asyncTeardown then
        .ok (({ w.setInstance k { inst with teardownOnce := .done } with
          activeTeardowns := w.activeTeardowns + 1 }.go i .done).enter
            (.shutdownInstance k true false))
      else
        .ok ((w.setInstance k { inst with teardownOnce := .running }).go i
          (.shutdownInstance k false false))
  | .running => .error .disabled
  | .done => .ok (w.go i .done)

def shutdownInstance (w : World) (i k : Nat) (async forced : Bool) (inst : Instance) :
    Outcome → Except Fault World
  | .ok =>
      if w.exited inst.vmm then
        .ok ((w.setInstance k { inst with exited := true }).go i (.releaseInstance k async))
      else .error .disabled
  | .timeout =>
      .ok (w.go i (if forced then .releaseInstance k async else .shutdownInstance k async true))
  | _ => .error .disabled

def releaseInstance (w : World) (i k : Nat) (async : Bool) (inst : Instance) : World :=
  if inst.released then w.go i (After.teardown k async).pc
  else
    (w.setInstance k { inst with released := true }).go i
      (if inst.exited then .release ⟨inst.network, k⟩ (.teardown k async)
        else .discard ⟨inst.network, k⟩ inst.vmm (.teardown k async))

/-! ## Steps -/

def advance (w : World) (i : Nat) (o : Outcome) : Except Fault World :=
  match w.pc i with
  | .waitForAsyncTeardown id =>
      let waits := w.cfg.usePool && w.cfg.asyncTeardown
      match o with
      | .ok =>
          if waits && decide (0 < w.activeTeardowns) then .error .disabled
          else .ok (w.go i (.acquire id))
      | .timeout => if waits then .ok (w.go i (.unmark id)) else .error .disabled
      | _ => .error .disabled
  | .acquire id => .ok (w.take i id)
  | .validate id n =>
      match o with
      | .ok => .ok ((w.lease n).go i (.prepareBootImage id ⟨n, w.acquired.length⟩))
      | .error => .ok ((w.destroyNetwork n).go i (.buildNetwork id))
      | _ => .error .disabled
  | .buildNetwork id =>
      match o with
      | .ok =>
          .ok ((w.build.lease w.built).go i (.prepareBootImage id ⟨w.built, w.acquired.length⟩))
      | .error => .ok (w.go i (.unmark id))
      | _ => .error .disabled
  | .prepareBootImage id l =>
      match o with
      | .ok => .ok (w.go i (.startMachine id l false))
      | .found =>
          if w.cfg.useSnapshots then .ok (w.go i (.startMachine id l true)) else .error .disabled
      | .error => .ok (w.go i (.release l (.start id)))
      | _ => .error .disabled
  | .startMachine id l snapshot => w.startMachine i id l snapshot o
  | .drain id l snapshot vmm =>
      match o with
      | .ok =>
          if w.exited vmm then .ok (w.go i (.cleanupFailedMachine id l snapshot none))
          else .error .disabled
      | .timeout => .ok (w.go i (.cleanupFailedMachine id l snapshot none))
      | _ => .error .disabled
  | .setMetadata id l vmm =>
      match o with
      | .ok => .ok (w.go i (.startPortProxy id l vmm true))
      | .error => .ok (w.go i (.cleanupFailedMachine id l true (some vmm)))
      | _ => .error .disabled
  | .cleanupFailedMachine id l snapshot vmm => w.cleanupFailedMachine i id l snapshot vmm o
  | .startPortProxy id l vmm restored =>
      match o with
      | .ok => .ok (w.go i (.waitForTCP id l vmm restored))
      | .error => .ok (w.go i (.stopVMMAndWait id l vmm))
      | _ => .error .disabled
  | .waitForTCP id l vmm restored =>
      match o with
      | .ok => .ok (w.go i (.register id l vmm))
      | .error =>
          .ok (w.go i (if restored then .stopVMMAndWait id l vmm else .register id l vmm))
      | _ => .error .disabled
  | .register id l vmm => .ok (w.register i id l vmm)
  | .stopVMMAndWait id l vmm =>
      match o with
      | .ok =>
          if w.exited vmm then .ok (w.go i (.release l (.start id))) else .error .disabled
      | .timeout => .ok (w.go i (.discard l vmm (.start id)))
      | _ => .error .disabled
  | .unmark id => .ok ((w.mark id false).go i .done)
  | .reap id l vmm =>
      if w.exited vmm then .ok (w.go i (.release l (.reaper id))) else .error .disabled
  | .unreap id => .ok ((w.markReaping id false).go i .done)
  | .wait id k =>
      match w.insts k, o with
      | some inst, .ok =>
          if w.exited inst.vmm then .ok (w.go i (.delete id k)) else .error .disabled
      | some _, .timeout => .ok (w.go i (.delete id k))
      | _, _ => .error .disabled
  | .delete id k =>
      .ok ({ w with instances := update w.instances id none }.go i (.runTeardown k))
  | .runTeardown k =>
      match w.insts k with
      | some inst => w.runTeardown i k inst
      | none => .error .disabled
  | .shutdownInstance k async forced =>
      match w.insts k with
      | some inst => w.shutdownInstance i k async forced inst o
      | none => .error .disabled
  | .releaseInstance k async =>
      match w.insts k with
      | some inst => .ok (w.releaseInstance i k async inst)
      | none => .error .disabled
  | .endAsyncTeardown => .ok ({ w with activeTeardowns := w.activeTeardowns - 1 }.go i .done)
  | .onceDone k =>
      match w.insts k with
      | some inst => .ok ((w.setInstance k { inst with teardownOnce := .done }).go i .done)
      | none => .error .disabled
  | .release l after => .ok ((w.giveBack l.account).go i (.returning l.network after))
  | .returning n after =>
      match o with
      | .ok =>
          if w.room then .ok ((w.push n).go i after.pc)
          else .ok ((w.destroyNetwork n).go i after.pc)
      | .error => .ok ((w.destroyNetwork n).go i after.pc)
      | _ => .error .disabled
  | .discard l _ after =>
      .ok (((w.giveBack l.account).destroyNetwork l.network).go i after.pc)
  | .replenishPool =>
      if w.replenishing || decide (w.cfg.refillThreshold ≤ w.pool.length) then .ok (w.go i .done)
      else .ok ({ w with replenishing := true }.go i .refill)
  | .refill =>
      if w.pool.length < w.cfg.poolSize then
        match o with
        | .ok => .ok (w.build.go i (.refilled w.built))
        | .error => .ok (w.unlock i)
        | _ => .error .disabled
      else .ok (w.unlock i)
  | .refilled n =>
      if w.room then .ok ((w.push n).go i .refill) else .ok ((w.destroyNetwork n).unlock i)
  | .idle | .done => .error .disabled

def step (w : World) : Action → Except Fault World
  | .start id => .ok (w.start id)
  | .stop id =>
      match w.instances id with
      | some k => .ok (w.enter (.delete id k))
      | none => .ok (w.enter .done)
  | .watchLifecycle id =>
      match w.instances id with
      | some k => .ok (w.enter (.wait id k))
      | none => .ok (w.enter .done)
  | .replenish => if w.cfg.hasPool then .ok (w.enter .replenishPool) else .error .disabled
  | .step i o => w.advance i o
  | .exit vmm => .ok { w with running := update w.running vmm none }

/-- After `populatePool`, which skips what it cannot build. -/
def init (cfg : Config) (populated : Nat) : World where
  cfg := cfg
  pool := List.range populated
  built := populated
  destroyed := []
  inUse := 0
  replenishing := false
  starting := fun _ => false
  reaping := fun _ => false
  instances := fun _ => none
  insts := fun _ => none
  activeTeardowns := 0
  nvmms := 0
  running := fun _ => none
  acquired := []
  given := fun _ => 0
  ncalls := 0
  pc := fun _ => .idle

end World

def machine : Lib.Machine World Action Fault where
  start := fun w => ∃ cfg populated, populated ≤ (if cfg.hasPool then cfg.poolSize else 0) ∧
    w = World.init cfg populated
  step := World.step

/-! ## Who has a network -/

inductive Place
  | call (i : Nat)
  | inst (k : Nat)
  deriving DecidableEq, Repr

def PC.hand : PC → Option Lib.Hand
  | .validate _ n | .returning n _ | .refilled n => some ⟨n, none, none⟩
  | .prepareBootImage _ l | .startMachine _ l _ | .release l _ =>
      some ⟨l.network, some l.account, none⟩
  | .drain _ l _ vmm | .setMetadata _ l vmm | .startPortProxy _ l vmm _ | .waitForTCP _ l vmm _
  | .register _ l vmm | .stopVMMAndWait _ l vmm | .reap _ l vmm | .discard l vmm _ =>
      some ⟨l.network, some l.account, some vmm⟩
  | .cleanupFailedMachine _ l _ vmm => some ⟨l.network, some l.account, vmm⟩
  | _ => none

/-- An instance has its network until it is released. -/
def Instance.hand (inst : Instance) (k : Nat) : Option Lib.Hand :=
  if inst.released then none
  else some ⟨inst.network, some k, if inst.exited then none else some inst.vmm⟩

namespace World

def hand (w : World) : Place → Option Lib.Hand
  | .call i => (w.pc i).hand
  | .inst k => (w.insts k).bind fun inst => inst.hand k

/-- The networks and their users. -/
def ledger (w : World) : Lib.Ledger Place where
  pool := w.pool
  made := w.built
  gone := w.destroyed
  hand := w.hand
  started := w.nvmms
  running := w.running
  taken := w.acquired
  given := w.given
  inUse := w.inUse

end World

/-! ## Who works on an id -/

/-- What a call is for an id or an instance: a start before its registration, with the number of
its acquisition; a call that is going to clear the table; one before the teardown; a teardown;
one whose teardown has released the instance. -/
inductive Role
  | other
  | starting (id : Nat) (account : Option Nat)
  | ending (id k : Nat)
  | tearing (k : Nat)
  | shutting (k : Nat)
  | finishing (k : Nat)
  deriving DecidableEq, Repr

def After.role : After → Role
  | .sync k => .finishing k
  | _ => .other

def PC.role : PC → Role
  | .waitForAsyncTeardown id | .acquire id | .validate id _ | .buildNetwork id => .starting id none
  | .prepareBootImage id l | .startMachine id l _ | .drain id l _ _ | .setMetadata id l _
  | .cleanupFailedMachine id l _ _ | .startPortProxy id l _ _ | .waitForTCP id l _ _
  | .register id l _ => .starting id (some l.account)
  | .wait id k | .delete id k => .ending id k
  | .runTeardown k => .tearing k
  | .shutdownInstance k _ _ | .releaseInstance k _ => .shutting k
  | .onceDone k => .finishing k
  | .release _ after | .returning _ after | .discard _ _ after => after.role
  | _ => .other

@[grind] def Role.id : Role → Option Nat
  | .starting id _ | .ending id _ => some id
  | _ => none

@[grind] def Role.instance : Role → Option Nat
  | .ending _ k | .tearing k | .shutting k => some k
  | _ => none

/-- A failed machine has ended when the wait for it is over, and a start begins when no other
call works on its id. -/
def World.orderly (w : World) : Action → Bool
  | .step i .timeout =>
      match w.pc i with
      | .drain _ _ _ vmm => w.exited vmm
      | _ => true
  | .start id => (List.range w.ncalls).all fun j => (w.pc j).role.id != some id
  | _ => true

end HyperFaaS.Worker.Networks

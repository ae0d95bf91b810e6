import Mathlib.Logic.Function.Basic
import Mathlib.Data.List.Perm.Basic

/-!
The sandbox pool of one function (`pkg/leaf/dataplane/pool.go`): its record,
and each of its critical sections as a function on that record.

Pointers are numbers. A `*pooledSandbox` is an index `r` into `heap`, a waiter is
named by the `Acquire` call that made it, and the `drained` channel by the
`Drain` call that made it; each call makes at most one. The ready list is a
list of references, and `sandbox.ready` only says whether the element pointer
is set. After `Close` the two may disagree, and nothing reads the list then.
The time of a critical section is one reading `now` of the clock.

A critical section that would panic, or block while it holds the mutex, ends
in a `Fault`. `demandWake` is left out: a full or missing wake channel changes
nothing here.
-/

namespace HyperFaaS.Dataplane

/-- Why an action did not run. `disabled` is no fault of the program: the
action is not the next one of its caller. -/
inductive Fault
  | disabled
  | releaseWithoutLease
  | sendBlocked
  | closeOfClosed
  deriving DecidableEq, Repr

def defaultSandboxConcurrency : Int := 200
def defaultQueueDepth : Int := 10000

inductive CtxErr
  | canceled
  | deadlineExceeded
  deriving DecidableEq, Repr

/-- The errors `Acquire` returns: its context's, `ErrQueueFull`, `ErrPoolClosed`. -/
inductive AcquireErr
  | ctx (e : CtxErr)
  | queueFull
  | poolClosed
  deriving DecidableEq, Repr

/-- The immutable request target. -/
structure Sandbox where
  instanceID : Nat
  workerID : Nat
  address : String
  protocol : String
  deriving DecidableEq, Repr

structure PooledSandbox where
  target : Sandbox
  inFlight : Int
  ready : Bool
  draining : Bool
  drained : Option Nat
  deriving DecidableEq, Repr

/-- `acquireResult`: one of its two fields is set. -/
inductive AcquireResult
  | sandbox (r : Nat)
  | err (e : AcquireErr)
  deriving DecidableEq, Repr

/-- `elem` says whether the waiter's list element is set; `result` is the
content of its one-slot channel. -/
structure Waiter where
  elem : Bool
  result : List AcquireResult
  deriving DecidableEq, Repr

inductive Outcome
  | lease (r : Nat)
  | err (e : AcquireErr)
  deriving DecidableEq, Repr

/-- History, read by no critical section. A grant records the slots in use on
the sandbox after it, and the limit and whether the sandbox was draining at that
instant; an enqueue records the length of the queue before it and the depth. -/
inductive Event
  | enqueue (c : Nat) (queued depth : Int)
  | grant (c : Nat) (r : Nat) (inFlight limit : Int) (draining : Bool)
  | reject (c : Nat) (e : AcquireErr)
  | withdraw (c : Nat)
  | giveBack (c : Nat) (r : Nat)
  | release (c : Nat) (r : Nat)
  | ret (c : Nat) (o : Outcome)
  deriving DecidableEq, Repr

structure SandboxPool where
  limit : Int
  queueDepth : Int
  sandboxes : Nat → Option Nat
  ready : List Nat
  pending : List Nat
  active : Int
  executing : Int
  closed : Bool
  queueHead : Option Nat
  accepted : Int
  completed : Int
  highWater : Int
  lastActivity : Nat
  heap : Nat → PooledSandbox
  next : Nat
  waiters : Nat → Waiter
  drainedClosed : Nat → Bool
  log : List Event

namespace SandboxPool

/-- Write one sandbox record. -/
def setSandbox (p : SandboxPool) (r : Nat) (s : PooledSandbox) : SandboxPool :=
  { p with heap := Function.update p.heap r s }

def setWaiter (p : SandboxPool) (c : Nat) (w : Waiter) : SandboxPool :=
  { p with waiters := Function.update p.waiters c w }

def record (p : SandboxPool) (e : Event) : SandboxPool :=
  { p with log := p.log ++ [e] }

/-- The map entry of `r`'s instance is `r` itself. -/
def inMap (p : SandboxPool) (r : Nat) : Bool :=
  p.sandboxes (p.heap r).target.instanceID == some r

/-- `!sandbox.draining && sandbox.inFlight < p.limit` -/
def available (p : SandboxPool) (r : Nat) : Bool :=
  !(p.heap r).draining && decide ((p.heap r).inFlight < p.limit)

/-! ## The helpers that run with the mutex held -/

def removeReadyLocked (p : SandboxPool) (r : Nat) : SandboxPool :=
  if (p.heap r).ready then
    { p.setSandbox r { p.heap r with ready := false } with ready := p.ready.erase r }
  else p

def refreshReadyLocked (p : SandboxPool) (r : Nat) : SandboxPool :=
  if p.available r && !(p.heap r).ready then
    { p.setSandbox r { p.heap r with ready := true } with ready := p.ready ++ [r] }
  else if !p.available r then p.removeReadyLocked r
  else p

def updateQueueHeadLocked (p : SandboxPool) : SandboxPool :=
  if p.pending = [] then { p with queueHead := none } else p

def noteDemandLocked (p : SandboxPool) : SandboxPool :=
  let demand := p.executing + p.pending.length
  if p.highWater ≥ demand then p else { p with highWater := demand }

/-- `w.result <- x` on the waiter's channel, whose capacity is one. -/
def send (p : SandboxPool) (c : Nat) (x : AcquireResult) : Except Fault SandboxPool :=
  if (p.waiters c).result.length < 1 then
    .ok (p.setWaiter c { p.waiters c with result := (p.waiters c).result ++ [x] })
  else .error .sendBlocked

/-- `w.elem = nil` -/
def clearElem (p : SandboxPool) (c : Nat) : SandboxPool :=
  p.setWaiter c { p.waiters c with elem := false }

/-- The counters of one more slot in use on `r`. -/
def takeSlot (p : SandboxPool) (r : Nat) : SandboxPool :=
  { p.setSandbox r { p.heap r with inFlight := (p.heap r).inFlight + 1 } with
    executing := p.executing + 1
    accepted := p.accepted + 1 }

/-- `p.lastActivity.Store(time.Now().UnixNano())` when `executing` has just become `n` with
nothing queued. -/
def noteActivity (p : SandboxPool) (now : Nat) (n : Int) : SandboxPool :=
  if p.executing = n ∧ p.pending = [] then { p with lastActivity := now } else p

/-- Reserve a slot on the sandbox at the front of the ready list. -/
def acquireLocked (p : SandboxPool) (now : Nat) : Option (Nat × SandboxPool) :=
  match p.ready with
  | [] => none
  | r :: rest =>
      let p := (p.takeSlot r).noteActivity now 1
      let p := if (p.heap r).inFlight ≥ p.limit then p.removeReadyLocked r
        else { p with ready := rest ++ [r] }
      some (r, p.noteDemandLocked)

/-- Record that call `c` was given the slot `acquireLocked` took on `r`. -/
def recordGrant (p : SandboxPool) (c : Nat) (r : Nat) : SandboxPool :=
  p.record (.grant c r (p.heap r).inFlight p.limit (p.heap r).draining)

/-- The loop of `dispatchLocked` over the queue: answer a cancelled waiter with
its error, give a slot to any other, stop when no slot is left. -/
def dispatchLoop (ctxErr : Nat → Option CtxErr) (now : Nat) :
    List Nat → SandboxPool → Except Fault SandboxPool
  | [], p => .ok p
  | c :: rest, p =>
      match ctxErr c with
      | some e => do
          let p ← (({ p with pending := rest }.clearElem c).record (.reject c (.ctx e))).send c
            (.err (.ctx e))
          dispatchLoop ctxErr now rest p
      | none =>
          match p.acquireLocked now with
          | none => .ok p
          | some (r, p) => do
              let p ← (({ p with pending := rest }.clearElem c).updateQueueHeadLocked.recordGrant
                c r).send c (.sandbox r)
              dispatchLoop ctxErr now rest p

def dispatchLocked (p : SandboxPool) (ctxErr : Nat → Option CtxErr) (now : Nat) :
    Except Fault SandboxPool :=
  dispatchLoop ctxErr now p.pending p

/-! ## The operations -/

def normalizeLimit (limit : Int) : Int :=
  if limit ≤ 0 then defaultSandboxConcurrency else limit

def normalizeDepth (depth : Int) : Int :=
  if depth ≤ 0 then defaultQueueDepth else depth

/-- `order` is an order in which a loop over the map can visit its keys. -/
def Iterates (p : SandboxPool) (order : List Nat) : Prop :=
  order.Nodup ∧ (∀ id ∈ order, (p.sandboxes id).isSome) ∧
    ∀ r, r < p.next → p.inMap r → (p.heap r).target.instanceID ∈ order

instance (p : SandboxPool) (order : List Nat) : Decidable (p.Iterates order) :=
  inferInstanceAs (Decidable (_ ∧ _ ∧ _))

/-- One turn of the loop of `Configure` over the map. -/
def refreshEntry (p : SandboxPool) (id : Nat) : SandboxPool :=
  match p.sandboxes id with
  | none => p
  | some r => p.refreshReadyLocked r

def configure (p : SandboxPool) (limit depth : Int) (order : List Nat)
    (ctxErr : Nat → Option CtxErr) (now : Nat) : Except Fault SandboxPool :=
  let p := { p with limit := normalizeLimit limit, queueDepth := normalizeDepth depth }
  (order.foldl refreshEntry p).dispatchLocked ctxErr now

/-- A new record for a target, entered in the map and the ready list. -/
def insertNew (p : SandboxPool) (target : Sandbox) : SandboxPool :=
  let r := p.next
  { p.setSandbox r ⟨target, 0, false, false, none⟩ with
    sandboxes := Function.update p.sandboxes target.instanceID (some r)
    next := r + 1
    active := p.active + 1 }.refreshReadyLocked r

/-- A map entry gets a new target. -/
def retarget (p : SandboxPool) (r : Nat) (target : Sandbox) : SandboxPool :=
  (p.setSandbox r { p.heap r with target := target }).refreshReadyLocked r

/-- The check at the head of `Add` and in the first loop of `Sync`. -/
def validTarget (target : Sandbox) : Bool :=
  target.instanceID != 0 && target.address != ""

def add (p : SandboxPool) (target : Sandbox) (ctxErr : Nat → Option CtxErr) (now : Nat) :
    Except Fault SandboxPool :=
  if !validTarget target then .ok p
  else if p.closed then .ok p
  else
    match p.sandboxes target.instanceID with
    | some r => .ok (p.retarget r target)
    | none => (p.insertNew target).dispatchLocked ctxErr now

/-- The map `wanted`: the last valid target of each instance. -/
def wantedOf : List Sandbox → List Sandbox
  | [] => []
  | t :: ts =>
      if validTarget t && !(wantedOf ts).any (·.instanceID == t.instanceID) then t :: wantedOf ts
      else wantedOf ts

/-- Delete a map entry. -/
def deleteEntry (p : SandboxPool) (id : Nat) : SandboxPool :=
  { p with sandboxes := Function.update p.sandboxes id none }

/-- One turn of the first loop of `Sync`. -/
def syncDrop (wanted : List Sandbox) (p : SandboxPool) (id : Nat) : SandboxPool :=
  match p.sandboxes id with
  | none => p
  | some r =>
      if wanted.any (·.instanceID == id) || (p.heap r).draining then p
      else
        let p := (p.removeReadyLocked r).deleteEntry id
        { p with active := p.active - 1 }

/-- One turn of the second loop of `Sync`. -/
def syncPut (p : SandboxPool) (target : Sandbox) : SandboxPool :=
  match p.sandboxes target.instanceID with
  | some r => p.retarget r target
  | none => p.insertNew target

/-- `order` and `wanted` are the orders of the two loops over maps. -/
def sync (p : SandboxPool) (order : List Nat) (wanted : List Sandbox)
    (ctxErr : Nat → Option CtxErr) (now : Nat) : Except Fault SandboxPool :=
  if p.closed then .ok p
  else (wanted.foldl syncPut (order.foldl (syncDrop wanted) p)).dispatchLocked ctxErr now

def remove (p : SandboxPool) (id : Nat) : SandboxPool :=
  match p.sandboxes id with
  | none => p
  | some r =>
      let p := p.removeReadyLocked r
      let p := if (p.heap r).draining then p else { p with active := p.active - 1 }
      p.deleteEntry id

inductive DrainErr
  | poolClosed
  | noSandbox
  | ctx (e : CtxErr)
  deriving DecidableEq, Repr

/-- The first critical section of `Drain`, which makes the channel named `d`. -/
def drainStart (p : SandboxPool) (d : Nat) (id : Nat) : SandboxPool × Except DrainErr Nat :=
  if p.closed then (p, .error .poolClosed)
  else
    match p.sandboxes id with
    | none => (p, .error .noSandbox)
    | some r =>
        if (p.heap r).draining then (p, .error .noSandbox)
        else
          let p := p.setSandbox r { p.heap r with draining := true }
          let p := { p with active := p.active - 1 }.removeReadyLocked r
          let p := p.setSandbox r { p.heap r with drained := some d }
          let p := if (p.heap r).inFlight = 0 then
            { p with drainedClosed := Function.update p.drainedClosed d true } else p
          (p, .ok r)

/-- The common end of `restore` and of an unsuccessful `finish`. -/
def reactivate (p : SandboxPool) (r : Nat) (ctxErr : Nat → Option CtxErr) (now : Nat) :
    Except Fault SandboxPool :=
  let p := p.setSandbox r { p.heap r with draining := false, drained := none }
  ({ p with active := p.active + 1 }.refreshReadyLocked r).dispatchLocked ctxErr now

def restore (p : SandboxPool) (r : Nat) (ctxErr : Nat → Option CtxErr) (now : Nat) :
    Except Fault SandboxPool :=
  if !p.inMap r || !(p.heap r).draining then .ok p else p.reactivate r ctxErr now

/-- The function `Drain` returns, made for instance `id` and sandbox `r`. -/
def finish (p : SandboxPool) (id : Nat) (r : Nat) (stopped : Bool)
    (ctxErr : Nat → Option CtxErr) (now : Nat) : Except Fault SandboxPool :=
  if p.sandboxes id ≠ some r ∨ (p.heap r).draining = false then .ok p
  else if stopped then .ok (p.deleteEntry id)
  else p.reactivate r ctxErr now

/-- `close(sandbox.drained)` -/
def closeDrained (p : SandboxPool) (r : Nat) : Except Fault SandboxPool :=
  match (p.heap r).drained with
  | none => .ok p
  | some d =>
      if p.drainedClosed d then .error .closeOfClosed
      else .ok { p with drainedClosed := Function.update p.drainedClosed d true }

/-- The counters of one slot less in use on `r`. -/
def dropSlot (p : SandboxPool) (r : Nat) : SandboxPool :=
  { p.setSandbox r { p.heap r with inFlight := (p.heap r).inFlight - 1 } with
    executing := p.executing - 1
    completed := p.completed + 1 }

def release (p : SandboxPool) (r : Nat) (ctxErr : Nat → Option CtxErr) (now : Nat) :
    Except Fault SandboxPool :=
  if (p.heap r).inFlight ≤ 0 then .error .releaseWithoutLease
  else
    let p := (p.dropSlot r).noteActivity now 0
    if p.closed then .ok p
    else if (p.heap r).draining then
      if (p.heap r).inFlight = 0 then p.closeDrained r else .ok p
    else if p.inMap r then (p.refreshReadyLocked r).dispatchLocked ctxErr now
    else .ok p

/-- How the first critical section of `Acquire` ends. -/
inductive Entered
  | leased (r : Nat)
  | failed (e : AcquireErr)
  | queued
  deriving DecidableEq, Repr

/-- Put call `c` at the back of the queue. -/
def enqueue (p : SandboxPool) (c : Nat) (now : Nat) : SandboxPool :=
  let p := p.record (.enqueue c p.pending.length p.queueDepth)
  let p : SandboxPool := { p.setWaiter c ⟨true, []⟩ with pending := p.pending ++ [c] }
  let p := if p.queueHead = none then { p with queueHead := some now } else p
  p.noteDemandLocked

/-- The first critical section of `Acquire`. -/
def acquireEnter (p : SandboxPool) (c : Nat) (now : Nat) : SandboxPool × Entered :=
  if p.closed then (p, .failed .poolClosed)
  else
    match if p.pending = [] then p.acquireLocked now else none with
    | some (r, p) => (p.recordGrant c r, .leased r)
    | none =>
        if (p.pending.length : Int) ≥ p.queueDepth then (p, .failed .queueFull)
        else (p.enqueue c now, .queued)

/-- The critical section of the `ctx.Done()` case: `true` when the waiter was
still queued. -/
def acquireCancel (p : SandboxPool) (c : Nat) : SandboxPool × Bool :=
  if (p.waiters c).elem then
    let p := { p with pending := p.pending.erase c }.clearElem c
    (p.updateQueueHeadLocked.record (.withdraw c), true)
  else (p, false)

/-- The loop of `Close` over the queue. -/
def closeLoop : List Nat → SandboxPool → Except Fault SandboxPool
  | [], p => .ok p
  | c :: rest, p => do
      let p ← (({ p with pending := rest }.clearElem c).record (.reject c .poolClosed)).send c
        (.err .poolClosed)
      closeLoop rest p

def close (p : SandboxPool) : Except Fault SandboxPool :=
  if p.closed then .ok p else closeLoop p.pending { p with closed := true, ready := [] }

def takeHighWater (p : SandboxPool) : SandboxPool × Int :=
  let current := p.executing + p.pending.length
  ({ p with highWater := current }, if p.highWater > current then p.highWater else current)

structure PoolSnapshot where
  readyInstances : Int
  availableConcurrency : Int
  executing : Int
  queued : Int
  accepted : Int
  completed : Int
  highWater : Int
  lastActivity : Nat
  oldestQueued : Option Nat
  deriving DecidableEq, Repr

/-- The free slots `Snapshot` sums over the map, for the first `n` records. -/
def freeSlots (p : SandboxPool) : Nat → Int
  | 0 => 0
  | n + 1 =>
      p.freeSlots n + if p.inMap n && p.available n then p.limit - (p.heap n).inFlight else 0

def snapshot (p : SandboxPool) : PoolSnapshot where
  readyInstances := p.active
  availableConcurrency := p.freeSlots p.next
  executing := p.executing
  queued := p.pending.length
  accepted := p.accepted
  completed := p.completed
  highWater := p.highWater
  lastActivity := p.lastActivity
  oldestQueued := p.queueHead

/-- The empty pool before `NewSandboxPool` configures it. -/
def blank : SandboxPool where
  limit := 0
  queueDepth := 0
  sandboxes := fun _ => none
  ready := []
  pending := []
  active := 0
  executing := 0
  closed := false
  queueHead := none
  accepted := 0
  completed := 0
  highWater := 0
  lastActivity := 0
  heap := fun _ => ⟨⟨0, 0, "", ""⟩, 0, false, false, none⟩
  next := 0
  waiters := fun _ => ⟨false, []⟩
  drainedClosed := fun _ => false
  log := []

/-- `NewSandboxPool`; its `Configure` has no entry to visit and no waiter to serve. -/
def newSandboxPool (limit depth : Int) : SandboxPool :=
  { blank with limit := normalizeLimit limit, queueDepth := normalizeDepth depth }

end SandboxPool

end HyperFaaS.Dataplane

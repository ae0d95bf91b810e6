import HyperFaaS.Lib.Machine
import HyperFaaS.Dataplane.Pool

/-!
The pool together with its callers: every `Acquire` call, lease and `Drain`
call has a place in its own code, and each action runs one of them up to its
next critical section, channel operation or look at its context. Any order of
actions is a run, so the runs are the interleavings of the critical sections.

Each call has a context of its own. Callers that share one are covered: the
flags of their calls may be set one after the other.
-/

namespace HyperFaaS.Dataplane

open Function

/-- Where an `Acquire` call stands. -/
inductive AcquirePC
  | idle
  /-- before the first look at the context -/
  | checking
  /-- before the first critical section -/
  | locking
  /-- in the `select`, with a waiter in the queue or already answered -/
  | selecting
  /-- took the result case -/
  | received (x : AcquireResult)
  /-- took the `ctx.Done()` case, before its critical section -/
  | canceling
  /-- found its waiter answered, before `<-w.result` -/
  | collecting
  /-- before `p.release` of a slot it will not use -/
  | givingBack (r : Nat)
  /-- has given its slot back, returns the context's error next -/
  | leaving
  | returned (o : Outcome)
  deriving DecidableEq, Repr

/-- A lease and its `Release` calls: `released` is the flag they compare and
swap, `releasing` holds while the winner has not yet run `p.release`. -/
structure Lease where
  released : Bool
  releasing : Bool
  deriving DecidableEq, Repr

/-- Where a `Drain` call stands; `id` is its argument, `r` the sandbox it marked. -/
inductive DrainPC
  | idle
  | locking (id : Nat)
  | waiting (id : Nat) (r : Nat)
  | restoring (id : Nat) (r : Nat)
  /-- the finish function is out and has not run -/
  | handed (id : Nat) (r : Nat)
  | finished (id : Nat) (r : Nat)
  | failed (e : SandboxPool.DrainErr)
  deriving DecidableEq, Repr

structure World where
  pool : SandboxPool
  ncalls : Nat
  pc : Nat → AcquirePC
  lease : Nat → Lease
  ctxErr : Nat → Option CtxErr
  ndrains : Nat
  drain : Nat → DrainPC
  drainCtx : Nat → Option CtxErr
  clock : Nat

inductive Action
  | tick (d : Nat)
  | configure (limit depth : Int) (order : List Nat)
  | add (target : Sandbox)
  | sync (targets : List Sandbox) (order : List Nat) (wanted : List Sandbox)
  | remove (id : Nat)
  | close
  | takeHighWater
  | acquire
  | cancel (c : Nat) (e : CtxErr)
  | check (c : Nat)
  | enter (c : Nat)
  | receive (c : Nat)
  | confirm (c : Nat)
  | giveUp (c : Nat)
  | withdraw (c : Nat)
  | collect (c : Nat)
  | giveBack (c : Nat)
  | leave (c : Nat)
  | releaseLease (c : Nat)
  | finishRelease (c : Nat)
  | drain (id : Nat)
  | cancelDrain (d : Nat) (e : CtxErr)
  | drainLock (d : Nat)
  | drainReady (d : Nat)
  | drainExpire (d : Nat)
  | drainRestore (d : Nat)
  | drainFinish (d : Nat) (stopped : Bool)
  deriving DecidableEq, Repr

namespace World

def setPC (w : World) (c : Nat) (x : AcquirePC) : World :=
  { w with pc := update w.pc c x }

def setLease (w : World) (c : Nat) (l : Lease) : World :=
  { w with lease := update w.lease c l }

def setDrain (w : World) (d : Nat) (x : DrainPC) : World :=
  { w with drain := update w.drain d x }

def setPool (w : World) (p : SandboxPool) : World := { w with pool := p }

/-- `Acquire` returns. -/
def ret (w : World) (c : Nat) (o : Outcome) : World :=
  { w with pool := w.pool.record (.ret c o), pc := update w.pc c (.returned o) }

/-- Take the value out of the waiter's channel. -/
def popResult (w : World) (c : Nat) (rest : List AcquireResult) : World :=
  w.setPool (w.pool.setWaiter c { w.pool.waiters c with result := rest })

@[simp] theorem setPool_pool (w : World) (p : SandboxPool) : (w.setPool p).pool = p := rfl
@[simp] theorem setPool_pc (w : World) (p : SandboxPool) : (w.setPool p).pc = w.pc := rfl
@[simp] theorem setPool_lease (w : World) (p : SandboxPool) : (w.setPool p).lease = w.lease := rfl
@[simp] theorem setPC_pool (w : World) (c : Nat) (x : AcquirePC) : (w.setPC c x).pool = w.pool := rfl
@[simp] theorem setPC_lease (w : World) (c : Nat) (x : AcquirePC) :
    (w.setPC c x).lease = w.lease := rfl
@[simp] theorem setPC_pc (w : World) (c : Nat) (x : AcquirePC) :
    (w.setPC c x).pc = update w.pc c x := rfl
@[simp] theorem setLease_pool (w : World) (c : Nat) (l : Lease) :
    (w.setLease c l).pool = w.pool := rfl
@[simp] theorem setLease_pc (w : World) (c : Nat) (l : Lease) : (w.setLease c l).pc = w.pc := rfl
@[simp] theorem setLease_lease (w : World) (c : Nat) (l : Lease) :
    (w.setLease c l).lease = update w.lease c l := rfl
@[simp] theorem setPool_drain (w : World) (p : SandboxPool) : (w.setPool p).drain = w.drain := rfl
@[simp] theorem setDrain_pool (w : World) (d : Nat) (x : DrainPC) :
    (w.setDrain d x).pool = w.pool := rfl
@[simp] theorem setDrain_drain (w : World) (d : Nat) (x : DrainPC) :
    (w.setDrain d x).drain = update w.drain d x := rfl

def init (limit depth : Int) (clock : Nat) : World where
  pool := SandboxPool.newSandboxPool limit depth
  ncalls := 0
  pc := fun _ => .idle
  lease := fun _ => ⟨false, false⟩
  ctxErr := fun _ => none
  ndrains := 0
  drain := fun _ => .idle
  drainCtx := fun _ => none
  clock := clock

/-- `err := ctx.Err()` at the head of `Acquire`. -/
def check (w : World) (c : Nat) : Except Fault World :=
  match w.pc c with
  | .checking =>
      match w.ctxErr c with
      | some e => .ok (w.ret c (.err (.ctx e)))
      | none => .ok (w.setPC c .locking)
  | _ => .error .disabled

def enter (w : World) (c : Nat) : Except Fault World :=
  match w.pc c with
  | .locking =>
      match w.pool.acquireEnter c w.clock with
      | (p, .leased r) => .ok ((w.setPool p).ret c (.lease r))
      | (p, .failed e) => .ok ((w.setPool p).ret c (.err e))
      | (p, .queued) => .ok ((w.setPool p).setPC c .selecting)
  | _ => .error .disabled

/-- `case result := <-w.result` -/
def receive (w : World) (c : Nat) : Except Fault World :=
  match w.pc c, (w.pool.waiters c).result with
  | .selecting, x :: rest => .ok ((w.popResult c rest).setPC c (.received x))
  | _, _ => .error .disabled

/-- The rest of the result case. -/
def confirm (w : World) (c : Nat) : Except Fault World :=
  match w.pc c with
  | .received (.err e) => .ok (w.ret c (.err e))
  | .received (.sandbox r) =>
      match w.ctxErr c with
      | some _ => .ok (w.setPC c (.givingBack r))
      | none => .ok (w.ret c (.lease r))
  | _ => .error .disabled

/-- `case <-ctx.Done()` -/
def giveUp (w : World) (c : Nat) : Except Fault World :=
  match w.pc c, w.ctxErr c with
  | .selecting, some _ => .ok (w.setPC c .canceling)
  | _, _ => .error .disabled

def withdraw (w : World) (c : Nat) : Except Fault World :=
  match w.pc c, w.ctxErr c with
  | .canceling, some e =>
      match w.pool.acquireCancel c with
      | (p, true) => .ok ((w.setPool p).ret c (.err (.ctx e)))
      | (p, false) => .ok ((w.setPool p).setPC c .collecting)
  | _, _ => .error .disabled

/-- `result := <-w.result` after a cancellation that came too late. -/
def collect (w : World) (c : Nat) : Except Fault World :=
  match w.pc c, (w.pool.waiters c).result, w.ctxErr c with
  | .collecting, .sandbox r :: rest, some _ => .ok ((w.popResult c rest).setPC c (.givingBack r))
  | .collecting, .err _ :: rest, some e => .ok ((w.popResult c rest).ret c (.err (.ctx e)))
  | _, _, _ => .error .disabled

/-- `p.release(result.sandbox)` -/
def giveBack (w : World) (c : Nat) : Except Fault World :=
  match w.pc c with
  | .givingBack r => do
      let p ← (w.pool.record (.giveBack c r)).release r w.ctxErr w.clock
      .ok ((w.setPool p).setPC c .leaving)
  | _ => .error .disabled

/-- The return with the context's error after a slot was given back. -/
def leave (w : World) (c : Nat) : Except Fault World :=
  match w.pc c, w.ctxErr c with
  | .leaving, some e => .ok (w.ret c (.err (.ctx e)))
  | _, _ => .error .disabled

/-- The compare-and-swap of `Lease.Release`. -/
def releaseLease (w : World) (c : Nat) : Except Fault World :=
  match w.pc c with
  | .returned (.lease _) =>
      if (w.lease c).released then .ok w else .ok (w.setLease c ⟨true, true⟩)
  | _ => .error .disabled

/-- `l.pool.release(l.sandbox)` by the call that won the swap. -/
def finishRelease (w : World) (c : Nat) : Except Fault World :=
  match w.pc c with
  | .returned (.lease r) =>
      if (w.lease c).releasing then do
        let p ← (w.pool.record (.release c r)).release r w.ctxErr w.clock
        .ok ((w.setPool p).setLease c ⟨true, false⟩)
      else .error .disabled
  | _ => .error .disabled

def drainLock (w : World) (d : Nat) : Except Fault World :=
  match w.drain d with
  | .locking id =>
      match w.pool.drainStart d id with
      | (p, .ok r) => .ok ((w.setPool p).setDrain d (.waiting id r))
      | (p, .error e) => .ok ((w.setPool p).setDrain d (.failed e))
  | _ => .error .disabled

/-- `case <-drained` -/
def drainReady (w : World) (d : Nat) : Except Fault World :=
  match w.drain d with
  | .waiting id r =>
      if w.pool.drainedClosed d then .ok (w.setDrain d (.handed id r)) else .error .disabled
  | _ => .error .disabled

/-- `case <-ctx.Done()` -/
def drainExpire (w : World) (d : Nat) : Except Fault World :=
  match w.drain d, w.drainCtx d with
  | .waiting id r, some _ => .ok (w.setDrain d (.restoring id r))
  | _, _ => .error .disabled

def drainRestore (w : World) (d : Nat) : Except Fault World :=
  match w.drain d, w.drainCtx d with
  | .restoring _ r, some e => do
      let p ← w.pool.restore r w.ctxErr w.clock
      .ok ((w.setPool p).setDrain d (.failed (.ctx e)))
  | _, _ => .error .disabled

/-- A call of the finish function; `once` makes every call but the first do nothing. -/
def drainFinish (w : World) (d : Nat) (stopped : Bool) : Except Fault World :=
  match w.drain d with
  | .handed id r => do
      let p ← w.pool.finish id r stopped w.ctxErr w.clock
      .ok ((w.setPool p).setDrain d (.finished id r))
  | .finished _ _ => .ok w
  | _ => .error .disabled

def step (w : World) : Action → Except Fault World
  | .tick d => .ok { w with clock := w.clock + d }
  | .configure limit depth order =>
      if w.pool.Iterates order then
        (w.pool.configure limit depth order w.ctxErr w.clock).map w.setPool
      else .error .disabled
  | .add target => (w.pool.add target w.ctxErr w.clock).map w.setPool
  | .sync targets order wanted =>
      if w.pool.Iterates order ∧ wanted.Perm (SandboxPool.wantedOf targets) then
        (w.pool.sync order wanted w.ctxErr w.clock).map w.setPool
      else .error .disabled
  | .remove id => .ok (w.setPool (w.pool.remove id))
  | .close => w.pool.close.map w.setPool
  | .takeHighWater => .ok (w.setPool w.pool.takeHighWater.1)
  | .acquire => .ok { w.setPC w.ncalls .checking with ncalls := w.ncalls + 1 }
  | .cancel c e =>
      .ok { w with ctxErr := update w.ctxErr c (some ((w.ctxErr c).getD e)) }
  | .check c => w.check c
  | .enter c => w.enter c
  | .receive c => w.receive c
  | .confirm c => w.confirm c
  | .giveUp c => w.giveUp c
  | .withdraw c => w.withdraw c
  | .collect c => w.collect c
  | .giveBack c => w.giveBack c
  | .leave c => w.leave c
  | .releaseLease c => w.releaseLease c
  | .finishRelease c => w.finishRelease c
  | .drain id => .ok { w.setDrain w.ndrains (.locking id) with ndrains := w.ndrains + 1 }
  | .cancelDrain d e =>
      .ok { w with drainCtx := update w.drainCtx d (some ((w.drainCtx d).getD e)) }
  | .drainLock d => w.drainLock d
  | .drainReady d => w.drainReady d
  | .drainExpire d => w.drainExpire d
  | .drainRestore d => w.drainRestore d
  | .drainFinish d stopped => w.drainFinish d stopped

/-- The pool made by `NewSandboxPool` for any configuration, at any time. -/
def machine : Lib.Machine World Action Fault where
  start := fun w => ∃ limit depth clock, w = init limit depth clock
  step := step

end World

end HyperFaaS.Dataplane

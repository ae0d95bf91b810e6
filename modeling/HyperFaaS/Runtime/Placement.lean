import HyperFaaS.Lib.Machine
import Mathlib.Logic.Function.Basic

/-!
The placement ledger of a leaf (`pkg/leaf/runtime/placement.go`): its counters,
and the calls of `Schedule`, `CommitReservation`, `CancelReservation` and
`RecordStop` broken into their atomic loads, compare-and-swaps and stores. A
call is a thread with a place in its code; every action runs one atomic step of
one thread, so the runs are all interleavings inside single calls.

The counters are natural numbers, since each counts calls or instances that
exist at once; the sums that are compared with the cap are taken modulo 2^64,
since telemetry can report any number of instances. Slot generations do not
wrap. Reading `trackImages` and the image maps under their mutex is one step,
and the scheduler's own choice is free.

The last fields of `World` are history, which no step reads.
-/

namespace HyperFaaS.Runtime

open Function

inductive Fault
  | disabled
  deriving DecidableEq, Repr

/-- The fields of a worker's telemetry that a reservation looks at. -/
structure Telemetry where
  healthy : Bool
  schedulable : Bool
  instances : UInt64
  deriving DecidableEq

structure WorkerPlacement where
  telemetry : Option Telemetry
  instances : Nat
  pendingStarts : Nat
  pendingImages : String → Nat
  knownImages : String → Bool

/-- `rank` is history: the number of the call's compare-and-swap on its worker. -/
structure PlacementReservation where
  workerIndex : Nat
  image : String
  slot : Nat
  generation : Nat
  valid : Bool
  rank : Nat
  deriving DecidableEq, Repr

structure PlacementChoice where
  workerID : Nat
  reason : String
  deriving DecidableEq, Repr

inductive ScheduleErr
  | startSlotsExhausted
  | pickWorker
  deriving DecidableEq, Repr

/-- What `Schedule` returns. -/
structure Outcome where
  choice : PlacementChoice
  reservation : Option PlacementReservation
  err : Option ScheduleErr
  deriving DecidableEq, Repr

structure PlacementState where
  workers : Nat
  startTokensPerWorker : Nat
  startTokensTotal : Nat
  maxInstancesPerWorker : Nat
  slots : Nat
  worker : Nat → WorkerPlacement
  pendingStarts : Nat
  startCapacityChanged : Bool
  reservationCursor : Nat
  reservations : Nat → Nat
  trackImages : Bool

namespace PlacementState

def newPlacementState (workerCount : Nat) (startTokensPerWorker : UInt32)
    (startTokensTotal : UInt64) (maxInstancesPerWorker : UInt32) : PlacementState where
  workers := workerCount
  startTokensPerWorker := startTokensPerWorker.toNat
  startTokensTotal := startTokensTotal.toNat
  maxInstancesPerWorker := maxInstancesPerWorker.toNat
  slots := max 1 (if startTokensTotal.toNat > 0 then startTokensTotal.toNat else workerCount * 64)
  worker := fun _ => ⟨none, 0, 0, fun _ => 0, fun _ => false⟩
  pendingStarts := 0
  startCapacityChanged := false
  reservationCursor := 0
  reservations := fun _ => 0
  trackImages := false

def setWorker (s : PlacementState) (idx : Nat) (x : WorkerPlacement) : PlacementState :=
  { s with worker := update s.worker idx x }

def setPendingStarts (s : PlacementState) (idx n : Nat) : PlacementState :=
  s.setWorker idx { s.worker idx with pendingStarts := n }

def setInstances (s : PlacementState) (idx n : Nat) : PlacementState :=
  s.setWorker idx { s.worker idx with instances := n }

def setGlobalStarts (s : PlacementState) (n : Nat) : PlacementState := { s with pendingStarts := n }

def setSlot (s : PlacementState) (i n : Nat) : PlacementState :=
  { s with reservations := update s.reservations i n }

/-- `UpdateWorker`, or one turn of `ResetTelemetry` when there is none. -/
def setTelemetry (s : PlacementState) (idx : Nat) (t : Option Telemetry) : PlacementState :=
  s.setWorker idx { s.worker idx with telemetry := t }

/-- The image part of one turn of `ResetTelemetry`. -/
def resetImages (s : PlacementState) (idx : Nat) : PlacementState :=
  s.setWorker idx
    { s.worker idx with pendingImages := fun _ => 0, knownImages := fun _ => false }

def workerEligible (s : PlacementState) (idx : Nat) : Bool :=
  match (s.worker idx).telemetry with
  | none => true
  | some t => t.healthy && t.schedulable

/-- `observedInstances` once the local counter was read. -/
def observedInstances (s : PlacementState) (idx loc : Nat) : Nat :=
  match (s.worker idx).telemetry with
  | none => loc
  | some t => if t.instances.toNat > loc then t.instances.toNat else loc

def addPendingImage (s : PlacementState) (idx : Nat) (image : String) : PlacementState :=
  if image ≠ "" ∧ s.trackImages = true then
    s.setWorker idx { s.worker idx with
      pendingImages := update (s.worker idx).pendingImages image
        ((s.worker idx).pendingImages image + 1) }
  else s

def finishImage (s : PlacementState) (r : PlacementReservation) (committed : Bool) :
    PlacementState :=
  if r.image = "" then s
  else
    let w := s.worker r.workerIndex
    let w := { w with
      pendingImages := update w.pendingImages r.image (w.pendingImages r.image - 1) }
    let w := if committed && s.trackImages then
      { w with knownImages := update w.knownImages r.image true } else w
    s.setWorker r.workerIndex w

/-- The check at the head of `completeReservation`. -/
def acceptable (s : PlacementState) (r : PlacementReservation) : Bool :=
  r.valid && decide (r.slot < s.slots) && decide (r.workerIndex < s.workers)

end PlacementState

/-- Where a `decrement` loop stands. -/
inductive Dec
  | load
  | cas (current : Nat)
  deriving DecidableEq, Repr

/-- One atomic step of `decrement` on a counter with this value: a new place, or
the end with the counter's value. A load of zero ends the loop. -/
def Dec.step (value : Nat) : Dec → Dec ⊕ Nat
  | .load => if value > 0 then .inl (.cas value) else .inr value
  | .cas current => if value = current then .inr (current - 1) else .inl .load

/-- The two ways through `Schedule`, with what each carries along. -/
inductive Path
  | snapshot (choice : PlacementChoice)
  | balanced (start offset : Nat)
  deriving DecidableEq, Repr

structure Call where
  image : String
  path : Path
  deriving DecidableEq, Repr

inductive PC
  | idle
  -- `Schedule`
  | globalLoad (balanced : Bool) (image : String)
  | globalCas (balanced : Bool) (image : String) (current : Nat)
  | picking (balanced : Bool) (image : String)
  | eligible (c : Call) (idx : Nat)
  | loadPending (c : Call) (idx : Nat)
  | loadLocal (c : Call) (idx pending : Nat)
  | loadTelemetry (c : Call) (idx pending loc : Nat)
  | casPending (c : Call) (idx pending : Nat)
  | recheck (c : Call) (idx pending : Nat)
  | reloadLocal (c : Call) (idx pending : Nat)
  | reloadTelemetry (c : Call) (idx pending loc : Nat)
  | undo (c : Call) (idx : Nat) (d : Dec)
  | claim (c : Call) (idx : Nat)
  | slotLoad (c : Call) (idx start offset : Nat)
  | slotCas (c : Call) (idx start offset state : Nat)
  | image (c : Call) (r : PlacementReservation)
  | unwind (c : Call) (idx : Nat) (d : Dec)
  | releaseGlobal (o : Outcome) (d : Dec)
  | returned (o : Outcome)
  -- `CommitReservation` and `CancelReservation`
  | complete (committed : Bool) (r : PlacementReservation)
  | decPending (committed : Bool) (r : PlacementReservation) (d : Dec)
  | addInstance (r : PlacementReservation)
  | finishImage (committed : Bool) (r : PlacementReservation)
  | decGlobal (r : PlacementReservation) (d : Dec)
  | notify
  | completed
  -- `RecordStop`
  | recordStop (idx : Nat) (d : Dec)
  | recorded
  deriving DecidableEq, Repr

structure World where
  state : PlacementState
  nthreads : Nat
  pc : Nat → PC
  /-- tokens whose completion passed its compare-and-swap -/
  effects : List (Nat × Nat)
  /-- number of successful compare-and-swaps on workers' counters -/
  clock : Nat
  /-- the number of a call's own last such step -/
  seq : Nat → Nat
  /-- the commits that were between their two counter updates at that step -/
  seen : Nat → List Nat
  /-- for each worker, the highest number among the calls it was granted to -/
  top : Nat → Nat

/-- The scheduler's answer: `PickWorker` on the snapshot path, `NextWorkerIndex`
on the balanced one. -/
inductive Pick
  | failed
  | nothing (reason : String)
  | worker (id : Nat) (reason : String)
  | start (idx : Nat)
  deriving DecidableEq, Repr

/-- What `Schedule` finds behind the facade it is given. -/
inductive Scheduler
  | missing
  | snapshot
  | balanced
  deriving DecidableEq, Repr

inductive Action
  | telemetry (idx : Nat) (t : Option Telemetry)
  | resetImages (idx : Nat)
  | setTrackImages (track : Bool)
  | schedule (scheduler : Scheduler) (image : String)
  | complete (committed : Bool) (r : PlacementReservation)
  | recordStop (workerID : Nat)
  | pick (t : Nat) (p : Pick)
  | step (t : Nat)

namespace World

def setPC (w : World) (t : Nat) (x : PC) : World := { w with pc := update w.pc t x }

def setState (w : World) (s : PlacementState) : World := { w with state := s }

/-- A new thread. -/
def spawn (w : World) (x : PC) : World :=
  { w with pc := update w.pc w.nthreads x, nthreads := w.nthreads + 1 }

/-- The token a call returned. -/
def tokenOf : PC → Option PlacementReservation
  | .returned o => o.reservation
  | _ => none

/-- Some call of `Schedule` returned this token. -/
def Issued (w : World) (r : PlacementReservation) : Prop :=
  ∃ t, t < w.nthreads ∧ tokenOf (w.pc t) = some r

instance (w : World) (r : PlacementReservation) : Decidable (w.Issued r) :=
  inferInstanceAs (Decidable (∃ t, t < w.nthreads ∧ _))

def init (s : PlacementState) : World where
  state := s
  nthreads := 0
  pc := fun _ => .idle
  effects := []
  clock := 0
  seq := fun _ => 0
  seen := fun _ => []
  top := fun _ => 0

def exhausted (choice : PlacementChoice) : Outcome :=
  ⟨choice, none, some .startSlotsExhausted⟩

/-- Where a call goes when `reserveWorker` refused it a worker. -/
def refused (s : PlacementState) (c : Call) : PC :=
  match c.path with
  | .snapshot _ =>
      .releaseGlobal (exhausted ⟨0, "worker capacity changed during placement"⟩) .load
  | .balanced start offset =>
      if offset + 1 < s.workers then
        .eligible { c with path := .balanced start (offset + 1) } ((start + (offset + 1)) % s.workers)
      else .releaseGlobal (exhausted ⟨0, "no worker capacity"⟩) .load

/-- What a call returns when no reservation slot was free. -/
def unslotted (c : Call) : Outcome :=
  match c.path with
  | .snapshot choice => exhausted choice
  | .balanced _ _ => exhausted ⟨0, ""⟩

/-- What a call returns with its token. -/
def placed (c : Call) (r : PlacementReservation) : Outcome :=
  match c.path with
  | .snapshot choice => ⟨choice, some r, none⟩
  | .balanced _ _ => ⟨⟨r.workerIndex + 1, "balanced-round-robin"⟩, some r, none⟩

/-- The next slot to try, or the way back. -/
def nextSlot (s : PlacementState) (c : Call) (idx start offset : Nat) : PC :=
  if offset + 1 < s.slots then .slotLoad c idx start (offset + 1) else .unwind c idx .load

/-- The threads that have taken their unit off worker `idx`'s `pendingStarts` and
not yet added it to `instances`. -/
def adding (idx : Nat) : PC → Bool
  | .addInstance r => decide (r.workerIndex = idx)
  | _ => false

/-- `reserveWorker` returns true. -/
def grant (w : World) (t : Nat) (c : Call) (idx : Nat) : World :=
  { w.setPC t (.claim c idx) with
    top := update w.top idx (max (w.top idx) (w.seq t)) }

/-- The scheduler's answer arrives. -/
def pick (w : World) (t : Nat) (p : Pick) : Except Fault World :=
  match w.pc t, p with
  | .picking false _, .failed => .ok (w.setPC t (.releaseGlobal ⟨⟨0, ""⟩, none, some .pickWorker⟩ .load))
  | .picking false _, .nothing reason => .ok (w.setPC t (.releaseGlobal ⟨⟨0, reason⟩, none, none⟩ .load))
  | .picking false image, .worker id reason =>
      if id = 0 then .ok (w.setPC t (.releaseGlobal ⟨⟨0, reason⟩, none, none⟩ .load))
      else if id - 1 < w.state.workers then
        .ok (w.setPC t (.eligible ⟨image, .snapshot ⟨id, reason⟩⟩ (id - 1)))
      else .ok (w.setPC t (refused w.state ⟨image, .snapshot ⟨id, reason⟩⟩))
  | .picking true image, .start idx =>
      .ok (w.setPC t (.eligible ⟨image, .balanced idx 0⟩ (idx % w.state.workers)))
  | _, _ => .error .disabled

/-- One atomic step of a `decrement` whose counter holds `value`. -/
def decrement (w : World) (t value : Nat) (d : Dec) (store : Nat → PlacementState)
    (again : Dec → PC) (done : PC) : World :=
  match d.step value with
  | .inl d' => w.setPC t (again d')
  | .inr n => (w.setState (store n)).setPC t done

/-- The compare-and-swap of `reserveWorker` went through. -/
def reserve (w : World) (t : Nat) (c : Call) (idx pending : Nat) : World :=
  { (w.setState (w.state.setPendingStarts idx (pending + 1))).setPC t (.recheck c idx pending) with
    clock := w.clock + 1
    seq := update w.seq t (w.clock + 1)
    seen := update w.seen t
      ((List.range w.nthreads).filter fun u => adding idx (w.pc u)) }

/-- The compare-and-swap of `completeReservation` went through. -/
def consume (w : World) (t : Nat) (committed : Bool) (r : PlacementReservation) : World :=
  { (w.setState (w.state.setSlot r.slot (r.generation + 1))).setPC t
      (.decPending committed r .load) with
    effects := w.effects ++ [(r.slot, r.generation)] }

/-- The next atomic step of thread `t`. -/
def advance (w : World) (t : Nat) : Except Fault World :=
  let s := w.state
  match w.pc t with
  | .globalLoad b image =>
      if s.startTokensTotal > 0 ∧ s.pendingStarts ≥ s.startTokensTotal then
        .ok (w.setPC t (.returned (exhausted ⟨0, ""⟩)))
      else .ok (w.setPC t (.globalCas b image s.pendingStarts))
  | .globalCas b image current =>
      if s.pendingStarts = current then
        .ok ((w.setState (s.setGlobalStarts (current + 1))).setPC t (.picking b image))
      else .ok (w.setPC t (.globalLoad b image))
  | .eligible c idx =>
      if s.workerEligible idx then .ok (w.setPC t (.loadPending c idx))
      else .ok (w.setPC t (refused s c))
  | .loadPending c idx =>
      let pending := (s.worker idx).pendingStarts
      if s.startTokensPerWorker > 0 ∧ pending ≥ s.startTokensPerWorker then
        .ok (w.setPC t (refused s c))
      else if s.maxInstancesPerWorker > 0 then .ok (w.setPC t (.loadLocal c idx pending))
      else .ok (w.setPC t (.casPending c idx pending))
  | .loadLocal c idx pending =>
      .ok (w.setPC t (.loadTelemetry c idx pending (s.worker idx).instances))
  | .loadTelemetry c idx pending loc =>
      if (s.observedInstances idx loc + pending) % 2 ^ 64 ≥ s.maxInstancesPerWorker then
        .ok (w.setPC t (refused s c))
      else .ok (w.setPC t (.casPending c idx pending))
  | .casPending c idx pending =>
      if (s.worker idx).pendingStarts = pending then .ok (w.reserve t c idx pending)
      else .ok (w.setPC t (.eligible c idx))
  | .recheck c idx pending =>
      if s.workerEligible idx = false then .ok (w.setPC t (.undo c idx .load))
      else if s.maxInstancesPerWorker > 0 then .ok (w.setPC t (.reloadLocal c idx pending))
      else .ok (w.grant t c idx)
  | .reloadLocal c idx pending =>
      .ok (w.setPC t (.reloadTelemetry c idx pending (s.worker idx).instances))
  | .reloadTelemetry c idx pending loc =>
      if (s.observedInstances idx loc + pending + 1) % 2 ^ 64 > s.maxInstancesPerWorker then
        .ok (w.setPC t (.undo c idx .load))
      else .ok (w.grant t c idx)
  | .undo c idx d =>
      .ok (w.decrement t (s.worker idx).pendingStarts d (s.setPendingStarts idx)
        (.undo c idx) (refused s c))
  | .claim c idx =>
      -- `reservationCursor.Add(1) - 1`
      .ok ((w.setState { s with reservationCursor := (s.reservationCursor + 1) % 2 ^ 64 }).setPC t
        (.slotLoad c idx (s.reservationCursor % s.slots) 0))
  | .slotLoad c idx start offset =>
      let state := s.reservations ((start + offset) % s.slots)
      if state % 2 = 1 then .ok (w.setPC t (nextSlot s c idx start offset))
      else .ok (w.setPC t (.slotCas c idx start offset state))
  | .slotCas c idx start offset state =>
      let slot := (start + offset) % s.slots
      if s.reservations slot = state then
        .ok ((w.setState (s.setSlot slot (state + 1))).setPC t
          (.image c ⟨idx, c.image, slot, state + 1, true, w.seq t⟩))
      else .ok (w.setPC t (nextSlot s c idx start offset))
  | .image c r =>
      .ok ((w.setState (s.addPendingImage r.workerIndex r.image)).setPC t
        (.returned (placed c r)))
  | .unwind c idx d =>
      .ok (w.decrement t (s.worker idx).pendingStarts d (s.setPendingStarts idx)
        (.unwind c idx) (.releaseGlobal (unslotted c) .load))
  | .releaseGlobal o d =>
      .ok (w.decrement t s.pendingStarts d s.setGlobalStarts
        (.releaseGlobal o) (.returned o))
  | .complete committed r =>
      if s.acceptable r = true ∧ s.reservations r.slot = r.generation then
        .ok (w.consume t committed r)
      else .ok (w.setPC t .completed)
  | .decPending committed r d =>
      .ok (w.decrement t (s.worker r.workerIndex).pendingStarts d
        (s.setPendingStarts r.workerIndex) (.decPending committed r)
        (if committed then .addInstance r else .finishImage false r))
  | .addInstance r =>
      .ok ((w.setState (s.setInstances r.workerIndex ((s.worker r.workerIndex).instances + 1))).setPC t
        (.finishImage true r))
  | .finishImage committed r =>
      .ok ((w.setState (s.finishImage r committed)).setPC t (.decGlobal r .load))
  | .decGlobal r d =>
      .ok (w.decrement t s.pendingStarts d s.setGlobalStarts
        (.decGlobal r) .notify)
  | .notify => .ok ((w.setState { s with startCapacityChanged := true }).setPC t .completed)
  | .recordStop idx d =>
      .ok (w.decrement t (s.worker idx).instances d (s.setInstances idx)
        (.recordStop idx) .recorded)
  | .idle | .picking _ _ | .returned _ | .completed | .recorded => .error .disabled

/-- Every call starts as a new thread; a token may be handed to any number of
completions, in any order, once it was issued. -/
def step (w : World) : Action → Except Fault World
  | .telemetry idx t => .ok (w.setState (w.state.setTelemetry idx t))
  | .resetImages idx => .ok (w.setState (w.state.resetImages idx))
  | .setTrackImages track => .ok (w.setState { w.state with trackImages := track })
  | .schedule .missing _ =>
      .ok (w.spawn (.returned ⟨⟨0, "scheduler not configured"⟩, none, none⟩))
  | .schedule .snapshot image => .ok (w.spawn (.globalLoad false image))
  | .schedule .balanced image =>
      if w.state.workers = 0 then .ok (w.spawn (.returned ⟨⟨0, "no workers"⟩, none, none⟩))
      else .ok (w.spawn (.globalLoad true image))
  | .complete committed r =>
      if r.valid = false ∨ w.Issued r then .ok (w.spawn (.complete committed r))
      else .error .disabled
  | .recordStop workerID =>
      if 0 < workerID ∧ workerID ≤ w.state.workers then
        .ok (w.spawn (.recordStop (workerID - 1) .load))
      else .ok (w.spawn .recorded)
  | .pick t p => w.pick t p
  | .step t => w.advance t

/-- A leaf's placement state at the start, for every configuration. -/
def Start (w : World) : Prop :=
  ∃ workers perWorker total cap,
    w = init (PlacementState.newPlacementState workers perWorker total cap)

end World

def machine : Lib.Machine World Action Fault where
  start := World.Start
  step := World.step

end HyperFaaS.Runtime
